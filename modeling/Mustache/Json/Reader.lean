import Mustache.Json.Basic

namespace Mustache.Json

open Text (Reader)
open Text.Reader

def spaces : Reader Unit :=
  skipWhile fun c => c == ' ' || c == '\t' || c == '\n' || c == '\r'

def token {α : Type} (r : Reader α) : Reader α :=
  r <* spaces

def hexQuad : Reader Nat := do
  return Text.ofDigits 16 (← exactly 4 (satisfy Text.isHexDigit))

/-- The character of a numbered escape, which may be written as a pair of surrogates. -/
def numberedEscape : Reader Char := do
  let first ← hexQuad
  if 0xd800 ≤ first && first ≤ 0xdbff then
    text "\\u"
    let second ← hexQuad
    if 0xdc00 ≤ second && second ≤ 0xdfff then
      liftM (Text.charOfNat? (0x10000 + (first - 0xd800) * 0x400 + (second - 0xdc00)))
    else failure
  else liftM (Text.charOfNat? first)

def stringChar : Reader Char := do
  let c ← satisfy fun c => c != '"' && ' ' ≤ c
  if c != '\\' then return c
  match ← anyChar with
  | '"' => return '"'
  | '\\' => return '\\'
  | '/' => return '/'
  | 'b' => return '\x08'
  | 'f' => return '\x0c'
  | 'n' => return '\n'
  | 'r' => return '\r'
  | 't' => return '\t'
  | 'u' => numberedEscape
  | _ => failure

def stringText : Reader String := do
  char '"'
  let cs ← many stringChar
  char '"'
  return String.ofList cs

/-- The digits before the point: no zero in front of others. -/
def wholeDigits : Reader (List Char) := do
  if ← accept '0' then return ['0'] else takeWhile1 Char.isDigit

def places : Reader (List Char) := do
  char '.'
  takeWhile1 Char.isDigit

def exponent : Reader Int := do
  let _ ← satisfy fun c => c == 'e' || c == 'E'
  let negative ← accept '-'
  unless negative do let _ ← accept '+'
  let n : Int := Text.ofDigits 10 (← takeWhile1 Char.isDigit)
  return if negative then -n else n

def numeral : Reader Numeral := do
  let negative ← accept '-'
  let whole ← wholeDigits
  let fraction ← optional places
  return ⟨negative, whole, fraction.getD [], ← optional exponent⟩

def scalar : Reader Json :=
  (do text "null"; return .null) <|> (do text "true"; return .bool true) <|>
    (do text "false"; return .bool false) <|> (.string <$> stringText) <|> (.number <$> numeral)

def arrayOf (item : Reader Json) : Reader Json := do
  token (char '[')
  if ← accept ']' then return .array []
  let items ← sepBy1 item (token (char ','))
  char ']'
  return .array items

def member (item : Reader Json) : Reader (String × Json) := do
  let key ← token stringText
  token (char ':')
  return (key, ← item)

def objectOf (item : Reader Json) : Reader Json := do
  token (char '\x7b')
  if ← accept '\x7d' then return .object []
  let members ← sepBy1 (member item) (token (char ','))
  char '\x7d'
  return .object members

/-- What is at most `depth` arrays and objects deep. -/
def document : Nat → Reader Json
  | 0 => token scalar
  | depth + 1 => token (scalar <|> arrayOf (document depth) <|> objectOf (document depth))

/-- A text in the strict grammar of RFC 8259, with arrays and objects at most `depth` deep. -/
def read? (depth : Nat) (s : String) : Option Json :=
  (spaces *> document depth).readAll? s

end Mustache.Json
