import Mustache.Number.Nearest
import Mustache.Toml.Basic
import Mustache.Toml.DateTime

namespace Mustache.Toml

open Text (Reader)
open Text.Reader

/-- How many arrays and inline tables may be inside each other, and how many keys in a row. -/
def nestingLimit : Nat := 79

def spaces : Reader Unit :=
  skipWhile fun c => c == ' ' || c == '\t'

def newline : Reader Unit := do
  let _ ← accept '\r'
  char '\n'

/-- Visible characters, the space, the tab, and all that is not ASCII. -/
def isPlain (c : Char) : Bool :=
  c == '\t' || (' ' ≤ c && c ≤ '~') || '\x80' ≤ c

def comment : Reader Unit := do
  char '#'
  skipWhile isPlain

def gap : Reader Unit := do
  let _ ← many (newline <|> (do char ' ') <|> (do char '\t') <|> (do comment; newline))

def numberedEscape (count : Nat) : Reader Char := do
  let digits ← exactly count (satisfy Text.isHexDigit)
  liftM (Text.charOfNat? (Text.ofDigits 16 digits))

def escape : Reader Char := do
  char '\\'
  match ← anyChar with
  | 'b' => return '\x08'
  | 't' => return '\t'
  | 'n' => return '\n'
  | 'f' => return '\x0c'
  | 'r' => return '\r'
  | '"' => return '"'
  | '\\' => return '\\'
  | 'u' => numberedEscape 4
  | 'U' => numberedEscape 8
  | _ => failure

def basicChar : Reader Char :=
  satisfy fun c => isPlain c && c != '"' && c != '\\'

def literalChar : Reader Char :=
  satisfy fun c => isPlain c && c != '\''

def basicString : Reader String := do
  char '"'
  let cs ← many (basicChar <|> escape)
  char '"'
  return String.ofList cs

def literalString : Reader String := do
  char '\''
  let cs ← many literalChar
  char '\''
  return String.ofList cs

/-- A backslash at the end of a line leaves out all white space that follows. -/
def continuation : Reader (List Char) := do
  char '\\'
  spaces
  newline
  let _ ← many (newline <|> (do char ' ') <|> (do char '\t'))
  return []

/-- One or two quotes that do not belong to the end of a string. -/
def innerQuotes (quote : Char) : Reader (List Char) := do
  let quotes ← takeWhile1 (· == quote)
  if quotes.length ≤ 2 then return quotes else failure

/-- The three quotes at the end of a string, and one or two before them that belong to it. -/
def finalQuotes (quote : Char) : Reader (List Char) := do
  let quotes ← takeWhile1 (· == quote)
  if 3 ≤ quotes.length && quotes.length ≤ 5 then return quotes.drop 3 else failure

/-- A string between three quotes on either side. A line break right at the start does not count. -/
def longString (quote : Char) (part : Reader (List Char)) : Reader String := do
  let _ ← exactly 3 (char quote)
  let _ ← optional newline
  let parts ← many (part <|> (do newline; return ['\n']) <|> innerQuotes quote)
  let last ← finalQuotes quote
  return String.ofList (parts.flatten ++ last)

def string : Reader String :=
  longString '"' ((do return [← basicChar]) <|> continuation <|> (do return [← escape])) <|>
    basicString <|> longString '\'' (do return [← literalChar]) <|> literalString

def isOctal (c : Char) : Bool :=
  '0' ≤ c && c ≤ '7'

def isBinary (c : Char) : Bool :=
  c == '0' || c == '1'

def digits (p : Char → Bool) : Reader (List Char) := do
  let first ← satisfy p
  let rest ← many (do let _ ← accept '_'; satisfy p)
  return first :: rest

def sign : Reader Bool := do
  if ← accept '-' then return true
  let _ ← accept '+'
  return false

/-- Decimal digits without a zero in front of others. -/
def wholeDigits : Reader (List Char) := do
  if ← accept '0' then return ['0'] else digits Char.isDigit

def radixInteger (letter : Char) (base : Nat) (p : Char → Bool) : Reader Int := do
  char '0'
  char letter
  return Text.ofDigits base (← digits p)

def decimalInteger : Reader Int := do
  let negative ← sign
  let n : Int := Text.ofDigits 10 (← wholeDigits)
  return if negative then -n else n

def integer : Reader Item := do
  let n ← radixInteger 'x' 16 Text.isHexDigit <|> radixInteger 'o' 8 isOctal <|>
    radixInteger 'b' 2 isBinary <|> decimalInteger
  if -0x8000000000000000 ≤ n && n < 0x8000000000000000 then return .integer (Int64.ofInt n)
  else failure

def places : Reader (List Char) := do
  char '.'
  digits Char.isDigit

def scale : Reader Int := do
  let _ ← satisfy fun c => c == 'e' || c == 'E'
  let negative ← sign
  let n : Int := Text.ofDigits 10 (← digits Char.isDigit)
  return if negative then -n else n

/-- A number with a point or an exponent. One that is too great is refused, one that is too small
is negative infinity. -/
def finiteFloat : Reader Float := do
  let negative ← sign
  let whole ← wholeDigits
  let fraction ← optional places
  let exponent ← optional scale
  if fraction.isNone && exponent.isNone then failure
  let fraction := fraction.getD []
  let x := Number.nearest (Text.ofDigits 10 (whole ++ fraction))
    (exponent.getD 0 - fraction.length)
  if negative then return -x
  else if x.isInf then failure
  else return x

def specialFloat : Reader Float := do
  let negative ← sign
  let x ← (do text "inf"; return 1.0 / 0.0) <|> (do text "nan"; return 0.0 / 0.0)
  return if negative then -x else x

def isBareKeyChar (c : Char) : Bool :=
  c.isAlphanum || c == '_' || c == '-'

def simpleKey : Reader String :=
  basicString <|> literalString <|> (String.ofList <$> takeWhile1 isBareKeyChar)

/-- Keys between dots: those before the last one, and the last one. -/
def key : Reader (List String × String) := do
  let keys ← sepBy1 (spaces *> simpleKey <* spaces) (char '.')
  match keys.getLast? with
  | some last => if keys.length ≤ nestingLimit then return (keys.dropLast, last) else failure
  | none => failure

def scalar : Reader Item :=
  (.string <$> string) <|> (do text "true"; return .boolean true) <|>
    (do text "false"; return .boolean false) <|> (.dateTime <$> DateTime.dateTime) <|>
    (.float <$> finiteFloat) <|> (.float <$> specialFloat) <|> integer

/-- Items between brackets; a comma may follow the last one. -/
def array (item : Reader Item) : Reader Item := do
  char '['
  gap
  let items ← sepBy1 (item <* gap) (char ',' <* gap) <|> return []
  unless items.isEmpty do
    let _ ← accept ','
    gap
  char ']'
  return .array items

def pair (item : Reader Item) : Reader Pair := do
  let (path, last) ← key
  char '='
  spaces
  return ⟨path, last, ← item⟩

def inlineTable (item : Reader Item) : Reader Item := do
  char '\x7b'
  spaces
  let pairs ← (sepBy1 (pair item <* spaces) (char ',' *> spaces)) <|> return []
  char '\x7d'
  let entries ← liftM (m := Option) (pairs.foldlM (fun entries p =>
    Entries.addInline p.item p.key p.path p.path .header entries) [])
  return .inline .header entries

/-- An item with at most `depth` arrays and inline tables inside each other. -/
def item : Nat → Reader Item
  | 0 => scalar
  | depth + 1 => scalar <|> array (item depth) <|> inlineTable (item depth)

inductive Line where
  | blank
  | pair (pair : Pair)
  | header (header : Header)

def header : Reader Header :=
  (do
    text "[["
    let (path, last) ← key
    text "]]"
    return .element path last) <|>
  (do
    char '['
    let (path, last) ← key
    char ']'
    return .table path last)

def line : Reader Line := do
  spaces
  let content ← (.header <$> header) <|> (.pair <$> pair (item nestingLimit)) <|> return .blank
  spaces
  let _ ← optional comment
  return content

def group : List Line → List Pair × List Section
  | [] => ([], [])
  | .blank :: lines => group lines
  | .pair p :: lines =>
    let (pairs, sections) := group lines
    (p :: pairs, sections)
  | .header h :: lines =>
    let (pairs, sections) := group lines
    ([], ⟨h, pairs⟩ :: sections)

/-- The entries of a TOML document, in the order in which they were made. -/
def read? (s : String) : Option Entries := do
  let lines ← (do
    let _ ← accept '\ufeff'
    sepBy1 line newline : Reader (List Line)).readAll? s
  let (pairs, sections) := group lines
  assemble pairs sections

end Mustache.Toml
