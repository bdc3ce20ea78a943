namespace Mustache.Escape

def isEntityChar (c : Char) : Bool :=
  c.isAlphanum || c == '_'

/-- Whether the text, put after an ampersand, makes an entity of it. -/
def startsEntity (cs : List Char) : Bool :=
  match cs.takeWhile isEntityChar, cs.dropWhile isEntityChar with
  | _ :: _, ';' :: _ => true
  | _, _ => false

def isSpecial (c : Char) : Bool :=
  c == '&' || c == '<' || c == '>' || c == '"' || c == '\''

def amp : List Char := ['&', 'a', 'm', 'p', ';']
def lt : List Char := ['&', 'l', 't', ';']
def gt : List Char := ['&', 'g', 't', ';']
def quot : List Char := ['&', 'q', 'u', 'o', 't', ';']
def apos : List Char := ['&', '#', '3', '9', ';']

/-- What is written for a character that `rest` follows. -/
def escapeChar (c : Char) (rest : List Char) : List Char :=
  if c = '&' then (if startsEntity rest then ['&'] else amp)
  else if c = '<' then lt
  else if c = '>' then gt
  else if c = '"' then quot
  else if c = '\'' then apos
  else [c]

def escapeChars : List Char → List Char
  | [] => []
  | c :: cs => escapeChar c cs ++ escapeChars cs

end Mustache.Escape

namespace Mustache

/-- The text with markup characters replaced by entities. An ampersand that already starts a named
entity is left alone. -/
def escapeHtml (s : String) : String :=
  if s.toList.any Escape.isSpecial then String.ofList (Escape.escapeChars s.toList) else s

end Mustache
