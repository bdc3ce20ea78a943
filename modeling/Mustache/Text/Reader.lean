namespace Mustache.Text

/-- Takes a value off the front of some characters, or fails. A reader that fails has taken nothing,
so another one can be tried in its place. -/
abbrev Reader := StateT (List Char) Option

namespace Reader

def anyChar : Reader Char := do
  match ← get with
  | [] => failure
  | c :: cs => set cs; return c

def satisfy (p : Char → Bool) : Reader Char := do
  let c ← anyChar
  if p c then return c else failure

def char (expected : Char) : Reader Unit := do
  let _ ← satisfy (· == expected)

def text (expected : String) : Reader Unit :=
  expected.toList.forM char

/-- Takes the character if it is next, and says whether it was. -/
def accept (c : Char) : Reader Bool :=
  (do char c; return true) <|> return false

def takeWhile (p : Char → Bool) : Reader (List Char) := do
  let cs ← get
  set (cs.dropWhile p)
  return cs.takeWhile p

def takeWhile1 (p : Char → Bool) : Reader (List Char) := do
  let taken ← takeWhile p
  if taken.isEmpty then failure else return taken

def skipWhile (p : Char → Bool) : Reader Unit :=
  modify (·.dropWhile p)

def exactly {α : Type} : Nat → Reader α → Reader (List α)
  | 0, _ => return []
  | n + 1, r => return (← r) :: (← exactly n r)

/-- Reads as often as it can, but not more often than `bound` has characters. -/
def upTo {α : Type} (r : Reader α) : (bound : List Char) → Reader (List α)
  | [] => return []
  | _ :: bound => (do let a ← r; return a :: (← upTo r bound)) <|> return []

/-- Reads as often as it can. A reader that takes something cannot succeed more often than there
are characters left. -/
def many {α : Type} (r : Reader α) : Reader (List α) := do
  upTo r (← get)

def sepBy1 {α : Type} (r : Reader α) (separator : Reader Unit) : Reader (List α) := do
  return (← r) :: (← many (separator *> r))

def atEnd : Reader Unit := do
  if (← get).isEmpty then return () else failure

def readAll? {α : Type} (r : Reader α) (s : String) : Option α :=
  ((do let a ← r; atEnd; return a : Reader α).run s.toList).map (·.1)

end Reader

def digitValue (c : Char) : Nat :=
  if c.isDigit then c.toNat - '0'.toNat
  else if c.isLower then c.toNat - 'a'.toNat + 10
  else c.toNat - 'A'.toNat + 10

def ofDigits (base : Nat) (digits : List Char) : Nat :=
  digits.foldl (fun n c => n * base + digitValue c) 0

def isHexDigit (c : Char) : Bool :=
  c.isDigit || ('a' ≤ c && c ≤ 'f') || ('A' ≤ c && c ≤ 'F')

def charOfNat? (n : Nat) : Option Char :=
  if h : n.isValidChar then some (Char.ofNatAux n h) else none

end Mustache.Text
