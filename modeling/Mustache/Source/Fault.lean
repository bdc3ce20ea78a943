import Mustache.Text.Blank

namespace Mustache

structure Span where
  start : Nat
  stop : Nat
deriving DecidableEq

inductive Fault where
  | unclosedTag (opening : String)
  | emptySectionName
  /-- A closing tag that does not name the innermost open section. -/
  | unmatchedClose (name : String) (expected : Option String)
  | unclosedSection (name : String)
  /-- A switch tag without a delimiter in it. -/
  | invalidDelimiters (tag : String)
deriving DecidableEq

def Fault.message : Fault → String
  | .unclosedTag opening => "tag \"" ++ opening ++ "\" was not closed properly"
  | .emptySectionName => "section name may not be empty"
  | .unmatchedClose name _ => "section named \"" ++ name ++ "\" was never opened"
  | .unclosedSection name => "section \"" ++ name ++ "\" was not closed properly"
  | .invalidDelimiters tag => "invalid delimiter switch \"" ++ tag ++ "\""

structure FaultSite where
  fault : Fault
  line : Nat
  span : Span
deriving DecidableEq

structure Location where
  file : String
  line : Nat
  span : Span
  excerpt : String
deriving DecidableEq

/-- From two lines before the given line to three after it, with the line itself marked. -/
def excerpt (template : List Char) (line : Nat) : String :=
  let shown := (Text.lines template).zipIdx 1 |>.filter fun (_, number) =>
    line ≤ number + 2 && number ≤ line + 3
  "\n".intercalate <| shown.map fun (text, number) =>
    (if number = line then " >> " else "    ") ++ String.ofList text

def Location.text (l : Location) : String :=
  l.file ++ ":" ++ toString l.line ++ "\n" ++ l.excerpt

structure CompileError where
  fault : Fault
  location : Location
deriving DecidableEq

def CompileError.message (e : CompileError) : String :=
  e.location.text ++ "\n\n" ++ e.fault.message

/-- A fault of the given template, which diagnostics call `file`. -/
def FaultSite.inTemplate (f : FaultSite) (template : List Char) (file : String) : CompileError :=
  ⟨f.fault, file, f.line, f.span, excerpt template f.line⟩

end Mustache
