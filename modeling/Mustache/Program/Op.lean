namespace Mustache

/-- A step of a compiled template. The steps are in one sequence, a section before its body. -/
inductive Op where
  | literal (text : String)
  | escaped (name : String)
  | unescaped (name : String)
  /-- The next `bodyLength` operations are the body; `raw` is its source. -/
  | openSection (name : String) (inverted : Bool) (bodyLength : Nat) (raw : String)
  | closeSection (name : String)
  | inclusion (name : String)
deriving DecidableEq

structure Program where
  ops : List Op
deriving DecidableEq

namespace Program

def size (p : Program) : Nat :=
  p.ops.length

def isEmpty (p : Program) : Bool :=
  p.ops.isEmpty

end Program
end Mustache
