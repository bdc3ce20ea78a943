import Mustache.Program.Parse

namespace Mustache

abbrev StorageId := Nat

/-- What makes a compiled template this one and no other: the storage it was compiled for, and how
many had been compiled for it before. -/
structure Identity where
  storage : StorageId
  serial : Nat
deriving DecidableEq

/-- A compiled template. There is none that was not made from a text. -/
structure Template where
  /-- The text that the template was made from, which nothing looks at afterwards. -/
  text : String
  options : Options
  program : Program
  identity : Identity
  compiled : parse text options = .ok program
deriving DecidableEq

namespace Template

/-- Compiles a text without regard to what was compiled before. -/
def build (text : String) (options : Options) (identity : Identity) :
    Except CompileError Template :=
  match compiled : parse text options with
  | .error e => .error e
  | .ok program => .ok ⟨text, options, program, identity, compiled⟩

end Template
end Mustache
