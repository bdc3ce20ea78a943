import Mustache.Entries
import Mustache.Template.Basic

namespace Mustache

inductive Partial where
  /-- A source, compiled with standard options when it is met. -/
  | source (text : String)
  | compiled (template : Template)
deriving DecidableEq

/-- Named partials, with distinct names in order. -/
structure Partials where
  entries : List (String × Partial)

namespace Partials

def empty : Partials :=
  ⟨[]⟩

def get? (table : Partials) (name : String) : Option Partial :=
  table.entries.lookup name

def insert (table : Partials) (name : String) (entry : Partial) : Partials :=
  ⟨Entries.put name entry table.entries⟩

/-- A table of sources. Of several with one name the last counts. -/
def ofSources (sources : List (String × String)) : Partials :=
  sources.foldl (fun table (name, text) => table.insert name (.source text)) empty

def contains (table : Partials) (name : String) : Bool :=
  (table.get? name).isSome

def names (table : Partials) : List String :=
  table.entries.map (·.1)

def size (table : Partials) : Nat :=
  table.entries.length

def isEmpty (table : Partials) : Bool :=
  table.entries.isEmpty

end Partials
end Mustache
