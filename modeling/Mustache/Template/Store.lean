import Mustache.Program.Parse
import Mustache.Render.Run
import Mustache.Template.Basic

namespace Mustache

/-- All that the program and the rendering of a template depend on. The name in diagnostics is not
part of it: a template that compiled has none to give. -/
structure CacheKey where
  text : String
  tags : Delimiters
  preserveWhitespace : Bool
  partialDepthLimit : Nat
deriving DecidableEq

def CacheKey.of (text : String) (options : Options) : CacheKey :=
  ⟨text, options.tags, options.preserveWhitespace, options.partialDepthLimit⟩

/-- A storage of compiled templates. A text compiled again with the same effect gives the template
that is kept. -/
structure Store where
  id : StorageId
  entries : List (CacheKey × Template)
  made : Nat
  /-- A template is kept under the key of its own text and options. -/
  keyed : ∀ entry ∈ entries, entry.1 = .of entry.2.text entry.2.options

namespace Store

def empty (id : StorageId) : Store :=
  ⟨id, [], 0, by simp⟩

def get? (s : Store) (key : CacheKey) : Option Template :=
  s.entries.lookup key

def contains (s : Store) (text : String) (options : Options) : Bool :=
  (s.get? (.of text options)).isSome

def size (s : Store) : Nat :=
  s.entries.length

def isEmpty (s : Store) : Bool :=
  s.entries.isEmpty

/-- Forgets all templates; those handed out stay as they are. -/
def clear (s : Store) : Store :=
  { s with entries := [], keyed := by simp }

/-- Makes a new template for this storage, without keeping it. -/
def make (s : Store) (text : String) (options : Options) : Except CompileError (Template × Store) :=
  (Template.build text options ⟨s.id, s.made⟩).map fun template =>
    (template, { s with made := s.made + 1 })

def keep (s : Store) (template : Template) : Store :=
  { s with
    entries := (.of template.text template.options, template) :: s.entries
    keyed := by simpa using s.keyed }

/-- Compiles a text: the kept template if there is one, else a new one, which is kept. Without
caching the template is new and not kept. -/
def compile (s : Store) (text : String) (options : Options) :
    Except CompileError Template × Store :=
  let kept? := if options.cache then s.get? (.of text options) else none
  match kept? with
  | some template => (.ok template, s)
  | none =>
    match s.make text options with
    | .error e => (.error e, s)
    | .ok (template, s) =>
      (.ok template, if options.cache then s.keep template else s)

end Store

/-- Compiles the sources that a rendering meets into a storage, or without one if it is gone. -/
def Loader.cached : Loader (Option Store) where
  load
    | some s, source =>
      let (compiled, s) := s.compile source .standard
      (compiled.map (·.program), some s)
    | none, source => (parse source .standard, none)

def Loader.direct : Loader Unit where
  load _ source := (parse source .standard, ())

end Mustache
