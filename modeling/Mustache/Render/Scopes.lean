import Mustache.Render.Lambda

namespace Mustache

/-- The values that names are looked up in. There is always an innermost one. -/
structure Scopes where
  top : Value
  outer : List Value

namespace Scopes

def ofView (view : Value) : Scopes :=
  ⟨view, []⟩

def push (scopes : Scopes) (value : Value) : Scopes :=
  ⟨value, scopes.top :: scopes.outer⟩

def toList (scopes : Scopes) : List Value :=
  scopes.top :: scopes.outer

def depth (scopes : Scopes) : Nat :=
  scopes.toList.length

/-- The value of a name. The innermost map with the key decides, whatever its value is, and a
computed field is computed from the innermost scope. The name `.` is the innermost scope itself. -/
def resolve (lambdas : Lambdas) (scopes : Scopes) (name : String) : Option Value :=
  if name = "." then some scopes.top
  else match scopes.toList.findSome? (Value.get? name) with
    | some (.computed id) => some (lambdas.field id scopes.top)
    | found => found

end Scopes

/-- How often a section body is rendered, and in which scopes. -/
inductive SectionPlan where
  | skip
  | once
  /-- Once, with the value as the innermost scope. -/
  | inner (value : Value)
  /-- Once for each item, with the item as the innermost scope. -/
  | each (items : List Value)
  | lambda (id : LambdaId)

/-- Missing names, null, false and empty lists are what an inverted section is rendered for. -/
def SectionPlan.ofInverted : Option Value → SectionPlan
  | none | some .null | some (.bool false) | some (.list []) => once
  | some _ => skip

def SectionPlan.ofValue : Option Value → SectionPlan
  | none => skip
  | some (.list items) => each items
  | some (.map entries) => inner (.map entries)
  | some (.sectionLambda id) => lambda id
  | some value => if value.isTruthy then once else skip

def SectionPlan.of (inverted : Bool) (value : Option Value) : SectionPlan :=
  if inverted then ofInverted value else ofValue value

end Mustache
