import Mustache.Render.Error
import Mustache.Value.Basic

namespace Mustache

/-- How a section lambda goes on: it is done, or it has a template rendered first. -/
inductive Reply where
  | done (result : Except Error String)
  | render (template : String) (next : Except Error String → Reply)

/-- What a section lambda is told: the innermost scope and the source of the section. -/
structure SectionCall where
  scope : Value
  text : String

structure Lambdas where
  /-- The value of a computed field in an innermost scope. -/
  field : LambdaId → Value → Value
  onSection : LambdaId → SectionCall → Reply

end Mustache
