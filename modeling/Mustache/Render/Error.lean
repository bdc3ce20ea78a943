import Mustache.Source.Fault

namespace Mustache

mutual

inductive RenderError where
  /-- A partial or a helper rendering beyond the limit on inclusions in progress. -/
  | depthLimit (name : String) (limit : Nat)
  /-- A section body beyond the limit on bodies in progress. -/
  | nestingLimit (name : String) (limit : Nat)
  | brokenPartial (name : String) (error : CompileError)
  | lambda (name : String) (error : Error)

/-- The errors of compiling and rendering together. -/
inductive Error where
  | compile (error : CompileError)
  | render (error : RenderError)

end

mutual

def RenderError.message : RenderError → String
  | .depthLimit name limit =>
    "partial \"" ++ name ++ "\" exceeded the inclusion depth limit of " ++ toString limit
  | .nestingLimit name limit =>
    "section \"" ++ name ++ "\" exceeded the nesting limit of " ++ toString limit
  | .brokenPartial name error =>
    "partial \"" ++ name ++ "\" failed to compile:\n" ++ error.message
  | .lambda name error =>
    "lambda for section \"" ++ name ++ "\" failed: " ++ error.message

def Error.message : Error → String
  | .compile error => error.message
  | .render error => error.message

end

end Mustache
