import Mustache.Proofs.Transcript
import Mustache.Proofs.Tree
import Mustache.Render.Execute

namespace Mustache

/-- Renders nodes in some scopes, with a number of section bodies in progress. -/
abbrev Evaluator := List Node → Scopes → Nat → Transcript Unit

/-- The nodes of a partial, whose source has standard options if it is not compiled yet. -/
def Partial.nodes : Partial → Except CompileError (List Node)
  | source text => Node.parse text .standard
  | compiled template => Node.parse template.text template.options

/-- What a lambda answers in the end, given the texts of the templates it asks for. -/
def Reply.answer (helper : String → Except Error String) : Reply → Except Error String
  | done result => result
  | render template next => (next (helper template)).answer helper

namespace Setting

variable (setting : Setting)

def textOf (name : String) (escaped : Bool) (scopes : Scopes) : String :=
  match scopes.resolve setting.lambdas name with
  | none => ""
  | some value => if escaped then escapeHtml value.text else value.text

def withinSection (name : String) (nesting : Nat) (body : Nat → Transcript Unit) :
    Transcript Unit :=
  if nesting < sectionNestingLimit then body (nesting + 1)
  else .failed (.nestingLimit name sectionNestingLimit)

/-- The text of a template for a section lambda. It sees the innermost scope only. -/
def helperText (inner? : Option Evaluator) (name : String) (top : Value) (nesting : Nat)
    (template : String) : Except Error String :=
  match inner? with
  | none => .error (.render (.depthLimit name setting.depthLimit))
  | some inner =>
    match Node.parse template .standard with
    | .error e => .error (.compile e)
    | .ok nodes => ((inner nodes (.ofView top) nesting).text).mapError .render

def evaluateLambda (inner? : Option Evaluator) (name : String) (id : LambdaId) (raw : String)
    (top : Value) (nesting : Nat) : Transcript Unit :=
  match (setting.lambdas.onSection id ⟨top, raw⟩).answer
      (setting.helperText inner? name top nesting) with
  | .ok text => .write text
  | .error e => .failed (.lambda name e)

def evaluatePartial (inner? : Option Evaluator) (name : String) (top : Value) (nesting : Nat) :
    Transcript Unit :=
  match setting.partials.get? name, inner? with
  | none, _ => .done ()
  | some _, none => .failed (.depthLimit name setting.depthLimit)
  | some entry, some inner =>
    match entry.nodes with
    | .error e => .failed (.brokenPartial name e)
    | .ok nodes => inner nodes (.ofView top) nesting

/-- Renders the children of a section as often as the value of its name says. -/
def evaluateSection (inner? : Option Evaluator) (children : Scopes → Nat → Transcript Unit)
    (name : String) (inverted : Bool) (raw : String) (scopes : Scopes) (nesting : Nat) :
    Transcript Unit :=
  match inverted, scopes.resolve setting.lambdas name with
  | true, none | true, some .null | true, some (.bool false) | true, some (.list []) =>
    withinSection name nesting (children scopes)
  | true, some _ => .done ()
  | false, none => .done ()
  | false, some (.list items) => withinSection name nesting fun nesting =>
    .forEach (fun item => children (scopes.push item) nesting) items
  | false, some (.map entries) =>
    withinSection name nesting (children (scopes.push (.map entries)))
  | false, some (.sectionLambda id) => setting.evaluateLambda inner? name id raw scopes.top nesting
  | false, some value =>
    if value.isTruthy then withinSection name nesting (children scopes) else .done ()

mutual

/-- Renders a node. Inclusions are left to `inner?`, which is missing if none may be entered. -/
def evaluate (inner? : Option Evaluator) : Node → Scopes → Nat → Transcript Unit
  | .text text, _, _ => .write text
  | .variableTag name escaped, scopes, _ => .write (setting.textOf name escaped scopes)
  | .inclusion name, scopes, nesting => setting.evaluatePartial inner? name scopes.top nesting
  | .block name inverted raw children, scopes, nesting =>
    setting.evaluateSection inner? (evaluateAll inner? children) name inverted raw scopes nesting

def evaluateAll (inner? : Option Evaluator) : Evaluator
  | [], _, _ => .done ()
  | node :: nodes, scopes, nesting =>
    (evaluate inner? node scopes nesting).bind fun _ => evaluateAll inner? nodes scopes nesting

end

/-- Renders nodes when the given number of inclusions may still be entered. -/
def evaluator : Nat → Evaluator
  | 0 => setting.evaluateAll none
  | depth + 1 => setting.evaluateAll (some (evaluator depth))

def evaluation (nodes : List Node) (view : Value) : Transcript Unit :=
  setting.evaluator setting.depthLimit nodes (.ofView view) 0

end Setting
end Mustache
