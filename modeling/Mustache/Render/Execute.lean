import Mustache.Render.Escape
import Mustache.Render.Rendering
import Mustache.Render.Scopes
import Mustache.Template.Partials
import Mustache.Value.Text

namespace Mustache

/-- How many section bodies may be in progress at once. -/
def sectionNestingLimit : Nat := 128

/-- What stays the same throughout a rendering. -/
structure Setting where
  partials : Partials
  lambdas : Lambdas
  /-- How many inclusions may be in progress at once. -/
  depthLimit : Nat

/-- Carries out operations in some scopes, with a number of section bodies in progress. -/
abbrev Runner := List Op → Scopes → Nat → Rendering Unit

/-- The rendering that a section lambda asks for along its reply. -/
def Reply.follow (helper : String → Rendering (Except Error String)) :
    Reply → Rendering (Except Error String)
  | .done result => .done result
  | .render template next => (helper template).bind fun result => (next result).follow helper

namespace Setting

variable (setting : Setting)

/-- Writes the value of a name, if there is one, as `text` puts it. -/
def emitValue (text : Value → String) (name : String) (scopes : Scopes) : Rendering Unit :=
  match scopes.resolve setting.lambdas name with
  | none => .done ()
  | some value => .emit (text value)

/-- Enters a section body, with `body` told how many are in progress then. -/
def enterSection (name : String) (nesting : Nat) (body : Nat → Rendering Unit) : Rendering Unit :=
  if sectionNestingLimit ≤ nesting then
    let error := .nestingLimit name sectionNestingLimit
    .refuse error fun _ => .failed error
  else body (nesting + 1)

/-- What a section lambda gets for a template it wants rendered in the innermost scope. -/
def helper (inner? : Option Runner) (name : String) (top : Value) (nesting : Nat)
    (template : String) : Rendering (Except Error String) :=
  match inner? with
  | none =>
    let error := .depthLimit name setting.depthLimit
    .refuse error fun _ => .done (.error (.render error))
  | some inner => .load template fun
    | .error e => .done (.error (.compile e))
    | .ok program =>
      ((inner program.ops (.ofView top) nesting).collect "").bind fun result =>
        .done (result.mapError .render)

def runLambda (inner? : Option Runner) (name : String) (id : LambdaId) (raw : String)
    (top : Value) (nesting : Nat) : Rendering Unit :=
  let reply := setting.lambdas.onSection id ⟨top, raw⟩
  (reply.follow (setting.helper inner? name top nesting)).bind fun
    | .ok text => .emit text
    | .error e => .failed (.lambda name e)

/-- A partial sees the innermost scope only. A name that is not in the table writes nothing. -/
def runPartial (inner? : Option Runner) (name : String) (top : Value) (nesting : Nat) :
    Rendering Unit :=
  match setting.partials.get? name with
  | none => .done ()
  | some entry =>
    match inner? with
    | none =>
      let error := .depthLimit name setting.depthLimit
      .refuse error fun _ => .failed error
    | some inner =>
      match entry with
      | .compiled template => inner template.program.ops (.ofView top) nesting
      | .source text => .load text fun
        | .error e => .failed (.brokenPartial name e)
        | .ok program => inner program.ops (.ofView top) nesting

/-- A section, whose body is carried out by `body`. -/
def runSection (inner? : Option Runner) (body : Scopes → Nat → Rendering Unit) (name : String)
    (inverted : Bool) (raw : String) (scopes : Scopes) (nesting : Nat) : Rendering Unit :=
  match SectionPlan.of inverted (scopes.resolve setting.lambdas name) with
  | .skip => .done ()
  | .once => enterSection name nesting (body scopes)
  | .inner value => enterSection name nesting (body (scopes.push value))
  | .each items => enterSection name nesting fun nesting =>
    .forEach (fun item => body (scopes.push item) nesting) items
  | .lambda id => setting.runLambda inner? name id raw scopes.top nesting

end Setting

/-- The body at the start of some operations, if they are that many. -/
def Op.body? (bodyLength : Nat) (ops : List Op) : Option (List Op) :=
  if bodyLength ≤ ops.length then some (ops.take bodyLength) else none

/-- The body at the start of some operations, or nothing if they are too few. -/
def Op.body (bodyLength : Nat) (ops : List Op) : List Op :=
  (body? bodyLength ops).getD []

theorem Op.length_body_le (bodyLength : Nat) (ops : List Op) :
    (body bodyLength ops).length ≤ ops.length := by
  unfold body body?
  split
  · exact List.length_take_le' bodyLength ops
  · simp

namespace Setting

variable (setting : Setting)

/-- Carries out operations. Inclusions are left to `inner?`, which is missing if none may be
entered. -/
def execute (inner? : Option Runner) : Runner
  | [], _, _ => .done ()
  | op :: ops, scopes, nesting =>
    match op with
    | .literal text => (Rendering.emit text).bind fun _ => execute inner? ops scopes nesting
    | .escaped name =>
      (setting.emitValue (escapeHtml ·.text) name scopes).bind fun _ =>
        execute inner? ops scopes nesting
    | .unescaped name =>
      (setting.emitValue (·.text) name scopes).bind fun _ => execute inner? ops scopes nesting
    | .openSection name inverted bodyLength raw =>
      (setting.runSection inner? (execute inner? (Op.body bodyLength ops)) name inverted raw scopes
        nesting).bind fun _ => execute inner? (ops.drop bodyLength) scopes nesting
    | .closeSection _ => execute inner? ops scopes nesting
    | .inclusion name =>
      (setting.runPartial inner? name scopes.top nesting).bind fun _ =>
        execute inner? ops scopes nesting
termination_by ops => ops.length
decreasing_by
  all_goals simp only [List.length_cons, List.length_drop, Nat.lt_succ_iff, Op.length_body_le]
  all_goals omega

/-- Carries out operations when the given number of inclusions may still be entered. With none left,
partials and helper renderings fail; otherwise they are carried out with one less. -/
def runner : Nat → Runner
  | 0 => setting.execute none
  | depth + 1 => setting.execute (some (runner depth))

def rendering (program : Program) (view : Value) : Rendering Unit :=
  setting.runner setting.depthLimit program.ops (.ofView view) 0

end Setting
end Mustache
