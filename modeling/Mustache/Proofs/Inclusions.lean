import Mustache.Proofs.Evaluation

namespace Mustache

/-- What happens in a rendering, in order. -/
inductive Event where
  | write (chunk : String)
  | compile (source : String)
  | refuse (limit : RenderError)
  /-- There is a partial to enter, or a template that a section lambda wants rendered. -/
  | attempt (name : String)
  | enter (name : String)
  | leave (name : String)
  /-- The body of a section is rendered from here on, once or for several items. -/
  | openBody (name : String)
  | closeBody (name : String)

namespace Event

/-- How many inclusions are in progress after an event. -/
def count (depth : Nat) : Event → Nat
  | enter _ => depth + 1
  | leave _ => depth - 1
  | _ => depth

def inProgress (depth : Nat) (events : List Event) : Nat :=
  events.foldl count depth

/-- What an event and the ones after it may be with some inclusions in progress. -/
structure Allowed (limit depth : Nat) (event : Event) (after : List Event) : Prop where
  within : depth ≤ limit
  settled (name : String) (h : event = attempt name) :
    after.head? = some (if depth < limit then enter name else refuse (.depthLimit name limit))
  entered (name : String) (h : event = enter name) : depth < limit
  left (name : String) (h : event = leave name) : 0 < depth
  refused (name : String) (n : Nat) (h : event = refuse (.depthLimit name n)) :
    depth = limit ∧ n = limit

/-- No more inclusions than the limit are in progress at any time, and no attempt is refused that
the limit allows. -/
def Kept (limit depth : Nat) (events : List Event) : Prop :=
  ∀ before event after, events = before ++ event :: after →
    event.Allowed limit (inProgress depth before) after

def isWrite : Event → Bool
  | write _ => true
  | _ => false

/-- Inclusions and bodies come and go without a loader or a sink being asked. -/
def isSeen : Event → Bool
  | write _ | compile _ | refuse _ => true
  | _ => false

def chunk? : Event → Option String
  | write chunk => some chunk
  | _ => none

def writes (text : String) : List Event :=
  if text = "" then [] else [write text]

def chunks (events : List Event) : List String :=
  events.filterMap chunk?

/-- What is left of some events when a text takes the chunks. -/
def silent (events : List Event) : List Event :=
  events.filter (!isWrite ·)

variable {limit depth : Nat} {event : Event} {events later : List Event}

@[simp] theorem inProgress_append :
    inProgress depth (events ++ later) = inProgress (inProgress depth events) later :=
  List.foldl_append

theorem kept_nil : Kept limit depth [] := by
  intro before event after he
  simp at he

theorem kept_cons_iff :
    Kept limit depth (event :: events) ↔
      event.Allowed limit depth events ∧ Kept limit (event.count depth) events := by
  constructor
  · intro h
    refine ⟨h [] event events rfl, ?_⟩
    intro before next after he
    exact h (event :: before) next after (by rw [he]; rfl)
  · rintro ⟨first, rest⟩ before next after he
    cases before with
    | nil =>
      cases he
      exact first
    | cons e before =>
      cases he
      exact rest before next after rfl

/-- An attempt is settled by the event after it, whatever comes later. -/
theorem Allowed.append (h : event.Allowed limit depth events) :
    event.Allowed limit depth (events ++ later) := by
  refine { h with settled := ?_ }
  intro name he
  rw [List.head?_append, h.settled name he]
  rfl

theorem Kept.append (h : Kept limit depth events)
    (hl : Kept limit (inProgress depth events) later) : Kept limit depth (events ++ later) := by
  induction events generalizing depth with
  | nil => exact hl
  | cons event events ih =>
    obtain ⟨first, rest⟩ := kept_cons_iff.mp h
    exact kept_cons_iff.mpr ⟨first.append, ih rest hl⟩

@[simp] theorem inProgress_silent : inProgress depth (silent events) = inProgress depth events := by
  induction events generalizing depth with
  | nil => rfl
  | cons event events ih =>
    cases event with
    | write chunk => exact ih
    | _ => exact ih

/-- The event that settles an attempt is no chunk. -/
theorem Allowed.silent (h : event.Allowed limit depth events) :
    event.Allowed limit depth (silent events) := by
  refine { h with settled := ?_ }
  intro name he
  have hhead := h.settled name he
  cases events with
  | nil => cases hhead
  | cons next events =>
    cases Option.some.inj hhead
    by_cases hd : depth < limit
    · rw [if_pos hd]
      rfl
    · rw [if_neg hd]
      rfl

theorem Kept.silent (h : Kept limit depth events) : Kept limit depth (silent events) := by
  induction events generalizing depth with
  | nil => exact h
  | cons event events ih =>
    obtain ⟨first, rest⟩ := kept_cons_iff.mp h
    cases event with
    | write chunk => exact ih rest
    | _ => exact kept_cons_iff.mpr ⟨first.silent, ih rest⟩

theorem kept_writes {text : String} (hd : depth ≤ limit) : Kept limit depth (writes text) := by
  unfold writes
  split
  · exact kept_nil
  · exact kept_cons_iff.mpr ⟨⟨hd, nofun, nofun, nofun, nofun⟩, kept_nil⟩

theorem kept_enter {name : String} (hd : depth < limit) (h : Kept limit (depth + 1) events) :
    Kept limit depth (attempt name :: enter name :: events) := by
  have hle : depth ≤ limit := Nat.le_of_lt hd
  refine kept_cons_iff.mpr ⟨⟨hle, ?_, nofun, nofun, nofun⟩, ?_⟩
  · rintro _ ⟨⟩
    rw [if_pos hd]
    rfl
  · exact kept_cons_iff.mpr ⟨⟨hle, nofun, fun _ _ => hd, nofun, nofun⟩, h⟩

theorem kept_compile {source : String} (hd : depth ≤ limit) (h : Kept limit depth events) :
    Kept limit depth (compile source :: events) :=
  kept_cons_iff.mpr ⟨⟨hd, nofun, nofun, nofun, nofun⟩, h⟩

theorem kept_body {name : String} (hd : depth ≤ limit) (h : Kept limit depth events)
    (hp : inProgress depth events = depth) :
    Kept limit depth (openBody name :: (events ++ [closeBody name])) := by
  have hclose : Kept limit (inProgress depth events) [closeBody name] := by
    rw [hp]
    exact kept_cons_iff.mpr ⟨⟨hd, nofun, nofun, nofun, nofun⟩, kept_nil⟩
  exact kept_cons_iff.mpr ⟨⟨hd, nofun, nofun, nofun, nofun⟩, h.append hclose⟩

theorem kept_leave {name : String} (hd : depth < limit) (h : Kept limit depth events) :
    Kept limit (depth + 1) (leave name :: events) :=
  kept_cons_iff.mpr ⟨⟨hd, nofun, nofun, fun _ _ => Nat.succ_pos depth, nofun⟩, h⟩

@[simp] theorem inProgress_writes {text : String} : inProgress depth (writes text) = depth := by
  unfold writes
  split <;> rfl

end Event

/-- What a rendering has to do. -/
inductive Task where
  | write (text : String)
  | ops (ops : List Op) (scopes : Scopes) (nesting : Nat)
  /-- The body of a section, in each of some scopes. -/
  | block (name : String) (body : List Op) (inner : List Scopes) (nesting : Nat)
  | bodies (body : List Op) (inner : List Scopes) (nesting : Nat)
  | inclusion (name : String) (top : Value) (nesting : Nat)
  /-- What a section lambda still replies. -/
  | lambda (name : String) (top : Value) (nesting : Nat) (reply : Reply)

/-- The operations after an operation and its body. -/
def Op.rest (op : Op) (ops : List Op) : List Op :=
  match op with
  | .openSection _ _ bodyLength _ => ops.drop bodyLength
  | _ => ops

theorem Op.length_rest_le (op : Op) (ops : List Op) : (op.rest ops).length ≤ ops.length := by
  cases op with
  | openSection name inverted bodyLength raw =>
    have := List.length_drop (l := ops) (i := bodyLength)
    rw [rest]
    omega
  | _ => exact Nat.le_refl _

/-- The error of a partial that failed before any of it was rendered. -/
def Error.ofPartial (name : String) : Error → RenderError
  | compile e => .brokenPartial name e
  | render e => e

namespace Setting

/-- The task of a section with a body. -/
def sectionTask (setting : Setting) (name : String) (inverted : Bool) (raw : String)
    (body : List Op) (scopes : Scopes) (nesting : Nat) : Task :=
  match SectionPlan.of inverted (scopes.resolve setting.lambdas name) with
  | .skip => .write ""
  | .once => .block name body [scopes] nesting
  | .inner value => .block name body [scopes.push value] nesting
  | .each items => .block name body (items.map scopes.push) nesting
  | .lambda id => .lambda name scopes.top nesting (setting.lambdas.onSection id ⟨scopes.top, raw⟩)

/-- The task of an operation with some others after it. -/
def task (setting : Setting) (op : Op) (ops : List Op) (scopes : Scopes) (nesting : Nat) : Task :=
  match op with
  | .literal text => .write text
  | .escaped name => .write (setting.textOf name true scopes)
  | .unescaped name => .write (setting.textOf name false scopes)
  | .closeSection _ => .write ""
  | .inclusion name => .inclusion name scopes.top nesting
  | .openSection name inverted bodyLength raw =>
    setting.sectionTask name inverted raw (Op.body bodyLength ops) scopes nesting

/-- The attempt to include a template with some inclusions in progress. It gives the program to
carry out, with one more in progress, or else is over. -/
inductive Admits (setting : Setting) (depth : Nat) (name : String) :
    Partial → List Event → Except Error Program → Prop where
  | refused {origin : Partial} (full : setting.depthLimit ≤ depth) :
    Admits setting depth name origin
      [.attempt name, .refuse (.depthLimit name setting.depthLimit)]
      (.error (.render (.depthLimit name setting.depthLimit)))
  | compiled {template : Template} (free : depth < setting.depthLimit) :
    Admits setting depth name (.compiled template) [.attempt name, .enter name]
      (.ok template.program)
  | source {text : String} {program : Program} (free : depth < setting.depthLimit)
      (parsed : parse text .standard = .ok program) :
    Admits setting depth name (.source text) [.attempt name, .enter name, .compile text]
      (.ok program)
  | broken {text : String} {e : CompileError} (free : depth < setting.depthLimit)
      (parsed : parse text .standard = .error e) :
    Admits setting depth name (.source text)
      [.attempt name, .enter name, .compile text, .leave name] (.error (.compile e))

/-- The whole course of a task, with the inclusions in progress counted from outside to inside. -/
inductive Runs (setting : Setting) : Nat → Task → List Event → Except RenderError Unit → Prop where
  | write {depth : Nat} (text : String) :
    Runs setting depth (.write text) (Event.writes text) (.ok ())
  | finished {depth nesting : Nat} (scopes : Scopes) :
    Runs setting depth (.ops [] scopes nesting) [] (.ok ())
  | broke {depth nesting : Nat} {op : Op} {ops : List Op} {scopes : Scopes} {first : List Event}
      {e : RenderError}
      (head : Runs setting depth (setting.task op ops scopes nesting) first (.error e)) :
    Runs setting depth (.ops (op :: ops) scopes nesting) first (.error e)
  | wentOn {depth nesting : Nat} {op : Op} {ops : List Op} {scopes : Scopes}
      {first later : List Event} {ending : Except RenderError Unit}
      (head : Runs setting depth (setting.task op ops scopes nesting) first (.ok ()))
      (tail : Runs setting depth (.ops (op.rest ops) scopes nesting) later ending) :
    Runs setting depth (.ops (op :: ops) scopes nesting) (first ++ later) ending
  | tooNested {depth nesting : Nat} {name : String} {body : List Op} {inner : List Scopes}
      (full : sectionNestingLimit ≤ nesting) :
    Runs setting depth (.block name body inner nesting)
      [.refuse (.nestingLimit name sectionNestingLimit)]
      (.error (.nestingLimit name sectionNestingLimit))
  | nested {depth nesting : Nat} {name : String} {body : List Op} {inner : List Scopes}
      {trace : List Event} {ending : Except RenderError Unit} (free : nesting < sectionNestingLimit)
      (inside : Runs setting depth (.bodies body inner (nesting + 1)) trace ending) :
    Runs setting depth (.block name body inner nesting)
      (.openBody name :: (trace ++ [.closeBody name])) ending
  | noBody {depth nesting : Nat} (body : List Op) :
    Runs setting depth (.bodies body [] nesting) [] (.ok ())
  | bodyBroke {depth nesting : Nat} {body : List Op} {scopes : Scopes} {inner : List Scopes}
      {first : List Event} {e : RenderError}
      (head : Runs setting depth (.ops body scopes nesting) first (.error e)) :
    Runs setting depth (.bodies body (scopes :: inner) nesting) first (.error e)
  | bodyEnded {depth nesting : Nat} {body : List Op} {scopes : Scopes} {inner : List Scopes}
      {first later : List Event} {ending : Except RenderError Unit}
      (head : Runs setting depth (.ops body scopes nesting) first (.ok ()))
      (tail : Runs setting depth (.bodies body inner nesting) later ending) :
    Runs setting depth (.bodies body (scopes :: inner) nesting) (first ++ later) ending
  | missing {depth nesting : Nat} {name : String} {top : Value}
      (absent : setting.partials.get? name = none) :
    Runs setting depth (.inclusion name top nesting) [] (.ok ())
  | barred {depth nesting : Nat} {name : String} {top : Value} {origin : Partial}
      {first : List Event} {e : Error} (present : setting.partials.get? name = some origin)
      (admits : setting.Admits depth name origin first (.error e)) :
    Runs setting depth (.inclusion name top nesting) first (.error (e.ofPartial name))
  | included {depth nesting : Nat} {name : String} {top : Value} {origin : Partial}
      {first trace : List Event} {program : Program} {ending : Except RenderError Unit}
      (present : setting.partials.get? name = some origin)
      (admits : setting.Admits depth name origin first (.ok program))
      (inside : Runs setting (depth + 1) (.ops program.ops (.ofView top) nesting) trace ending) :
    Runs setting depth (.inclusion name top nesting) (first ++ trace ++ [.leave name]) ending
  | answered {depth nesting : Nat} {name : String} {top : Value} (text : String) :
    Runs setting depth (.lambda name top nesting (.done (.ok text))) (Event.writes text) (.ok ())
  | lambdaFailed {depth nesting : Nat} {name : String} {top : Value} (e : Error) :
    Runs setting depth (.lambda name top nesting (.done (.error e))) [] (.error (.lambda name e))
  | denied {depth nesting : Nat} {name template : String} {top : Value}
      {next : Except Error String → Reply} {first later : List Event} {e : Error}
      {ending : Except RenderError Unit}
      (admits : setting.Admits depth name (.source template) first (.error e))
      (tail : Runs setting depth (.lambda name top nesting (next (.error e))) later ending) :
    Runs setting depth (.lambda name top nesting (.render template next)) (first ++ later) ending
  | helped {depth nesting : Nat} {name template : String} {top : Value}
      {next : Except Error String → Reply} {first trace later : List Event} {program : Program}
      {result ending : Except RenderError Unit}
      (admits : setting.Admits depth name (.source template) first (.ok program))
      (inside : Runs setting (depth + 1) (.ops program.ops (.ofView top) nesting) trace result)
      (tail : Runs setting depth (.lambda name top nesting
        (next ((result.map fun _ => String.join (Event.chunks trace)).mapError .render)))
        later ending) :
    Runs setting depth (.lambda name top nesting (.render template next))
      (first ++ Event.silent trace ++ .leave name :: later) ending

variable {setting : Setting} {depth nesting : Nat} {name : String} {origin : Partial} {task : Task}
  {trace trace' : List Event} {ending ending' : Except RenderError Unit}
  {admitted admitted' : Except Error Program}

theorem exists_admits (setting : Setting) (depth : Nat) (name : String) (origin : Partial) :
    ∃ trace admitted, setting.Admits depth name origin trace admitted := by
  by_cases free : depth < setting.depthLimit
  · cases origin with
    | compiled template => exact ⟨_, _, .compiled free⟩
    | source text =>
      cases parsed : parse text .standard with
      | error e => exact ⟨_, _, .broken free parsed⟩
      | ok program => exact ⟨_, _, .source free parsed⟩
  · exact ⟨_, _, .refused (Nat.not_lt.mp free)⟩

theorem Admits.free {program : Program} (h : setting.Admits depth name origin trace (.ok program)) :
    depth < setting.depthLimit := by
  cases h with
  | compiled free => exact free
  | source free _ => exact free

theorem Admits.unique (h : setting.Admits depth name origin trace admitted)
    (h' : setting.Admits depth name origin trace' admitted') :
    trace' = trace ∧ admitted' = admitted := by
  cases h with
  | refused full =>
    cases h' with
    | refused _ => exact ⟨rfl, rfl⟩
    | compiled free | source free _ | broken free _ => omega
  | compiled free =>
    cases h' with
    | refused full => omega
    | compiled _ => exact ⟨rfl, rfl⟩
  | source free parsed =>
    cases h' with
    | refused full => omega
    | source _ parsed' =>
      cases parsed.symm.trans parsed'
      exact ⟨rfl, rfl⟩
    | broken _ parsed' =>
      cases parsed.symm.trans parsed'
  | broken free parsed =>
    cases h' with
    | refused full => omega
    | source _ parsed' =>
      cases parsed.symm.trans parsed'
    | broken _ parsed' =>
      cases parsed.symm.trans parsed'
      exact ⟨rfl, rfl⟩

/-- There is one course at most. -/
theorem Runs.unique (h : setting.Runs depth task trace ending)
    (h' : setting.Runs depth task trace' ending') : trace' = trace ∧ ending' = ending := by
  induction h generalizing trace' ending' with
  | write text =>
    cases h'
    exact ⟨rfl, rfl⟩
  | finished scopes =>
    cases h'
    exact ⟨rfl, rfl⟩
  | broke head ih =>
    cases h' with
    | broke head' =>
      obtain ⟨rfl, he⟩ := ih head'
      exact ⟨rfl, he⟩
    | wentOn head' tail' => cases (ih head').2
  | wentOn head tail ihhead ihtail =>
    cases h' with
    | broke head' => cases (ihhead head').2
    | wentOn head' tail' =>
      obtain ⟨rfl, -⟩ := ihhead head'
      obtain ⟨rfl, rfl⟩ := ihtail tail'
      exact ⟨rfl, rfl⟩
  | tooNested full =>
    cases h' with
    | tooNested _ => exact ⟨rfl, rfl⟩
    | nested free _ => omega
  | nested free inside ih =>
    cases h' with
    | tooNested full => omega
    | nested _ inside' =>
      obtain ⟨rfl, rfl⟩ := ih inside'
      exact ⟨rfl, rfl⟩
  | noBody body =>
    cases h'
    exact ⟨rfl, rfl⟩
  | bodyBroke head ih =>
    cases h' with
    | bodyBroke head' =>
      obtain ⟨rfl, he⟩ := ih head'
      exact ⟨rfl, he⟩
    | bodyEnded head' tail' => cases (ih head').2
  | bodyEnded head tail ihhead ihtail =>
    cases h' with
    | bodyBroke head' => cases (ihhead head').2
    | bodyEnded head' tail' =>
      obtain ⟨rfl, -⟩ := ihhead head'
      obtain ⟨rfl, rfl⟩ := ihtail tail'
      exact ⟨rfl, rfl⟩
  | missing absent =>
    cases h' with
    | missing _ => exact ⟨rfl, rfl⟩
    | barred present _ | included present _ _ =>
      cases absent.symm.trans present
  | barred present admits =>
    cases h' with
    | missing absent =>
      cases absent.symm.trans present
    | barred present' admits' =>
      cases present.symm.trans present'
      obtain ⟨rfl, he⟩ := admits.unique admits'
      cases he
      exact ⟨rfl, rfl⟩
    | included present' admits' _ =>
      cases present.symm.trans present'
      cases (admits.unique admits').2
  | included present admits inside ih =>
    cases h' with
    | missing absent =>
      cases absent.symm.trans present
    | barred present' admits' =>
      cases present.symm.trans present'
      cases (admits.unique admits').2
    | included present' admits' inside' =>
      cases present.symm.trans present'
      obtain ⟨rfl, he⟩ := admits.unique admits'
      cases he
      obtain ⟨rfl, rfl⟩ := ih inside'
      exact ⟨rfl, rfl⟩
  | answered text =>
    cases h'
    exact ⟨rfl, rfl⟩
  | lambdaFailed e =>
    cases h'
    exact ⟨rfl, rfl⟩
  | denied admits tail ih =>
    cases h' with
    | denied admits' tail' =>
      obtain ⟨rfl, he⟩ := admits.unique admits'
      cases he
      obtain ⟨rfl, rfl⟩ := ih tail'
      exact ⟨rfl, rfl⟩
    | helped admits' _ _ => cases (admits.unique admits').2
  | helped admits inside tail ihinside ihtail =>
    -- What is replied next depends on the inner run, so that one is compared first.
    cases h' with
    | denied admits' _ => cases (admits.unique admits').2
    | helped admits' inside' tail' =>
      obtain ⟨rfl, he⟩ := admits.unique admits'
      cases he
      obtain ⟨rfl, rfl⟩ := ihinside inside'
      obtain ⟨rfl, rfl⟩ := ihtail tail'
      exact ⟨rfl, rfl⟩

def Ends (setting : Setting) (depth : Nat) (task : Task) : Prop :=
  ∃ trace ending, setting.Runs depth task trace ending

/-- What is included ends with one more in progress, if one more may be. -/
def EndsInside (setting : Setting) (depth : Nat) : Prop :=
  depth < setting.depthLimit →
    ∀ (program : Program) scopes nesting, setting.Ends (depth + 1) (.ops program.ops scopes nesting)

theorem ends_bodies {body : List Op}
    (h : ∀ scopes, setting.Ends depth (.ops body scopes nesting)) (inner : List Scopes) :
    setting.Ends depth (.bodies body inner nesting) := by
  induction inner with
  | nil => exact ⟨_, _, .noBody body⟩
  | cons scopes inner ih =>
    obtain ⟨first, result, head⟩ := h scopes
    cases result with
    | error e => exact ⟨_, _, .bodyBroke head⟩
    | ok _ =>
      obtain ⟨later, ending, tail⟩ := ih
      exact ⟨_, _, .bodyEnded head tail⟩

theorem ends_block {body : List Op}
    (h : ∀ scopes nesting, setting.Ends depth (.ops body scopes nesting)) (name : String)
    (inner : List Scopes) (nesting : Nat) :
    setting.Ends depth (.block name body inner nesting) := by
  by_cases free : nesting < sectionNestingLimit
  · obtain ⟨trace, ending, inside⟩ := ends_bodies (fun scopes => h scopes (nesting + 1)) inner
    exact ⟨_, _, .nested free inside⟩
  · exact ⟨_, _, .tooNested (Nat.not_lt.mp free)⟩

theorem ends_inclusion (h : setting.EndsInside depth) (name : String) (top : Value)
    (nesting : Nat) : setting.Ends depth (.inclusion name top nesting) := by
  cases present : setting.partials.get? name with
  | none => exact ⟨_, _, .missing present⟩
  | some origin =>
    obtain ⟨first, admitted, admits⟩ := setting.exists_admits depth name origin
    cases admitted with
    | error e => exact ⟨_, _, .barred present admits⟩
    | ok program =>
      obtain ⟨trace, ending, inside⟩ := h admits.free program (.ofView top) nesting
      exact ⟨_, _, .included present admits inside⟩

/-- A lambda that asks for finitely many renderings, each of which ends, comes to an answer. -/
theorem ends_lambda (h : setting.EndsInside depth) (name : String) (top : Value) (nesting : Nat)
    (reply : Reply) : setting.Ends depth (.lambda name top nesting reply) := by
  induction reply with
  | done result =>
    cases result with
    | error e => exact ⟨_, _, .lambdaFailed e⟩
    | ok text => exact ⟨_, _, .answered text⟩
  | render template next ih =>
    obtain ⟨first, admitted, admits⟩ := setting.exists_admits depth name (.source template)
    cases admitted with
    | error e =>
      obtain ⟨later, ending, tail⟩ := ih (.error e)
      exact ⟨_, _, .denied admits tail⟩
    | ok program =>
      obtain ⟨trace, result, inside⟩ := h admits.free program (.ofView top) nesting
      obtain ⟨later, ending, tail⟩ := ih _
      exact ⟨_, _, .helped admits inside tail⟩

theorem ends_sectionTask (h : setting.EndsInside depth) {body : List Op}
    (hbody : ∀ scopes nesting, setting.Ends depth (.ops body scopes nesting)) (name : String)
    (inverted : Bool) (raw : String) (scopes : Scopes) (nesting : Nat) :
    setting.Ends depth (setting.sectionTask name inverted raw body scopes nesting) := by
  unfold sectionTask
  cases SectionPlan.of inverted (scopes.resolve setting.lambdas name) with
  | skip => exact ⟨_, _, .write ""⟩
  | once | inner _ | each _ => exact ends_block hbody name _ nesting
  | lambda id => exact ends_lambda h name scopes.top nesting _

theorem ends_task (h : setting.EndsInside depth) (op : Op) (ops : List Op)
    (hbody : ∀ n scopes nesting, setting.Ends depth (.ops (Op.body n ops) scopes nesting))
    (scopes : Scopes) (nesting : Nat) :
    setting.Ends depth (setting.task op ops scopes nesting) := by
  cases op with
  | inclusion name => exact ends_inclusion h name scopes.top nesting
  | openSection name inverted n raw =>
    exact ends_sectionTask h (hbody n) name inverted raw scopes nesting
  | _ => exact ⟨_, _, .write _⟩

theorem ends_ops (h : setting.EndsInside depth) (ops : List Op) (scopes : Scopes)
    (nesting : Nat) : setting.Ends depth (.ops ops scopes nesting) := by
  cases ops with
  | nil => exact ⟨_, _, .finished scopes⟩
  | cons op ops =>
    -- A body, and what comes after it, are shorter than the operations they are part of.
    have hbody (n : Nat) := Op.length_body_le n ops
    have hrest := op.length_rest_le ops
    obtain ⟨first, result, head⟩ :=
      ends_task h op ops (fun n => ends_ops h (Op.body n ops)) scopes nesting
    cases result with
    | error e => exact ⟨_, _, .broke head⟩
    | ok _ =>
      obtain ⟨later, ending, tail⟩ := ends_ops h (op.rest ops) scopes nesting
      exact ⟨_, _, .wentOn head tail⟩
termination_by ops.length
decreasing_by
  · have := hbody n
    simp only [List.length_cons]
    omega
  · simp only [List.length_cons]
    omega

theorem endsInside (setting : Setting) (depth : Nat) : setting.EndsInside depth := by
  intro free program scopes nesting
  -- A program may be longer than the one that includes it, but it has room for one inclusion less.
  have h : setting.EndsInside (depth + 1) := endsInside setting (depth + 1)
  exact ends_ops h program.ops scopes nesting
termination_by setting.depthLimit - depth

/-- Every task ends, whatever it includes. -/
theorem ends (setting : Setting) (depth : Nat) (task : Task) : setting.Ends depth task := by
  have h := setting.endsInside depth
  cases task with
  | write text => exact ⟨_, _, .write text⟩
  | ops ops scopes nesting => exact ends_ops h ops scopes nesting
  | block name body inner nesting => exact ends_block (ends_ops h body) name inner nesting
  | bodies body inner nesting =>
    exact ends_bodies (fun scopes => ends_ops h body scopes nesting) inner
  | inclusion name top nesting => exact ends_inclusion h name top nesting
  | lambda name top nesting reply => exact ends_lambda h name top nesting reply

theorem Admits.inProgress_of_error {e : Error}
    (h : setting.Admits depth name origin trace (.error e)) :
    Event.inProgress depth trace = depth := by
  cases h with
  | refused _ => rfl
  | broken _ _ => rfl

theorem Admits.inProgress_of_ok {program : Program}
    (h : setting.Admits depth name origin trace (.ok program)) :
    Event.inProgress depth trace = depth + 1 := by
  cases h with
  | compiled _ => rfl
  | source _ _ => rfl

open Event

theorem Admits.kept (h : setting.Admits depth name origin trace admitted)
    (hd : depth ≤ setting.depthLimit) : Kept setting.depthLimit depth trace := by
  cases h with
  | refused full =>
    have heq : depth = setting.depthLimit := by omega
    refine kept_cons_iff.mpr ⟨⟨hd, ?_, nofun, nofun, nofun⟩, ?_⟩
    · rintro _ ⟨⟩
      rw [if_neg (Nat.not_lt.mpr full)]
      rfl
    · refine kept_cons_iff.mpr ⟨⟨hd, nofun, nofun, nofun, ?_⟩, kept_nil⟩
      rintro _ _ ⟨⟩
      exact ⟨heq, rfl⟩
  | compiled free => exact kept_enter free kept_nil
  | source free _ => exact kept_enter free (kept_compile free kept_nil)
  | broken free _ => exact kept_enter free (kept_compile free (kept_leave free kept_nil))

/-- An inclusion that is entered is left again. -/
theorem Admits.kept_around {program : Program} {inner later : List Event}
    (h : setting.Admits depth name origin trace (.ok program))
    (hinner : Kept setting.depthLimit (depth + 1) inner ∧ inProgress (depth + 1) inner = depth + 1)
    (hlater : Kept setting.depthLimit depth later ∧ inProgress depth later = depth) :
    Kept setting.depthLimit depth (trace ++ inner ++ .leave name :: later) ∧
      inProgress depth (trace ++ inner ++ .leave name :: later) = depth := by
  have hd : depth ≤ setting.depthLimit := Nat.le_of_lt h.free
  have hfirst := h.inProgress_of_ok
  have hboth : inProgress depth (trace ++ inner) = depth + 1 := by
    rw [inProgress_append, hfirst, hinner.2]
  constructor
  · have opened := (h.kept hd).append (by rw [hfirst]; exact hinner.1)
    exact opened.append (by rw [hboth]; exact kept_leave h.free hlater.1)
  · rw [inProgress_append, hboth]
    exact hlater.2

/-- A task leaves as many inclusions in progress as it met, and never are there too many. -/
theorem Runs.kept (h : setting.Runs depth task trace ending) (hd : depth ≤ setting.depthLimit) :
    Kept setting.depthLimit depth trace ∧ inProgress depth trace = depth := by
  induction h with
  | write text => exact ⟨kept_writes hd, inProgress_writes⟩
  | finished scopes => exact ⟨kept_nil, rfl⟩
  | broke head ih => exact ih hd
  | wentOn head tail ihhead ihtail =>
    obtain ⟨hk, hp⟩ := ihhead hd
    obtain ⟨hk', hp'⟩ := ihtail hd
    refine ⟨hk.append (by rwa [hp]), ?_⟩
    rw [inProgress_append, hp, hp']
  | tooNested full =>
    exact ⟨kept_cons_iff.mpr ⟨⟨hd, nofun, nofun, nofun, nofun⟩, kept_nil⟩, rfl⟩
  | nested free inside ih =>
    obtain ⟨hk, hp⟩ := ih hd
    refine ⟨kept_body hd hk hp, ?_⟩
    exact inProgress_append.trans hp
  | noBody body => exact ⟨kept_nil, rfl⟩
  | bodyBroke head ih => exact ih hd
  | bodyEnded head tail ihhead ihtail =>
    obtain ⟨hk, hp⟩ := ihhead hd
    obtain ⟨hk', hp'⟩ := ihtail hd
    refine ⟨hk.append (by rwa [hp]), ?_⟩
    rw [inProgress_append, hp, hp']
  | missing absent => exact ⟨kept_nil, rfl⟩
  | barred present admits => exact ⟨admits.kept hd, admits.inProgress_of_error⟩
  | included present admits inside ih =>
    exact admits.kept_around (ih admits.free) ⟨kept_nil, rfl⟩
  | answered text => exact ⟨kept_writes hd, inProgress_writes⟩
  | lambdaFailed e => exact ⟨kept_nil, rfl⟩
  | denied admits tail ih =>
    obtain ⟨hk, hp⟩ := ih hd
    have hfirst := admits.inProgress_of_error
    refine ⟨(admits.kept hd).append (by rwa [hfirst]), ?_⟩
    rw [inProgress_append, hfirst, hp]
  | helped admits inside tail ihinside ihtail =>
    obtain ⟨hk, hp⟩ := ihinside admits.free
    exact admits.kept_around ⟨hk.silent, inProgress_silent.trans hp⟩ (ihtail hd)

end Setting
end Mustache
