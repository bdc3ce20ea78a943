import Mustache.Proofs.Delivery
import Mustache.Proofs.Inclusions

namespace Mustache
namespace Event

/-- The events that a loader or a sink is asked for, and the limits that are met. -/
def seen (events : List Event) : List Event :=
  events.filter isSeen

variable {events later : List Event}

@[simp] theorem seen_append : seen (events ++ later) = seen events ++ seen later :=
  List.filter_append events later

@[simp] theorem seen_writes (text : String) : seen (writes text) = writes text := by
  unfold writes
  split <;> rfl

theorem silent_seen : silent (seen events) = seen (silent events) := by
  unfold silent seen
  rw [List.filter_filter, List.filter_filter]
  simp only [Bool.and_comm]

@[simp] theorem chunks_seen : chunks (seen events) = chunks events := by
  induction events with
  | nil => rfl
  | cons event events ih =>
    cases event with
    | write chunk => exact congrArg (chunk :: ·) ih
    | _ => exact ih

end Event

/-- All that a rendering does for others to see, and what it ends in. -/
structure Course (α : Type) where
  events : List Event
  ending : Except RenderError α

namespace Course

variable {α β : Type}

def bind (c : Course α) (f : α → Course β) : Course β :=
  match c.ending with
  | .error e => ⟨c.events, .error e⟩
  | .ok a => ⟨c.events ++ (f a).events, (f a).ending⟩

def cons (event : Event) (c : Course α) : Course α :=
  ⟨event :: c.events, c.ending⟩

theorem bind_cons (event : Event) (c : Course α) (f : α → Course β) :
    (c.cons event).bind f = (c.bind f).cons event := by
  obtain ⟨events, ending⟩ := c
  cases ending <;> rfl

end Course

namespace Rendering

variable {α β γ : Type}

/-- The course of a rendering for which every source is compiled anew. -/
def course : Rendering α → Course α
  | done a => ⟨[], .ok a⟩
  | failed e => ⟨[], .error e⟩
  | write chunk rest => (rest ()).course.cons (.write chunk)
  | refuse e rest => (rest ()).course.cons (.refuse e)
  | load source next => (next (parse source .standard)).course.cons (.compile source)

theorem transcript_eq_course (x : Rendering α) :
    x.transcript = ⟨Event.chunks x.course.events, x.course.ending⟩ := by
  induction x with
  | done a => rfl
  | failed e => rfl
  | write chunk rest ih =>
    rw [transcript, ih]
    rfl
  | refuse e rest ih => exact ih ()
  | load source next ih => exact ih _

theorem course_bind (x : Rendering α) (f : α → Rendering β) :
    (x.bind f).course = x.course.bind fun a => (f a).course := by
  induction x with
  | done a => rfl
  | failed e => rfl
  | write chunk rest ih => rw [bind, course, ih, ← Course.bind_cons, course]
  | refuse e rest ih => rw [bind, course, ih, ← Course.bind_cons, course]
  | load source next ih => rw [bind, course, ih, ← Course.bind_cons, course]

theorem course_bind_of_ok {x : Rendering α} {f : α → Rendering β} {events : List Event} {a : α}
    (h : x.course = ⟨events, .ok a⟩) :
    (x.bind f).course = ⟨events ++ (f a).course.events, (f a).course.ending⟩ := by
  rw [course_bind, h]
  rfl

theorem course_bind_of_error {x : Rendering α} {f : α → Rendering β} {events : List Event}
    {e : RenderError} (h : x.course = ⟨events, .error e⟩) :
    (x.bind f).course = ⟨events, .error e⟩ := by
  rw [course_bind, h]
  rfl

theorem course_emit (text : String) : (emit text).course = ⟨Event.writes text, .ok ()⟩ := by
  unfold emit Event.writes
  split <;> rfl

theorem course_collect (x : Rendering Unit) (before : String) :
    (collect before x).course = ⟨Event.silent x.course.events,
      .ok (x.course.ending.map fun _ => (Event.chunks x.course.events).foldl (· ++ ·) before)⟩ := by
  induction x generalizing before with
  | done a => rfl
  | failed e => rfl
  | write chunk rest ih => exact ih () _
  | refuse e rest ih =>
    rw [collect, course, ih]
    rfl
  | load source next ih =>
    rw [collect, course, ih]
    rfl

theorem bind_assoc (x : Rendering α) (f : α → Rendering β) (g : β → Rendering γ) :
    (x.bind f).bind g = x.bind fun a => (f a).bind g := by
  induction x with
  | done a => rfl
  | failed e => rfl
  | write chunk rest ih => exact congrArg (write chunk) (funext ih)
  | refuse e rest ih => exact congrArg (refuse e) (funext ih)
  | load source next ih => exact congrArg (load source) (funext ih)

theorem bind_done_right (x : Rendering Unit) : (x.bind fun _ => done ()) = x := by
  induction x with
  | done a => rfl
  | failed e => rfl
  | write chunk rest ih => exact congrArg (write chunk) (funext ih)
  | refuse e rest ih => exact congrArg (refuse e) (funext ih)
  | load source next ih => exact congrArg (load source) (funext ih)

theorem forEach_singleton (f : β → Rendering Unit) (b : β) : forEach f [b] = f b :=
  bind_done_right (f b)

theorem forEach_map (f : β → Rendering Unit) (g : γ → β) (cs : List γ) :
    forEach f (cs.map g) = forEach (fun c => f (g c)) cs := by
  induction cs with
  | nil => rfl
  | cons c cs ih => rw [List.map_cons, forEach, forEach, ih]

end Rendering

namespace Setting

open Rendering

variable {setting : Setting}

/-- What carries out the inclusions when the given number of them may still be entered. -/
def inside (setting : Setting) : Nat → Option Runner
  | 0 => none
  | room + 1 => some (setting.runner room)

theorem runner_eq_execute (room : Nat) :
    setting.runner room = setting.execute (setting.inside room) := by
  cases room with
  | zero => rfl
  | succ room => rfl

/-- What the runner does for a task. -/
def perform (setting : Setting) (inner? : Option Runner) : Task → Rendering Unit
  | .write text => emit text
  | .ops ops scopes nesting => setting.execute inner? ops scopes nesting
  | .block name body inner nesting => enterSection name nesting fun nesting =>
    forEach (fun scopes => setting.execute inner? body scopes nesting) inner
  | .bodies body inner nesting =>
    forEach (fun scopes => setting.execute inner? body scopes nesting) inner
  | .inclusion name top nesting => setting.runPartial inner? name top nesting
  | .lambda name top nesting reply =>
    (reply.follow (setting.helper inner? name top nesting)).bind fun
      | .ok text => emit text
      | .error e => .failed (.lambda name e)

theorem perform_block_singleton (inner? : Option Runner) (name : String) (body : List Op)
    (scopes : Scopes) (nesting : Nat) :
    setting.perform inner? (.block name body [scopes] nesting) =
      enterSection name nesting (setting.execute inner? body scopes) := by
  simp only [perform, forEach_singleton]

theorem perform_sectionTask (inner? : Option Runner) (name : String) (inverted : Bool)
    (raw : String) (body : List Op) (scopes : Scopes) (nesting : Nat) :
    setting.perform inner? (setting.sectionTask name inverted raw body scopes nesting) =
      setting.runSection inner? (setting.execute inner? body) name inverted raw scopes nesting := by
  unfold sectionTask runSection
  cases SectionPlan.of inverted (scopes.resolve setting.lambdas name) with
  | skip => rfl
  | once => exact perform_block_singleton _ _ _ _ _
  | inner value => exact perform_block_singleton _ _ _ _ _
  | each items => simp only [perform, forEach_map]
  | lambda id => rfl

theorem perform_render (inner? : Option Runner) (name : String) (top : Value) (nesting : Nat)
    (template : String) (next : Except Error String → Reply) :
    setting.perform inner? (.lambda name top nesting (.render template next)) =
      (setting.helper inner? name top nesting template).bind fun result =>
        setting.perform inner? (.lambda name top nesting (next result)) := by
  rw [perform, Reply.follow, bind_assoc]
  rfl

theorem emit_textOf (name : String) (scopes : Scopes) (escaped : Bool) (text : Value → String)
    (h : ∀ v, text v = if escaped then escapeHtml v.text else v.text) :
    emit (setting.textOf name escaped scopes) = setting.emitValue text name scopes := by
  unfold textOf emitValue
  cases scopes.resolve setting.lambdas name with
  | none => rfl
  | some value => exact congrArg emit (h value).symm

/-- Operations are carried out one task after the other. -/
theorem execute_cons (inner? : Option Runner) (op : Op) (ops : List Op) (scopes : Scopes)
    (nesting : Nat) :
    setting.execute inner? (op :: ops) scopes nesting =
      (setting.perform inner? (setting.task op ops scopes nesting)).bind fun _ =>
        setting.execute inner? (op.rest ops) scopes nesting := by
  cases op with
  | escaped name =>
    have := setting.emit_textOf name scopes true (escapeHtml ·.text) fun _ => rfl
    rw [execute, task, perform, this]
    rfl
  | unescaped name =>
    have := setting.emit_textOf name scopes false (·.text) fun _ => rfl
    rw [execute, task, perform, this]
    rfl
  | openSection name inverted n raw =>
    rw [execute, task, perform_sectionTask]
    rfl
  | _ =>
    rw [execute]
    rfl

theorem course_execute_nil (inner? : Option Runner) (scopes : Scopes) (nesting : Nat) :
    (setting.execute inner? [] scopes nesting).course = ⟨[], .ok ()⟩ := by
  rw [execute]
  rfl

variable {depth nesting : Nat} {name : String} {task : Task} {origin : Partial}
  {trace : List Event} {ending : Except RenderError Unit}

/-- How many inclusions the runner has room for when some are in progress. -/
def room (setting : Setting) (depth : Nat) : Option Runner :=
  setting.inside (setting.depthLimit - depth)

theorem room_of_full (full : setting.depthLimit ≤ depth) : setting.room depth = none := by
  have : setting.depthLimit - depth = 0 := by omega
  rw [room, this]
  rfl

theorem room_of_free (free : depth < setting.depthLimit) :
    setting.room depth = some (setting.execute (setting.room (depth + 1))) := by
  have : setting.depthLimit - depth = (setting.depthLimit - (depth + 1)) + 1 := by omega
  rw [room, this, inside, runner_eq_execute]
  rfl

theorem course_barred {e : Error} {top : Value} (present : setting.partials.get? name = some origin)
    (admits : setting.Admits depth name origin trace (.error e)) :
    (setting.runPartial (setting.room depth) name top nesting).course =
      ⟨Event.seen trace, .error (e.ofPartial name)⟩ := by
  unfold runPartial
  rw [present]
  cases admits with
  | refused full =>
    rw [room_of_full full]
    rfl
  | broken free parsed =>
    rw [room_of_free free]
    simp only [course, parsed]
    rfl

theorem course_included {program : Program} {top : Value} {first : List Event}
    (present : setting.partials.get? name = some origin)
    (admits : setting.Admits depth name origin first (.ok program))
    (h : (setting.execute (setting.room (depth + 1)) program.ops (.ofView top) nesting).course =
      ⟨trace, ending⟩) :
    (setting.runPartial (setting.room depth) name top nesting).course =
      ⟨Event.seen first ++ trace, ending⟩ := by
  unfold runPartial
  rw [present, room_of_free admits.free]
  cases admits with
  | compiled free => exact h
  | source free parsed =>
    simp only [course, parsed, h]
    rfl

theorem course_denied {e : Error} {top : Value} {template : String}
    (admits : setting.Admits depth name (.source template) trace (.error e)) :
    (setting.helper (setting.room depth) name top nesting template).course =
      ⟨Event.seen trace, .ok (.error e)⟩ := by
  cases admits with
  | refused full =>
    rw [room_of_full full]
    rfl
  | broken free parsed =>
    rw [room_of_free free]
    simp only [helper, course, parsed]
    rfl

theorem course_helped {program : Program} {top : Value} {template : String} {first : List Event}
    (admits : setting.Admits depth name (.source template) first (.ok program))
    (h : (setting.execute (setting.room (depth + 1)) program.ops (.ofView top) nesting).course =
      ⟨trace, ending⟩) :
    (setting.helper (setting.room depth) name top nesting template).course =
      ⟨Event.seen first ++ Event.silent trace,
        .ok ((ending.map fun _ => String.join (Event.chunks trace)).mapError .render)⟩ := by
  rw [room_of_free admits.free]
  cases admits with
  | source free parsed =>
    have collected := course_collect (setting.execute (setting.room (depth + 1)) program.ops
      (.ofView top) nesting) ""
    simp only [helper, course, parsed]
    rw [course_bind_of_ok collected, h, Course.cons, course, List.append_nil]
    rfl

/-- The runner of a setting, which counts the room that is left, follows the one course that a task
has when the inclusions in progress are counted. -/
theorem Runs.course (h : setting.Runs depth task trace ending) :
    (setting.perform (setting.room depth) task).course = ⟨Event.seen trace, ending⟩ := by
  -- One case for each rule; a rule that ends a sequence early ends the bind of the two renderings.
  induction h with
  | write text => rw [perform, course_emit, Event.seen_writes]
  | finished scopes => exact course_execute_nil _ _ _
  | broke head ih =>
    rw [perform, execute_cons]
    exact course_bind_of_error ih
  | wentOn head tail ihhead ihtail =>
    rw [perform] at ihtail
    rw [perform, execute_cons, course_bind_of_ok ihhead, ihtail, Event.seen_append]
  | tooNested full =>
    rw [perform, enterSection, if_pos full]
    rfl
  | nested free inside ih =>
    rw [perform] at ih
    rw [perform, enterSection, if_neg (Nat.not_le.mpr free), ih]
    congr 1
    exact (Event.seen_append.trans (List.append_nil _)).symm
  | noBody body => rfl
  | bodyBroke head ih => exact course_bind_of_error ih
  | bodyEnded head tail ihhead ihtail =>
    rw [perform] at ihhead
    rw [perform] at ihtail
    rw [perform, forEach, course_bind_of_ok ihhead, ihtail, Event.seen_append]
  | missing absent =>
    rw [perform, runPartial, absent]
    rfl
  | barred present admits => exact course_barred present admits
  | included present admits inside ih =>
    rw [perform] at ih
    rw [perform, course_included present admits ih, Event.seen_append, Event.seen_append]
    congr 1
    exact (List.append_nil _).symm
  | answered text =>
    refine (course_emit text).trans ?_
    rw [Event.seen_writes]
  | lambdaFailed e => rfl
  | denied admits tail ih =>
    rw [perform_render, course_bind_of_ok (course_denied admits), ih, Event.seen_append]
  | helped admits inside tail ihinside ihtail =>
    rw [perform] at ihinside
    have helped := course_helped admits ihinside
    rw [Event.chunks_seen, Event.silent_seen] at helped
    rw [perform_render, course_bind_of_ok helped, ihtail, Event.seen_append, Event.seen_append]
    rfl

theorem course_rendering {program : Program} {view : Value}
    (h : setting.Runs 0 (.ops program.ops (.ofView view) 0) trace ending) :
    (setting.rendering program view).course = ⟨Event.seen trace, ending⟩ := by
  have followed := h.course
  rwa [perform, room, Nat.sub_zero, ← runner_eq_execute] at followed

/-- What a partial does that may be entered. -/
theorem runs_inclusion_of_free {top : Value} (present : setting.partials.get? name = some origin)
    (free : depth < setting.depthLimit) :
    ∃ inner ending, setting.Runs depth (.inclusion name top nesting)
      (.attempt name :: .enter name :: (inner ++ [.leave name])) ending := by
  obtain ⟨first, admitted, admits⟩ := setting.exists_admits depth name origin
  cases admits with
  | refused full => omega
  | broken _ parsed => exact ⟨[.compile _], _, .barred present (.broken free parsed)⟩
  | @compiled template _ =>
    obtain ⟨trace, ending, inside⟩ :=
      setting.ends (depth + 1) (.ops template.program.ops (.ofView top) nesting)
    exact ⟨trace, ending, .included present (.compiled free) inside⟩
  | @source text program _ parsed =>
    obtain ⟨trace, ending, inside⟩ :=
      setting.ends (depth + 1) (.ops program.ops (.ofView top) nesting)
    exact ⟨.compile text :: trace, ending, .included present (.source free parsed) inside⟩

/-- What a template does that a section lambda may have rendered. -/
theorem runs_render_of_free {top : Value} {template : String} {next : Except Error String → Reply}
    (free : depth < setting.depthLimit) :
    ∃ inner result later ending,
      setting.Runs depth (.lambda name top nesting (next result)) later ending ∧
        setting.Runs depth (.lambda name top nesting (.render template next))
          (.attempt name :: .enter name :: (inner ++ .leave name :: later)) ending := by
  obtain ⟨first, admitted, admits⟩ := setting.exists_admits depth name (.source template)
  cases admits with
  | refused full => omega
  | @broken _ e _ parsed =>
    obtain ⟨later, ending, tail⟩ :=
      setting.ends depth (.lambda name top nesting (next (.error (.compile e))))
    exact ⟨[.compile template], _, later, ending, tail, .denied (.broken free parsed) tail⟩
  | @source _ program _ parsed =>
    obtain ⟨trace, result, inside⟩ :=
      setting.ends (depth + 1) (.ops program.ops (.ofView top) nesting)
    obtain ⟨later, ending, tail⟩ := setting.ends depth (.lambda name top nesting
      (next ((result.map fun _ => String.join (Event.chunks trace)).mapError .render)))
    exact ⟨.compile template :: Event.silent trace, _, later, ending, tail,
      .helped (.source free parsed) inside tail⟩

/-- Tasks end, and inclusions are let in exactly as long as fewer than the limit are in progress. -/
structure LimitsExactly (setting : Setting) : Prop where
  ends (depth : Nat) (task : Task) : ∃ trace ending, setting.Runs depth task trace ending ∧
    ∀ trace' ending', setting.Runs depth task trace' ending' → trace' = trace ∧ ending' = ending
  /-- Whoever comes next finds as many inclusions in progress as there were before. -/
  kept {depth : Nat} {task : Task} {trace : List Event} {ending : Except RenderError Unit}
    (h : setting.Runs depth task trace ending) (hd : depth ≤ setting.depthLimit) :
    Event.Kept setting.depthLimit depth trace ∧ Event.inProgress depth trace = depth
  missing (depth : Nat) (name : String) (top : Value) (nesting : Nat)
    (absent : setting.partials.get? name = none) :
    setting.Runs depth (.inclusion name top nesting) [] (.ok ())
  refused (name : String) (top : Value) (nesting : Nat)
    (present : (setting.partials.get? name).isSome) :
    setting.Runs setting.depthLimit (.inclusion name top nesting)
      [.attempt name, .refuse (.depthLimit name setting.depthLimit)]
      (.error (.depthLimit name setting.depthLimit))
  entered {depth : Nat} (name : String) (top : Value) (nesting : Nat)
    (present : (setting.partials.get? name).isSome) (free : depth < setting.depthLimit) :
    ∃ inner ending, setting.Runs depth (.inclusion name top nesting)
      (.attempt name :: .enter name :: (inner ++ [.leave name])) ending
  /-- A lambda is told that a rendering was refused, and goes on from there. -/
  denied (name : String) (top : Value) (nesting : Nat) (template : String)
    (next : Except Error String → Reply) {later : List Event} {ending : Except RenderError Unit}
    (tail : setting.Runs setting.depthLimit
      (.lambda name top nesting (next (.error (.render (.depthLimit name setting.depthLimit)))))
      later ending) :
    setting.Runs setting.depthLimit (.lambda name top nesting (.render template next))
      (.attempt name :: .refuse (.depthLimit name setting.depthLimit) :: later) ending
  helped {depth : Nat} (name : String) (top : Value) (nesting : Nat) (template : String)
    (next : Except Error String → Reply) (free : depth < setting.depthLimit) :
    ∃ inner result later ending,
      setting.Runs depth (.lambda name top nesting (next result)) later ending ∧
        setting.Runs depth (.lambda name top nesting (.render template next))
          (.attempt name :: .enter name :: (inner ++ .leave name :: later)) ending

theorem limitsExactly (setting : Setting) : setting.LimitsExactly where
  ends depth task := by
    obtain ⟨trace, ending, runs⟩ := setting.ends depth task
    exact ⟨trace, ending, runs, fun _ _ runs' => runs.unique runs'⟩
  kept h hd := h.kept hd
  missing _ _ _ _ absent := .missing absent
  refused name top nesting present := by
    obtain ⟨origin, present⟩ := Option.isSome_iff_exists.mp present
    exact .barred present (.refused (Nat.le_refl _))
  entered name top nesting present free := by
    obtain ⟨origin, present⟩ := Option.isSome_iff_exists.mp present
    exact runs_inclusion_of_free present free
  denied _ _ _ _ _ _ _ tail := .denied (.refused (Nat.le_refl _)) tail
  helped _ _ _ _ _ free := runs_render_of_free free

end Setting

/-- A rendering ends, whatever its partials and its lambdas include. Never are there more inclusions
in progress than the limit of its template says, and one is refused, before anything is done for it,
exactly if there are that many. -/
theorem inclusions_limited_exactly (template : Template) (view : Value) (partials : Partials)
    (lambdas : Lambdas) :
    let setting : Setting := ⟨partials, lambdas, template.options.partialDepthLimit⟩
    setting.LimitsExactly ∧
      ∃ trace ending,
        setting.Runs 0 (.ops template.program.ops (.ofView view) 0) trace ending ∧
          (setting.rendering template.program view).course = ⟨Event.seen trace, ending⟩ ∧
          ∀ (pool : Pool) {σ : Type} (sink : Sink σ) (s : σ),
            let r := pool.stream template view partials lambdas sink s
            (r.1, r.2.1) = sink.feed ending (Event.chunks trace) s := by
  intro setting
  refine ⟨setting.limitsExactly, ?_⟩
  obtain ⟨trace, ending, runs⟩ := setting.ends 0 (.ops template.program.ops (.ofView view) 0)
  have followed := Setting.course_rendering runs
  refine ⟨trace, ending, runs, followed, ?_⟩
  intro pool σ sink s r
  have delivered : (r.1, r.2.1) =
      (setting.rendering template.program view).transcript.deliver sink s :=
    pool.stream_eq_deliver template view partials lambdas sink s
  rw [delivered, Rendering.transcript_eq_course, followed, Event.chunks_seen]
  rfl

end Mustache
