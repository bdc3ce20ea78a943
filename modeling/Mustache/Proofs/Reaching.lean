import Mustache.Proofs.DepthLimit

namespace Mustache

namespace SectionPlan

/-- The value that a plan has a use for, beyond its being there or not. -/
def value? : SectionPlan → Option Value
  | skip | once => none
  | inner value => some value
  | each items => some (.list items)
  | lambda id => some (.sectionLambda id)

theorem found_of_value? {inverted : Bool} {found? : Option Value} {value : Value}
    (h : (SectionPlan.of inverted found?).value? = some value) :
    inverted = false ∧ found? = some value := by
  unfold SectionPlan.of ofInverted ofValue at h
  split at h
  next =>
    split at h <;> cases h
  next plain =>
    refine ⟨by simpa using plain, ?_⟩
    split at h
    · cases h
    · cases h
      rfl
    · cases h
      rfl
    · cases h
      rfl
    · split at h <;> cases h

end SectionPlan

namespace Event

/-- How many section bodies are in progress after an event. -/
def countBodies (nesting : Nat) : Event → Nat
  | openBody _ => nesting + 1
  | closeBody _ => nesting - 1
  | _ => nesting

def bodies (nesting : Nat) (events : List Event) : Nat :=
  events.foldl countBodies nesting

variable {nesting : Nat} {events later : List Event}

@[simp] theorem bodies_append :
    bodies nesting (events ++ later) = bodies (bodies nesting events) later :=
  List.foldl_append

@[simp] theorem bodies_writes {text : String} : bodies nesting (writes text) = nesting := by
  unfold writes
  split <;> rfl

@[simp] theorem bodies_silent : bodies nesting (silent events) = bodies nesting events := by
  induction events generalizing nesting with
  | nil => rfl
  | cons event events ih =>
    cases event with
    | write chunk => exact ih
    | _ => exact ih

end Event

namespace Setting

variable {setting : Setting} {depth nesting : Nat} {name : String} {origin : Partial} {task : Task}
  {trace : List Event} {ending : Except RenderError Unit} {admitted : Except Error Program}

/-- An attempt to include something is no part of a section. -/
theorem Admits.bodies_eq (h : setting.Admits depth name origin trace admitted) (nesting : Nat) :
    Event.bodies nesting trace = nesting := by
  cases h <;> rfl

/-- Whatever a task ends in, the bodies that it opened are closed. -/
theorem Runs.bodies_eq (h : setting.Runs depth task trace ending) (nesting : Nat) :
    Event.bodies nesting trace = nesting := by
  induction h generalizing nesting with
  | write text | answered text => exact Event.bodies_writes
  | finished scopes => rfl
  | broke head ih => exact ih nesting
  | wentOn head tail ihhead ihtail => rw [Event.bodies_append, ihhead, ihtail]
  | tooNested full => rfl
  | nested free inside ih =>
    have inner := ih (nesting + 1)
    exact Event.bodies_append.trans (congrArg (Event.bodies · _) inner)
  | noBody body => rfl
  | bodyBroke head ih => exact ih nesting
  | bodyEnded head tail ihhead ihtail => rw [Event.bodies_append, ihhead, ihtail]
  | missing absent => rfl
  | barred present admits => exact admits.bodies_eq nesting
  | included present admits inside ih =>
    rw [Event.bodies_append, Event.bodies_append, admits.bodies_eq, ih]
    rfl
  | lambdaFailed e => rfl
  | denied admits tail ih => rw [Event.bodies_append, admits.bodies_eq, ih]
  | helped admits inside tail ihinside ihtail =>
    rw [Event.bodies_append, Event.bodies_append, admits.bodies_eq, Event.bodies_silent, ihinside]
    exact ihtail nesting

/-- A task comes to the next one, after some events, with some inclusions in progress then. -/
inductive Leads (setting : Setting) : Nat → Task → List Event → Nat → Task → Prop where
  | head {depth nesting : Nat} (op : Op) (ops : List Op) (scopes : Scopes) :
    Leads setting depth (.ops (op :: ops) scopes nesting) [] depth
      (setting.task op ops scopes nesting)
  | tail {depth nesting : Nat} {op : Op} {ops : List Op} {scopes : Scopes} {first : List Event}
      (head : setting.Runs depth (setting.task op ops scopes nesting) first (.ok ())) :
    Leads setting depth (.ops (op :: ops) scopes nesting) first depth
      (.ops (op.rest ops) scopes nesting)
  | inside {depth nesting : Nat} {name : String} {body : List Op} {inner : List Scopes}
      (free : nesting < sectionNestingLimit) :
    Leads setting depth (.block name body inner nesting) [.openBody name] depth
      (.bodies body inner (nesting + 1))
  | body {depth nesting : Nat} (body : List Op) (scopes : Scopes) (inner : List Scopes) :
    Leads setting depth (.bodies body (scopes :: inner) nesting) [] depth
      (.ops body scopes nesting)
  | others {depth nesting : Nat} {body : List Op} {scopes : Scopes} {inner : List Scopes}
      {first : List Event} (head : setting.Runs depth (.ops body scopes nesting) first (.ok ())) :
    Leads setting depth (.bodies body (scopes :: inner) nesting) first depth
      (.bodies body inner nesting)
  | included {depth nesting : Nat} {name : String} {top : Value} {origin : Partial}
      {first : List Event} {program : Program} (present : setting.partials.get? name = some origin)
      (admits : setting.Admits depth name origin first (.ok program)) :
    Leads setting depth (.inclusion name top nesting) first (depth + 1)
      (.ops program.ops (.ofView top) nesting)
  | helper {depth nesting : Nat} {name template : String} {top : Value}
      {next : Except Error String → Reply} {first : List Event} {program : Program}
      (admits : setting.Admits depth name (.source template) first (.ok program)) :
    Leads setting depth (.lambda name top nesting (.render template next)) first (depth + 1)
      (.ops program.ops (.ofView top) nesting)
  | denied {depth nesting : Nat} {name template : String} {top : Value}
      {next : Except Error String → Reply} {first : List Event} {e : Error}
      (admits : setting.Admits depth name (.source template) first (.error e)) :
    Leads setting depth (.lambda name top nesting (.render template next)) first depth
      (.lambda name top nesting (next (.error e)))
  | helped {depth nesting : Nat} {name template : String} {top : Value}
      {next : Except Error String → Reply} {first trace : List Event} {program : Program}
      {result : Except RenderError Unit}
      (admits : setting.Admits depth name (.source template) first (.ok program))
      (inside : setting.Runs (depth + 1) (.ops program.ops (.ofView top) nesting) trace result) :
    Leads setting depth (.lambda name top nesting (.render template next))
      (first ++ Event.silent trace ++ [.leave name]) depth (.lambda name top nesting
        (next ((result.map fun _ => String.join (Event.chunks trace)).mapError .render)))

/-- All that a task comes to: the events so far, the inclusions in progress and what is next. -/
inductive Reaches (setting : Setting) (depth : Nat) (start : Task) :
    List Event → Nat → Task → Prop where
  | start : Reaches setting depth start [] depth start
  | step {before events : List Event} {depth' depth'' : Nat} {task next : Task}
      (reached : Reaches setting depth start before depth' task)
      (leads : setting.Leads depth' task events depth'' next) :
    Reaches setting depth start (before ++ events) depth'' next

end Setting

/-- How many section bodies a task takes to be in progress, if it can come to one. -/
def Task.nesting? : Task → Option Nat
  | write _ => none
  | ops _ _ nesting | block _ _ _ nesting | bodies _ _ nesting | inclusion _ _ nesting
  | lambda _ _ nesting _ => some nesting

namespace Setting

variable {setting : Setting} {depth depth' : Nat} {start task next : Task}
  {before events : List Event}

theorem nesting?_task (op : Op) (ops : List Op) (scopes : Scopes) (nesting : Nat) :
    ∀ n ∈ (setting.task op ops scopes nesting).nesting?, n = nesting := by
  cases op with
  | openSection name inverted n raw =>
    simp only [Setting.task, sectionTask]
    cases SectionPlan.of inverted (scopes.resolve setting.lambdas name) <;> simp [Task.nesting?]
  | _ => simp [Setting.task, Task.nesting?]

/-- One step: what a task takes to be in progress is what the events make of it. -/
theorem Leads.nesting_eq (h : setting.Leads depth task events depth' next) {n : Nat}
    (hn : n ∈ task.nesting?) (hle : n ≤ sectionNestingLimit) :
    ∀ n' ∈ next.nesting?, n' = Event.bodies n events ∧ n' ≤ sectionNestingLimit := by
  cases h with
  | head op ops scopes =>
    cases hn
    intro n' hn'
    have := setting.nesting?_task op ops scopes n n' hn'
    exact ⟨this, by omega⟩
  | inside free =>
    cases hn
    rintro _ ⟨⟩
    exact ⟨rfl, by omega⟩
  | body body scopes inner =>
    cases hn
    rintro _ ⟨⟩
    exact ⟨rfl, hle⟩
  | tail head | others head =>
    cases hn
    rintro _ ⟨⟩
    exact ⟨(head.bodies_eq n).symm, hle⟩
  | included _ admits | helper admits | denied admits =>
    cases hn
    rintro _ ⟨⟩
    exact ⟨(admits.bodies_eq n).symm, hle⟩
  | helped admits inside =>
    cases hn
    rintro _ ⟨⟩
    refine ⟨?_, hle⟩
    rw [Event.bodies_append, Event.bodies_append, admits.bodies_eq, Event.bodies_silent,
      inside.bodies_eq]
    rfl

/-- Wherever a task comes to, it counts the section bodies in progress right, across partials and
helper renderings, and there are not too many. -/
theorem Reaches.nesting_eq (h : setting.Reaches depth start before depth' task) {n : Nat}
    (hn : n ∈ start.nesting?) (hle : n ≤ sectionNestingLimit) :
    ∀ n' ∈ task.nesting?, n' = Event.bodies n before ∧ n' ≤ sectionNestingLimit := by
  induction h with
  | start =>
    intro n' hn'
    cases Option.some.inj (hn.symm.trans hn')
    exact ⟨rfl, hle⟩
  | @step before events _ _ task next reached leads ih =>
    intro n' hn'
    obtain ⟨m, hm⟩ : ∃ m, m ∈ task.nesting? := by
      cases leads <;> exact ⟨_, rfl⟩
    obtain ⟨heq, hlimit⟩ := ih m hm
    have stepped := leads.nesting_eq hm hlimit n' hn'
    rwa [heq, ← Event.bodies_append] at stepped

end Setting

/-- A task that puts a text out as one chunk. -/
inductive Task.Writes (chunk : String) : Task → Prop where
  | write : Writes chunk (.write chunk)
  | answer (name : String) (top : Value) (nesting : Nat) :
    Writes chunk (.lambda name top nesting (.done (.ok chunk)))

theorem Event.eq_of_mem_chunks_writes {chunk text : String} (h : chunk ∈ chunks (writes text)) :
    chunk = text := by
  unfold writes at h
  split at h
  next => cases h
  next => exact List.mem_singleton.mp h

theorem Event.chunks_append (events later : List Event) :
    chunks (events ++ later) = chunks events ++ chunks later :=
  List.filterMap_append

theorem Event.chunks_silent (events : List Event) : chunks (silent events) = [] := by
  induction events with
  | nil => rfl
  | cons event events ih =>
    cases event with
    | write chunk => exact ih
    | _ => exact ih

namespace Setting

variable {setting : Setting} {start task : Task} {base depth : Nat} {chunk name : String}
  {before trace : List Event} {ending : Except RenderError Unit}

theorem Admits.chunks_eq {origin : Partial} {admitted : Except Error Program}
    (h : setting.Admits depth name origin trace admitted) : Event.chunks trace = [] := by
  cases h <;> rfl

/-- For each chunk there is a task that puts it out, among those that are come to. -/
theorem Runs.exists_writes (h : setting.Runs depth task trace ending)
    (reached : setting.Reaches base start before depth task) (hc : chunk ∈ Event.chunks trace) :
    ∃ before' depth' task', setting.Reaches base start before' depth' task' ∧
      task'.Writes chunk := by
  induction h generalizing before with
  | write text =>
    obtain rfl := Event.eq_of_mem_chunks_writes hc
    exact ⟨_, _, _, reached, .write⟩
  | finished | tooNested | noBody | missing | lambdaFailed => cases hc
  | broke head ih => exact ih (reached.step (.head _ _ _)) hc
  | wentOn head tail ihhead ihtail =>
    rw [Event.chunks_append, List.mem_append] at hc
    rcases hc with hc | hc
    · exact ihhead (reached.step (.head _ _ _)) hc
    · exact ihtail (reached.step (.tail head)) hc
  | nested free inside ih =>
    refine ih (reached.step (.inside free)) ?_
    simpa [Event.chunks, Event.chunk?] using hc
  | bodyBroke head ih => exact ih (reached.step (.body _ _ _)) hc
  | bodyEnded head tail ihhead ihtail =>
    rw [Event.chunks_append, List.mem_append] at hc
    rcases hc with hc | hc
    · exact ihhead (reached.step (.body _ _ _)) hc
    · exact ihtail (reached.step (.others head)) hc
  | barred present admits =>
    rw [admits.chunks_eq] at hc
    cases hc
  | included present admits inside ih =>
    refine ih (reached.step (.included present admits)) ?_
    rw [Event.chunks_append, Event.chunks_append, admits.chunks_eq] at hc
    simpa [Event.chunks, Event.chunk?] using hc
  | answered text =>
    obtain rfl := Event.eq_of_mem_chunks_writes hc
    exact ⟨_, _, _, reached, .answer _ _ _⟩
  | denied admits tail ih =>
    rw [Event.chunks_append, admits.chunks_eq] at hc
    exact ih (reached.step (.denied admits)) hc
  | helped admits inside tail ihinside ihtail =>
    refine ihtail (reached.step (.helped admits inside)) ?_
    rw [Event.chunks_append, Event.chunks_append, admits.chunks_eq, Event.chunks_silent] at hc
    simpa [Event.chunks, Event.chunk?] using hc

end Setting

theorem Sink.Hears.subset {σ : Type} {sink : Sink σ} {s : σ} {chunks heard : List String}
    {stopped : Bool} (h : sink.Hears s chunks heard stopped) : heard ⊆ chunks := by
  cases h with
  | all => exact List.Subset.refl chunks
  | some split =>
    rw [split]
    simp

theorem SinkCall.mem_of_mem_course {heard : List String} {chunk : String}
    {result : Except RenderError Completion} (h : .chunk chunk ∈ course heard result) :
    chunk ∈ heard := by
  unfold course at h
  split at h <;> simpa using h

/-- A rendering hands a sink nothing but what it puts out when it comes to it. -/
theorem Pool.exists_reached_of_chunk {σ : Type} (pool : Pool) (template : Template) (view : Value)
    (partials : Partials) (lambdas : Lambdas) (sink : Sink σ) (s : σ) {chunk : String}
    (h : .chunk chunk ∈ (pool.stream template view partials lambdas sink.traced (s, [])).2.1.2) :
    ∃ before depth task,
      (Setting.mk partials lambdas template.options.partialDepthLimit).Reaches 0
        (.ops template.program.ops (.ofView view) 0) before depth task ∧ task.Writes chunk := by
  let setting : Setting := ⟨partials, lambdas, template.options.partialDepthLimit⟩
  obtain ⟨trace, ending, runs⟩ :=
    setting.ends 0 (.ops template.program.ops (.ofView view) 0)
  let course := (setting.rendering template.program view).transcript
  have hcourse : course.chunks = Event.chunks trace := by
    simp only [course, Rendering.transcript_eq_course, Setting.course_rendering runs,
      Event.chunks_seen]
  obtain ⟨heard, stopped, hears⟩ := sink.exists_hears s course.chunks
  have fed := (pool.stream_eq_deliver template view partials lambdas sink.traced (s, [])).trans
    (Sink.feed_traced hears course.ending)
  rw [congrArg (·.2.2) fed] at h
  have hheard : chunk ∈ heard := SinkCall.mem_of_mem_course h
  have hchunk : chunk ∈ Event.chunks trace := hcourse ▸ hears.subset hheard
  exact runs.exists_writes .start hchunk

end Mustache
