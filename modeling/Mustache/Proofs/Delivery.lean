import Mustache.Proofs.Refinement
import Mustache.Template.Pool

namespace Mustache

/-- A call that a sink gets. -/
inductive SinkCall where
  | chunk (text : String)
  | finish

/-- The calls of a sink that hears some chunks: it is told of the end only if there is no error and
it has not stopped. -/
def SinkCall.course (heard : List String) : Except RenderError Completion → List SinkCall
  | .ok .finished => heard.map chunk ++ [finish]
  | _ => heard.map chunk

namespace Sink

variable {σ : Type}

/-- A sink together with the calls that it has got. -/
def traced (sink : Sink σ) : Sink (σ × List SinkCall) where
  write := fun (s, calls) chunk =>
    (((sink.write s chunk).1, calls ++ [.chunk chunk]), (sink.write s chunk).2)
  finish := fun (s, calls) => (sink.finish s, calls ++ [.finish])

/-- A sink that always wants more and keeps it. -/
def patient : Sink (List String) where
  write chunks chunk := (chunks ++ [chunk], .more)
  finish chunks := chunks

/-- The state of a sink after some chunks, whatever it has answered to them. -/
def after (sink : Sink σ) (s : σ) (chunks : List String) : σ :=
  chunks.foldl (fun s chunk => (sink.write s chunk).1) s

/-- After the chunks `before` the sink wants no more than one chunk. -/
def StopsAt (sink : Sink σ) (s : σ) (before : List String) (chunk : String) : Prop :=
  (sink.write (sink.after s before) chunk).2 = .stop

def Patient (sink : Sink σ) (s : σ) (chunks : List String) : Prop :=
  ∀ before chunk rest, chunks = before ++ chunk :: rest → ¬sink.StopsAt s before chunk

/-- What a sink hears of some chunks: all of them, or those up to the first at which it stops. -/
inductive Hears (sink : Sink σ) (s : σ) (chunks : List String) : List String → Bool → Prop where
  | all (patient : sink.Patient s chunks) : Hears sink s chunks chunks false
  | some {before rest : List String} {chunk : String} (split : chunks = before ++ chunk :: rest)
      (patient : sink.Patient s before) (stops : sink.StopsAt s before chunk) :
      Hears sink s chunks (before ++ [chunk]) true

variable {sink : Sink σ} {s : σ} {chunks heard : List String} {chunk : String} {stopped : Bool}

theorem patient_cons (h : (sink.write s chunk).2 = .more) :
    sink.Patient s (chunk :: chunks) ↔ sink.Patient (sink.write s chunk).1 chunks := by
  constructor
  · intro patient before next rest he
    exact patient (chunk :: before) next rest (by rw [he]; rfl)
  · intro patient before next rest he
    cases before with
    | nil =>
      cases he
      simp [StopsAt, after, h]
    | cons first before =>
      cases he
      exact patient before next rest rfl

theorem hears_cons (hw : (sink.write s chunk).2 = .more)
    (h : sink.Hears (sink.write s chunk).1 chunks heard stopped) :
    sink.Hears s (chunk :: chunks) (chunk :: heard) stopped := by
  cases h with
  | all patient => exact .all ((patient_cons hw).mpr patient)
  | @some before rest last split patient stops =>
    have hsplit : chunk :: chunks = (chunk :: before) ++ last :: rest := by
      rw [split]
      rfl
    exact .some hsplit ((patient_cons hw).mpr patient) stops

theorem exists_hears (sink : Sink σ) (s : σ) (chunks : List String) :
    ∃ heard stopped, sink.Hears s chunks heard stopped := by
  induction chunks generalizing s with
  | nil => exact ⟨[], false, .all (by simp [Patient])⟩
  | cons chunk chunks ih =>
    cases hw : (sink.write s chunk).2 with
    | more =>
      obtain ⟨heard, stopped, h⟩ := ih (sink.write s chunk).1
      exact ⟨_, _, hears_cons hw h⟩
    | stop =>
      have split : chunk :: chunks = [] ++ chunk :: chunks := rfl
      exact ⟨_, _, .some split (by simp [Patient]) hw⟩

/-- A sink stops exactly if there is a chunk at which it does, be it the last one. -/
theorem Hears.stopped_iff (h : sink.Hears s chunks heard stopped) :
    stopped = true ↔
      ∃ before chunk rest, chunks = before ++ chunk :: rest ∧ sink.StopsAt s before chunk := by
  cases h with
  | all patient =>
    refine ⟨nofun, ?_⟩
    rintro ⟨before, chunk, rest, split, stops⟩
    exact absurd stops (patient before chunk rest split)
  | some split _ stops => exact ⟨fun _ => ⟨_, _, _, split, stops⟩, fun _ => rfl⟩

theorem feed_append_of_patient {before : List String} (patient : sink.Patient s before)
    (ending : Except RenderError Unit) (chunks : List String) :
    sink.feed ending (before ++ chunks) s = sink.feed ending chunks (sink.after s before) := by
  induction before generalizing s with
  | nil => rfl
  | cons chunk before ih =>
    have hw : (sink.write s chunk).2 = .more := by
      have := patient [] chunk before rfl
      cases hflow : (sink.write s chunk).2 with
      | more => rfl
      | stop => exact absurd hflow this
    rw [List.cons_append, feed]
    rcases hs : sink.write s chunk with ⟨s', flow⟩
    rw [hs] at hw
    cases hw
    have next := (patient_cons (by rw [hs])).mp patient
    rw [hs] at next
    simp only [ih next, after, List.foldl_cons, hs]

theorem feed_of_hears (h : sink.Hears s chunks heard stopped) (ending : Except RenderError Unit) :
    sink.feed ending chunks s =
      if stopped then (.ok .stopped, sink.after s heard)
      else match ending with
        | .ok () => (.ok .finished, sink.finish (sink.after s heard))
        | .error e => (.error e, sink.after s heard) := by
  cases h with
  | all patient =>
    have := feed_append_of_patient patient ending []
    rw [List.append_nil] at this
    rw [this]
    cases ending <;> rfl
  | @some before rest chunk split patient stops =>
    rw [split, feed_append_of_patient patient, feed]
    have last : sink.after s (before ++ [chunk]) = (sink.write (sink.after s before) chunk).1 := by
      rw [after, List.foldl_append]
      rfl
    rw [last]
    unfold StopsAt at stops
    rcases hs : sink.write (sink.after s before) chunk with ⟨s', flow⟩
    rw [hs] at stops
    cases stops
    rfl

theorem after_traced (calls : List SinkCall) (chunks : List String) :
    sink.traced.after (s, calls) chunks = (sink.after s chunks, calls ++ chunks.map .chunk) := by
  induction chunks generalizing s calls with
  | nil => simp [after]
  | cons chunk chunks ih =>
    have := ih (s := (sink.write s chunk).1) (calls ++ [.chunk chunk])
    simpa [after, traced] using this

theorem Hears.traced (h : sink.Hears s chunks heard stopped) (calls : List SinkCall) :
    sink.traced.Hears (s, calls) chunks heard stopped := by
  have same (before : List String) (chunk : String) :
      sink.traced.StopsAt (s, calls) before chunk ↔ sink.StopsAt s before chunk := by
    simp only [StopsAt, after_traced]
    rfl
  have patient (cs : List String) (h : sink.Patient s cs) : sink.traced.Patient (s, calls) cs :=
    fun before chunk rest he hstop => h before chunk rest he ((same before chunk).mp hstop)
  cases h with
  | all p => exact .all (patient _ p)
  | some split p stops => exact .some split (patient _ p) ((same _ _).mpr stops)

/-- The call of the end is the last one, and there is none after a stop or an error. -/
theorem feed_traced (h : sink.Hears s chunks heard stopped) (ending : Except RenderError Unit) :
    sink.traced.feed ending chunks (s, []) =
      ((sink.feed ending chunks s).1, (sink.feed ending chunks s).2,
        SinkCall.course heard (sink.feed ending chunks s).1) := by
  rw [feed_of_hears (h.traced []), feed_of_hears h, after_traced]
  cases stopped with
  | true => rfl
  | false => cases ending <;> rfl

theorem result_of_hears (h : sink.Hears s chunks heard stopped) (ending : Except RenderError Unit) :
    (sink.feed ending chunks s).1 =
      if stopped then .ok .stopped else ending.map fun _ => .finished := by
  rw [feed_of_hears h]
  cases stopped with
  | true => rfl
  | false => cases ending <;> rfl

theorem feed_patient (ending : Except RenderError Unit) (chunks : List String) :
    patient.feed ending chunks [] = (ending.map fun _ => .finished, chunks) := by
  have always : patient.Hears [] chunks chunks false := .all fun _ _ _ _ => nofun
  have kept (start : List String) : patient.after start chunks = start ++ chunks := by
    induction chunks generalizing start with
    | nil => simp [after]
    | cons chunk chunks ih =>
      have := ih (.all fun _ _ _ _ => nofun) (start ++ [chunk])
      simpa [after, patient] using this
  rw [feed_of_hears always, kept]
  cases ending <;> rfl

theorem feed_joined (ending : Except RenderError Unit) (chunks : List String) :
    joined.feed ending chunks "" = (ending.map fun _ => .finished, String.join chunks) := by
  have always : joined.Hears "" chunks chunks false := .all fun _ _ _ _ => nofun
  rw [feed_of_hears always]
  cases ending <;> rfl

end Sink

namespace Transcript

variable {α β : Type}

/-- No chunk is empty. -/
def Filled (t : Transcript α) : Prop :=
  ∀ chunk ∈ t.chunks, chunk ≠ ""

theorem filled_done (a : α) : (done a).Filled :=
  nofun

theorem filled_failed (e : RenderError) : (failed e : Transcript α).Filled :=
  nofun

theorem filled_write (text : String) : (write text).Filled := by
  unfold write Filled
  split
  next => exact nofun
  next h => simpa using h

theorem Filled.bind {t : Transcript α} {f : α → Transcript β} (h : t.Filled)
    (hf : ∀ a, (f a).Filled) : (t.bind f).Filled := by
  unfold Transcript.bind
  split
  next => exact h
  next a _ => exact List.forall_mem_append.mpr ⟨h, hf a⟩

theorem filled_forEach {f : β → Transcript Unit} (h : ∀ b, (f b).Filled) (bs : List β) :
    (forEach f bs).Filled := by
  induction bs with
  | nil => exact filled_done ()
  | cons b bs ih => exact (h b).bind fun _ => ih

end Transcript

namespace Setting

open Transcript

variable {setting : Setting} {eval? : Option Evaluator}

theorem filled_withinSection {name : String} {nesting : Nat} {body : Nat → Transcript Unit}
    (h : ∀ n, (body n).Filled) : (withinSection name nesting body).Filled := by
  unfold withinSection
  split
  · exact h _
  · exact filled_failed _

theorem filled_evaluateLambda (name : String) (id : LambdaId) (raw : String) (top : Value)
    (nesting : Nat) : (setting.evaluateLambda eval? name id raw top nesting).Filled := by
  unfold evaluateLambda
  split
  · exact filled_write _
  · exact filled_failed _

theorem filled_evaluatePartial (h : ∀ eval ∈ eval?, ∀ nodes scopes n, (eval nodes scopes n).Filled)
    (name : String) (top : Value) (nesting : Nat) :
    (setting.evaluatePartial eval? name top nesting).Filled := by
  unfold evaluatePartial
  split
  · exact filled_done ()
  · exact filled_failed _
  · split
    · exact filled_failed _
    · exact h _ rfl _ _ _

theorem filled_evaluateSection {children : Scopes → Nat → Transcript Unit}
    (h : ∀ scopes n, (children scopes n).Filled) (name : String) (inverted : Bool) (raw : String)
    (scopes : Scopes) (nesting : Nat) :
    (setting.evaluateSection eval? children name inverted raw scopes nesting).Filled := by
  have once (inner : Scopes) : (withinSection name nesting (children inner)).Filled :=
    filled_withinSection (h inner)
  unfold evaluateSection
  split
  all_goals first
    | exact once _
    | exact filled_done ()
    | exact filled_evaluateLambda _ _ _ _ _
    | skip
  · exact filled_withinSection fun n => filled_forEach (fun item => h _ n) _
  · split
    · exact once _
    · exact filled_done ()

mutual

theorem filled_evaluate (h : ∀ eval ∈ eval?, ∀ nodes scopes n, (eval nodes scopes n).Filled)
    (node : Node) (scopes : Scopes) (nesting : Nat) :
    (setting.evaluate eval? node scopes nesting).Filled := by
  cases node with
  | text s => exact filled_write s
  | variableTag name escaped => exact filled_write _
  | inclusion name => exact filled_evaluatePartial h name scopes.top nesting
  | block name inverted raw children =>
    exact filled_evaluateSection (fun s n => filled_evaluateAll h children s n) name inverted raw
      scopes nesting

theorem filled_evaluateAll (h : ∀ eval ∈ eval?, ∀ nodes scopes n, (eval nodes scopes n).Filled)
    (nodes : List Node) (scopes : Scopes) (nesting : Nat) :
    (setting.evaluateAll eval? nodes scopes nesting).Filled := by
  cases nodes with
  | nil => exact filled_done ()
  | cons node nodes =>
    exact (filled_evaluate h node scopes nesting).bind fun _ =>
      filled_evaluateAll h nodes scopes nesting

end

theorem filled_evaluator (depth : Nat) (nodes : List Node) (scopes : Scopes) (nesting : Nat) :
    (setting.evaluator depth nodes scopes nesting).Filled := by
  induction depth generalizing nodes scopes nesting with
  | zero =>
    refine filled_evaluateAll ?_ nodes scopes nesting
    rintro eval ⟨⟩
  | succ depth ih =>
    refine filled_evaluateAll ?_ nodes scopes nesting
    rintro eval ⟨rfl⟩
    exact ih

/-- A rendering of a compiled template writes no empty chunk. -/
theorem filled_rendering (template : Template) (view : Value) :
    (setting.rendering template.program view).transcript.Filled := by
  obtain ⟨nodes, _, hops⟩ := nodes_of_parse template.compiled
  have refines := setting.refines_runner setting.depthLimit nodes (.ofView view) 0
  rw [rendering, hops, refines]
  exact filled_evaluator _ _ _ _

end Setting

theorem Pool.stream_eq_deliver {σ : Type} (pool : Pool) (template : Template) (view : Value)
    (partials : Partials) (lambdas : Lambdas) (sink : Sink σ) (state : σ) :
    ((pool.stream template view partials lambdas sink state).1,
      (pool.stream template view partials lambdas sink state).2.1) =
        ((Setting.mk partials lambdas template.options.partialDepthLimit).rendering
          template.program view).transcript.deliver sink state :=
  Rendering.run_eq_deliver Loader.faithful_cached sink _ state _

/-- A rendering is the same for all sinks up to where they stop. A sink that always wants more gets
all chunks, none of them empty, and any other gets these up to the first at which it stops; the
result says that it stopped, or else is that of the whole rendering. No other call is made, and the
one of the end only after all chunks of a rendering without an error. A rendering to a text joins
the chunks. -/
theorem stream_up_to_stop (template : Template) (view : Value) (partials : Partials)
    (lambdas : Lambdas) :
    ∃ (chunks : List String) (ending : Except RenderError Unit),
      (∀ pool : Pool,
        let r := pool.stream template view partials lambdas .patient []
        (r.1, r.2.1) = (ending.map fun _ => .finished, chunks)) ∧
      (∀ chunk ∈ chunks, chunk ≠ "") ∧
      (∀ (pool : Pool) {σ : Type} (sink : Sink σ) (s : σ),
        let r := pool.stream template view partials lambdas sink s
        let t := pool.stream template view partials lambdas sink.traced (s, [])
        (r.1, r.2.1) = (t.1, t.2.1.1) ∧
          ∃ heard stopped, sink.Hears s chunks heard stopped ∧
            (stopped = true ↔ ∃ before chunk rest, chunks = before ++ chunk :: rest ∧
              sink.StopsAt s before chunk) ∧
            t.1 = (if stopped then .ok .stopped else ending.map fun _ => .finished) ∧
            t.2.1.2 = SinkCall.course heard t.1) ∧
      ∀ pool : Pool, (pool.render template view partials lambdas).1 =
        ending.map fun _ => String.join chunks := by
  let setting : Setting := ⟨partials, lambdas, template.options.partialDepthLimit⟩
  let course := (setting.rendering template.program view).transcript
  have filled : course.Filled := setting.filled_rendering template view
  refine ⟨course.chunks, course.ending, ?_, filled, ?_, ?_⟩
  · intro pool r
    have hr := pool.stream_eq_deliver template view partials lambdas .patient []
    exact hr.trans (Sink.feed_patient course.ending course.chunks)
  · intro pool σ sink s r t
    obtain ⟨heard, stopped, hears⟩ := sink.exists_hears s course.chunks
    have hr : (r.1, r.2.1) = sink.feed course.ending course.chunks s :=
      pool.stream_eq_deliver template view partials lambdas sink s
    have ht : (t.1, t.2.1) = sink.traced.feed course.ending course.chunks (s, []) :=
      pool.stream_eq_deliver template view partials lambdas sink.traced (s, [])
    rw [Sink.feed_traced hears] at ht
    have hresult : t.1 = (sink.feed course.ending course.chunks s).1 := congrArg (·.1) ht
    have hstate : t.2.1.1 = (sink.feed course.ending course.chunks s).2 := congrArg (·.2.1) ht
    have hcalls : t.2.1.2 = SinkCall.course heard (sink.feed course.ending course.chunks s).1 :=
      congrArg (·.2.2) ht
    refine ⟨?_, heard, stopped, hears, hears.stopped_iff, ?_, ?_⟩
    · rw [hr, hresult, hstate]
    · rw [hresult, Sink.result_of_hears hears]
    · rw [hcalls, hresult]
  · intro pool
    have hr := pool.stream_eq_deliver template view partials lambdas .joined ""
    rw [Transcript.deliver, Sink.feed_joined] at hr
    obtain ⟨hresult, htext⟩ := Prod.mk.inj hr
    simp only [Pool.render, hresult, htext]
    cases course.ending <;> rfl

end Mustache
