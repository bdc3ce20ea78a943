import Mustache.Proofs.Failing

namespace Mustache

/-- A reply that is over with the first error that it is given. -/
inductive Reply.Forwarding : Reply → Prop where
  | done (result : Except Error String) : Forwarding (.done result)
  | render {template : String} {next : Except Error String → Reply}
      (ok : ∀ text, Forwarding (next (.ok text)))
      (error : ∀ e, next (.error e) = .done (.error e)) : Forwarding (.render template next)

def Task.Forwarding : Task → Prop
  | lambda _ _ _ reply => reply.Forwarding
  | _ => True

namespace Setting

variable {setting : Setting} {base depth depth' : Nat} {start task next : Task}
  {before events : List Event}

theorem forwarding_sectionTask (h : ∀ id call, (setting.lambdas.onSection id call).Forwarding)
    (name : String) (inverted : Bool) (raw : String) (body : List Op) (scopes : Scopes)
    (nesting : Nat) :
    (setting.sectionTask name inverted raw body scopes nesting).Forwarding := by
  unfold sectionTask
  split
  case h_5 id _ => exact h id _
  all_goals trivial

theorem Leads.forwarding (h : ∀ id call, (setting.lambdas.onSection id call).Forwarding)
    (leads : setting.Leads depth task events depth' next) (forwarding : task.Forwarding) :
    next.Forwarding := by
  have answered {template : String} {go : Except Error String → Reply}
      (hreply : (Reply.render template go).Forwarding) (result : Except Error String) :
      (go result).Forwarding := by
    cases hreply with
    | render ok error =>
      cases result with
      | ok text => exact ok text
      | error e =>
        rw [error e]
        exact .done _
  cases leads with
  | head op ops scopes =>
    cases op with
    | openSection => exact forwarding_sectionTask h _ _ _ _ _ _
    | _ => trivial
  | denied | helped => exact answered forwarding _
  | _ => trivial

/-- Lambdas of which each is over with the first error it is given return that error in every
rendering. -/
theorem forwards_of_replies (h : ∀ id call, (setting.lambdas.onSection id call).Forwarding)
    (forwarding : start.Forwarding) : setting.Forwards base start := by
  intro before depth name top nesting template next e reached given
  clear given
  have reply : (Task.lambda name top nesting (.render template next)).Forwarding := by
    generalize Task.lambda name top nesting (.render template next) = task at reached
    induction reached with
    | start => exact forwarding
    | step _ leads ih => exact leads.forwarding h ih
  cases reply with
  | render ok error => exact error e

end Setting

/-- The sink of a rendering gets the chunks of its run. -/
theorem Pool.stream_of_runs {σ : Type} (pool : Pool) (template : Template) (view : Value)
    {partials : Partials} {lambdas : Lambdas} {trace : List Event}
    {ending : Except RenderError Unit}
    (runs : (Setting.mk partials lambdas template.options.partialDepthLimit).Runs 0
      (.ops template.program.ops (.ofView view) 0) trace ending) (sink : Sink σ) (s : σ) :
    let r := pool.stream template view partials lambdas sink s
    (r.1, r.2.1) = sink.feed ending (Event.chunks trace) s := by
  intro r
  have delivered := pool.stream_eq_deliver template view partials lambdas sink s
  rw [Rendering.transcript_eq_course, Setting.course_rendering runs, Event.chunks_seen] at delivered
  exact delivered

/-- A sink that is handed an error has got all chunks before it. -/
theorem Sink.feed_eq_error {σ : Type} {sink : Sink σ} {s s' : σ} {chunks : List String}
    {ending : Except RenderError Unit} {err : RenderError}
    (h : sink.feed ending chunks s = (.error err, s')) :
    ending = .error err ∧
      sink.traced.feed ending chunks (s, []) = (.error err, s', chunks.map .chunk) := by
  obtain ⟨heard, stopped, hears⟩ := sink.exists_hears s chunks
  have hresult := Sink.result_of_hears hears ending
  rw [h] at hresult
  have htraced := Sink.feed_traced hears ending
  rw [h] at htraced
  cases hears with
  | some => cases hresult
  | all =>
    cases ending with
    | ok _ => cases hresult
    | error e =>
      cases hresult
      exact ⟨rfl, htraced⟩

/-- Where all section lambdas return the first error they are given as it is, a rendering fails of
the first thing that goes wrong, wrapped once for each section lambda that has a template rendered
then, the outermost first, and for the lambda that is told of it or fails on its own. Partials and
sections add nothing. The sink has got the chunks put out before that outside of renderings for
lambdas, and no others. Every point at which something goes wrong, when all before it has gone well,
is what the rendering fails of. -/
theorem errors_wrapped_for_lambdas (template : Template) (view : Value) (partials : Partials)
    (lambdas : Lambdas)
    (forwards : (Setting.mk partials lambdas template.options.partialDepthLimit).Forwards 0
      (.ops template.program.ops (.ofView view) 0)) :
    let setting : Setting := ⟨partials, lambdas, template.options.partialDepthLimit⟩
    let start : Task := .ops template.program.ops (.ofView view) 0
    (∀ (pool : Pool) {σ : Type} (sink : Sink σ) (s : σ) (err : RenderError),
      (pool.stream template view partials lambdas sink s).1 = .error err →
        ∃ names heard depth task e,
          setting.Comes 0 start names heard depth task ∧ setting.Raises depth task e ∧
          Error.render err = .wrapped (names ++ task.invoking) e ∧
          (pool.stream template view partials lambdas sink.traced (s, [])).2.1.2 =
            heard.map .chunk) ∧
    ∀ names heard depth task e,
      setting.Comes 0 start names heard depth task → setting.Raises depth task e →
        ∃ err, Error.render err = .wrapped (names ++ task.invoking) e ∧
          ∀ (pool : Pool) {σ : Type} (sink : Sink σ) (s : σ),
            let r := pool.stream template view partials lambdas sink s
            (r.1, r.2.1) = sink.feed (.error err) heard s := by
  intro setting start
  obtain ⟨trace, ending, runs⟩ := setting.ends 0 start
  constructor
  · intro pool σ sink s err herr
    have fed := pool.stream_of_runs template view runs sink s
    have traced := pool.stream_of_runs template view runs sink.traced (s, [])
    have hfeed : sink.feed ending (Event.chunks trace) s =
        (.error err, (pool.stream template view partials lambdas sink s).2.1) := by
      rw [← herr]
      exact fed.symm
    obtain ⟨hending, hcalls⟩ := Sink.feed_eq_error hfeed
    rw [hcalls] at traced
    obtain ⟨names, depth, task, e, come, raises, hwrapped⟩ := runs.failed hending forwards .start
    exact ⟨names, _, depth, task, e, come, raises, hwrapped, congrArg (·.2.2) traced⟩
  · intro names heard depth task e come raises
    obtain ⟨before, reached⟩ := come.reaches
    obtain ⟨inner, failure, failing, hfailure, hsilent⟩ := raises.runs (fun _ => forwards) reached
    obtain ⟨whole, err, fails, herr, hheard⟩ := come.fails (fun _ => forwards) failing
    rw [Event.heard_of_silent hsilent, List.append_nil] at hheard
    refine ⟨err, ?_, ?_⟩
    · rw [herr, hfailure, Error.wrapped_append]
    · intro pool σ sink s
      have fed := pool.stream_of_runs template view fails sink s
      rw [hheard] at fed
      exact fed

/-- A partial that cannot be compiled, in the section of one lambda inside that of another. -/
theorem broken_partial_in_lambdas :
    ∃ template : Template, template.text = "a{{#s}}b{{#t}}c{{>p}}{{/t}}{{/s}}" ∧
      let view := Value.map [("s", .sectionLambda 0), ("t", .sectionLambda 0)]
      let partials := Partials.ofSources [("p", "{{/p}}")]
      let lambdas : Lambdas := ⟨fun _ v => v, fun _ call => .render call.text .done⟩
      let setting : Setting := ⟨partials, lambdas, template.options.partialDepthLimit⟩
      let r := Pool.initial.stream template view partials lambdas Sink.patient.traced ([], [])
      ∃ err, r.1 = .error err ∧ r.2.1.1 = ["a"] ∧ ∃ names heard depth task e,
        setting.Comes 0 (.ops template.program.ops (.ofView view) 0) names heard depth task ∧
        setting.Raises depth task e ∧ Error.render err = .wrapped (names ++ task.invoking) e := by
  let program : Program := ⟨[.literal "a", .openSection "s" false 5 "b{{#t}}c{{>p}}{{/t}}",
    .literal "b", .openSection "t" false 2 "c{{>p}}", .literal "c", .inclusion "p",
    .closeSection "t", .closeSection "s"]⟩
  have compiles : parse "a{{#s}}b{{#t}}c{{>p}}{{/t}}{{/s}}" .standard = .ok program := by
    rw [parse_eq_ok_iff]
    decide +kernel
  refine ⟨⟨_, .standard, program, ⟨0, 0⟩, compiles⟩, rfl, ?_⟩
  intro view partials lambdas setting r
  have outcome :
      let o := ((Setting.mk partials lambdas 64).rendering program view).run Sink.patient.traced
        .cached ([], []) (Pool.initial.storeOf? 0)
      o.sink.1 = ["a"] ∧ o.result.toOption = none := by
    decide +kernel
  obtain ⟨written, unfinished⟩ : r.2.1.1 = ["a"] ∧ r.1.toOption = none := outcome
  have forwarding : ∀ id call, (lambdas.onSection id call).Forwarding :=
    fun _ call => .render (fun text => .done (.ok text)) fun _ => rfl
  have forwards : setting.Forwards 0 (.ops program.ops (.ofView view) 0) :=
    Setting.forwards_of_replies forwarding trivial
  cases hr : r.1 with
  | ok completion =>
    rw [hr] at unfinished
    cases unfinished
  | error err =>
    have found := (errors_wrapped_for_lambdas _ view partials lambdas forwards).1 .initial
      Sink.patient.traced ([], []) err hr
    obtain ⟨names, heard, depth, task, e, come, raises, hwrapped, -⟩ := found
    exact ⟨err, rfl, written, names, heard, depth, task, e, come, raises, hwrapped⟩

end Mustache
