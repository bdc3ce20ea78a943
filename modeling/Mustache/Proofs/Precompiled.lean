import Mustache.Proofs.Budgets
import Mustache.Proofs.Wrapping

namespace Mustache

/-- An entry of a table of partials and what may stand in its place: a source can be compiled in
advance with the delimiters and the white space of standard options, through any cache. -/
inductive Partial.Precompiled : Partial → Partial → Prop where
  | same (origin : Partial) : Precompiled origin origin
  | compiled {text : String} {options : Options} {pool pool' : Pool} {handle : Handle}
      {template : Template} (tags : options.tags = .standard)
      (plain : options.preserveWhitespace = false)
      (compiles : pool.compile? handle text options = some (.ok template, pool')) :
      Precompiled (.source text) (.compiled template)

def Partials.Precompiled (table table' : Partials) : Prop :=
  ∀ name, Option.Rel Partial.Precompiled (table.get? name) (table'.get? name)

/-- Two tables have entries for the same name, which come to the same program or the same error if
there is room for one. -/
def Partials.SameAt (table table' : Partials) (name : String) (room : Prop) : Prop :=
  Option.Rel (fun origin origin' => room → origin'.program = origin.program) (table.get? name)
    (table'.get? name)

namespace Partials

variable {table table' : Partials} {name : String} {room : Prop}

theorem SameAt.absent (h : table.SameAt table' name room) (absent : table.get? name = none) :
    table'.get? name = none := by
  unfold SameAt at h
  rw [absent] at h
  generalize table'.get? name = found at h
  cases h
  rfl

theorem SameAt.present (h : table.SameAt table' name room) {origin : Partial}
    (present : table.get? name = some origin) :
    ∃ origin', table'.get? name = some origin' ∧ (room → origin'.program = origin.program) := by
  unfold SameAt at h
  rw [present] at h
  generalize table'.get? name = found at h
  cases h with
  | some same => exact ⟨_, rfl, same⟩

theorem lookup_insert_of_ne {other : String} (h : other ≠ name) (origin : Partial) :
    (table.insert name origin).get? other = table.get? other :=
  Entries.lookup_put_of_ne h origin table.entries

theorem precompiled_insert {origin origin' : Partial} (present : table.get? name = some origin)
    (h : origin.Precompiled origin') : table.Precompiled (table.insert name origin') := by
  intro other
  by_cases hother : other = name
  · have found : (table.insert name origin').get? name = some origin' :=
      Entries.lookup_put_self name origin' table.entries
    rw [hother, present, found]
    exact .some h
  · rw [lookup_insert_of_ne hother]
    cases table.get? other with
    | none => exact .none
    | some entry => exact .some (.same entry)

end Partials

theorem Pool.program_of_compile? {pool pool' : Pool} {handle : Handle} {text : String}
    {options : Options} {template : Template}
    (h : pool.compile? handle text options = some (.ok template, pool')) :
    parse text options = .ok template.program := by
  obtain ⟨store, -, hcompile⟩ := Option.map_eq_some_iff.mp h
  have compiled : (store.compile text options).1 = .ok template := congrArg (·.1) hcompile
  rw [← store.map_program_compile, compiled]
  rfl

theorem Partial.Precompiled.program_eq {origin origin' : Partial} (h : origin.Precompiled origin') :
    origin'.program = origin.program := by
  cases h with
  | same => rfl
  | @compiled text options _ _ _ template tags plain compiles =>
    have parsed := parse_eq_ok_iff.mp (Pool.program_of_compile? compiles)
    have same : Program.ofTemplate text.toList options =
        Program.ofTemplate text.toList .standard := by
      simp only [Program.ofTemplate, Options.kept, tags, plain]
      rfl
    rw [same] at parsed
    exact (parse_eq_ok_iff.mpr parsed).symm

namespace Setting

def withPartials (setting : Setting) (table : Partials) : Setting :=
  { setting with partials := table }

variable {setting : Setting} {table : Partials} {base depth : Nat} {start task : Task}
  {name : String} {before trace : List Event} {ending : Except RenderError Unit}

/-- The tables agree on every inclusion that a task comes to. -/
def Agrees (setting : Setting) (table : Partials) (base : Nat) (start : Task) : Prop :=
  ∀ before depth name top nesting,
    setting.Reaches base start before depth (.inclusion name top nesting) →
    setting.partials.SameAt table name (depth < setting.depthLimit)

/-- An attempt comes to the same for entries of the same program. -/
theorem Admits.withPartials {origin origin' : Partial} {first : List Event}
    {admitted : Except Error Program} (h : setting.Admits depth name origin first admitted)
    (same : depth < setting.depthLimit → origin'.program = origin.program) :
    ∃ first', (setting.withPartials table).Admits depth name origin' first' admitted := by
  have entered (free : depth < (setting.withPartials table).depthLimit) {program : Program}
      (h : origin'.program = .ok program) :
      ∃ first', (setting.withPartials table).Admits depth name origin' first' (.ok program) := by
    cases origin' with
    | source text => exact ⟨_, .source free h⟩
    | compiled template =>
      cases h
      exact ⟨_, .compiled free⟩
  cases h with
  | refused full => exact ⟨_, .refused full⟩
  | compiled free => exact entered free (same free)
  | source free parsed => exact entered free ((same free).trans parsed)
  | broken free parsed =>
    have broken : origin'.program = .error _ := (same free).trans parsed
    cases origin' with
    | source text => exact ⟨_, .broken free broken⟩
    | compiled template => cases broken

/-- A render helper does not look at the table itself. -/
theorem Admits.helper_withPartials {template : String} {first : List Event}
    {admitted : Except Error Program}
    (h : setting.Admits depth name (.source template) first admitted) :
    (setting.withPartials table).Admits depth name (.source template) first admitted := by
  cases h with
  | refused full => exact .refused full
  | source free parsed => exact .source free parsed
  | broken free parsed => exact .broken free parsed

/-- A run is the same with another table that agrees with its own wherever it comes to, but for what
it takes to compile. -/
theorem Runs.withPartials (h : setting.Runs depth task trace ending)
    (agrees : setting.Agrees table base start)
    (reached : setting.Reaches base start before depth task) :
    ∃ trace', (setting.withPartials table).Runs depth task trace' ending ∧
      Event.chunks trace' = Event.chunks trace := by
  induction h generalizing before with
  | write text => exact ⟨_, .write text, rfl⟩
  | finished scopes => exact ⟨_, .finished scopes, rfl⟩
  | broke head ih =>
    obtain ⟨first', head', hchunks⟩ := ih (reached.step (.head _ _ _))
    exact ⟨_, .broke head', hchunks⟩
  | wentOn head tail ihhead ihtail =>
    obtain ⟨first', head', hfirst⟩ := ihhead (reached.step (.head _ _ _))
    obtain ⟨later', tail', hlater⟩ := ihtail (reached.step (.tail head))
    refine ⟨_, .wentOn head' tail', ?_⟩
    rw [Event.chunks_append, Event.chunks_append, hfirst, hlater]
  | tooNested full => exact ⟨_, .tooNested full, rfl⟩
  | nested free inside ih =>
    obtain ⟨trace', inside', hchunks⟩ := ih (reached.step (.inside free))
    refine ⟨_, .nested free inside', ?_⟩
    rw [Event.chunks_body, Event.chunks_body, hchunks]
  | noBody body => exact ⟨_, .noBody body, rfl⟩
  | bodyBroke head ih =>
    obtain ⟨first', head', hchunks⟩ := ih (reached.step (.body _ _ _))
    exact ⟨_, .bodyBroke head', hchunks⟩
  | bodyEnded head tail ihhead ihtail =>
    obtain ⟨first', head', hfirst⟩ := ihhead (reached.step (.body _ _ _))
    obtain ⟨later', tail', hlater⟩ := ihtail (reached.step (.others head))
    refine ⟨_, .bodyEnded head' tail', ?_⟩
    rw [Event.chunks_append, Event.chunks_append, hfirst, hlater]
  | missing absent =>
    exact ⟨_, .missing ((agrees _ _ _ _ _ reached).absent absent), rfl⟩
  | barred present admits =>
    obtain ⟨origin', present', same⟩ := (agrees _ _ _ _ _ reached).present present
    obtain ⟨first', admits'⟩ := admits.withPartials same
    refine ⟨_, .barred present' admits', ?_⟩
    rw [admits.chunks_eq, admits'.chunks_eq]
  | included present admits inside ih =>
    obtain ⟨origin', present', same⟩ := (agrees _ _ _ _ _ reached).present present
    obtain ⟨first', admits'⟩ := admits.withPartials same
    obtain ⟨trace', inside', hchunks⟩ := ih (reached.step (.included present admits))
    refine ⟨_, .included present' admits' inside', ?_⟩
    rw [Event.chunks_append, Event.chunks_append, Event.chunks_append, Event.chunks_append,
      admits.chunks_eq, admits'.chunks_eq, hchunks]
  | answered text => exact ⟨_, .answered text, rfl⟩
  | lambdaFailed e => exact ⟨_, .lambdaFailed e, rfl⟩
  | denied admits tail ih =>
    obtain ⟨later', tail', hlater⟩ := ih (reached.step (.denied admits))
    refine ⟨_, .denied admits.helper_withPartials tail', ?_⟩
    rw [Event.chunks_append, Event.chunks_append, hlater]
  | helped admits inside tail ihinside ihtail =>
    obtain ⟨trace', inside', htrace⟩ := ihinside (reached.step (.helper admits))
    obtain ⟨later', tail', hlater⟩ := ihtail (reached.step (.helped admits inside))
    rw [← htrace] at tail'
    refine ⟨_, .helped admits.helper_withPartials inside' tail', ?_⟩
    rw [admits.chunks_around, admits.chunks_around, hlater]

theorem agrees_of_precompiled (h : setting.partials.Precompiled table) :
    setting.Agrees table base start := by
  intro before depth name top nesting _
  have related := h name
  unfold Partials.SameAt
  generalize setting.partials.get? name = found, table.get? name = found' at related
  cases related with
  | none => exact .none
  | some related => exact .some fun _ => related.program_eq

/-- A table that has another entry for one name agrees where there is no room for that entry, or
where the name is not come to. -/
theorem agrees_of_unmet {origin : Partial} (present : setting.partials.get? name = some origin)
    (others : ∀ other, other ≠ name → table.get? other = setting.partials.get? other)
    (unmet : ∀ before depth top nesting,
      setting.Reaches base start before depth (.inclusion name top nesting) →
      setting.depthLimit ≤ depth ∧ (table.get? name).isSome) :
    setting.Agrees table base start := by
  intro before depth other top nesting reached
  unfold Partials.SameAt
  by_cases hname : other = name
  · subst hname
    obtain ⟨full, hsome⟩ := unmet _ _ _ _ reached
    obtain ⟨origin', present'⟩ := Option.isSome_iff_exists.mp hsome
    rw [present, present']
    exact .some fun free => absurd free (Nat.not_lt.mpr full)
  · rw [others other hname]
    cases setting.partials.get? other with
    | none => exact .none
    | some origin => exact .some fun _ => rfl

end Setting

/-- With a table that agrees wherever the rendering comes to, a sink gets the same. -/
theorem Pool.stream_eq_of_agrees {σ : Type} (pool pool' : Pool) (template : Template) (view : Value)
    {partials partials' : Partials} {lambdas : Lambdas}
    (agrees : (Setting.mk partials lambdas template.options.partialDepthLimit).Agrees partials' 0
      (.ops template.program.ops (.ofView view) 0)) (sink : Sink σ) (s : σ) :
    let r := pool.stream template view partials lambdas sink s
    let r' := pool'.stream template view partials' lambdas sink s
    (r'.1, r'.2.1) = (r.1, r.2.1) := by
  intro r r'
  let setting : Setting := ⟨partials, lambdas, template.options.partialDepthLimit⟩
  obtain ⟨trace, ending, runs⟩ := setting.ends 0 (.ops template.program.ops (.ofView view) 0)
  obtain ⟨trace', runs', hchunks⟩ := runs.withPartials agrees .start
  have fed := pool.stream_of_runs template view runs sink s
  have fed' := pool'.stream_of_runs template view runs' sink s
  rw [hchunks] at fed'
  exact fed'.trans fed.symm

/-- Whether a partial is kept as a source or was compiled before, in whatever cache and with
whatever name and limit, cannot be told from a rendering: the sink gets the same calls, and the
result is the same, errors included. A source that does not compile is an error only when it is come
to with room to include it, and then the error is the one that compiling it with standard options
gives, wrapped for the section lambdas that have a template rendered; the sink has got what was put
out before. In a rendering that does not come to it with room, anything else may stand in its place,
and where it is not come to at all it need not be there. -/
theorem precompiled_partials_interchangeable (template : Template) (view : Value)
    (partials : Partials) (lambdas : Lambdas) :
    let setting : Setting := ⟨partials, lambdas, template.options.partialDepthLimit⟩
    let start : Task := .ops template.program.ops (.ofView view) 0
    (∀ partials' : Partials, partials.Precompiled partials' →
      ∀ (pool pool' : Pool) {σ : Type} (sink : Sink σ) (s : σ),
        let r := pool.stream template view partials lambdas sink s
        let r' := pool'.stream template view partials' lambdas sink s
        (r'.1, r'.2.1) = (r.1, r.2.1)) ∧
    ∀ name text e, partials.get? name = some (.source text) → parse text .standard = .error e →
      (∀ depth top nesting, depth < setting.depthLimit →
        setting.Runs depth (.inclusion name top nesting)
          [.attempt name, .enter name, .compile text, .leave name]
          (.error (.brokenPartial name e))) ∧
      (∀ names heard depth top nesting, (names ≠ [] → setting.Forwards 0 start) →
        setting.Comes 0 start names heard depth (.inclusion name top nesting) →
        depth < setting.depthLimit →
          ∃ err, Error.render err = .wrapped names (.render (.brokenPartial name e)) ∧
            ∀ (pool : Pool) {σ : Type} (sink : Sink σ) (s : σ),
              let r := pool.stream template view partials lambdas sink s
              (r.1, r.2.1) = sink.feed (.error err) heard s) ∧
      ∀ partials' : Partials,
        (∀ other, other ≠ name → partials'.get? other = partials.get? other) →
        (∀ before depth top nesting,
          setting.Reaches 0 start before depth (.inclusion name top nesting) →
          setting.depthLimit ≤ depth ∧ (partials'.get? name).isSome) →
        ∀ (pool pool' : Pool) {σ : Type} (sink : Sink σ) (s : σ),
          let r := pool.stream template view partials lambdas sink s
          let r' := pool'.stream template view partials' lambdas sink s
          (r'.1, r'.2.1) = (r.1, r.2.1) := by
  intro setting start
  constructor
  · intro partials' related pool pool' σ sink s
    exact pool.stream_eq_of_agrees pool' template view
      (Setting.agrees_of_precompiled related) sink s
  · intro name text e present parsed
    have broken : ∀ depth top nesting, depth < setting.depthLimit →
        setting.Runs depth (.inclusion name top nesting)
          [.attempt name, .enter name, .compile text, .leave name]
          (.error (.brokenPartial name e)) :=
      fun _ _ _ free => .barred present (.broken free parsed)
    refine ⟨broken, ?_, ?_⟩
    · intro names heard depth top nesting forwards come free
      obtain ⟨whole, err, fails, herr, hheard⟩ :=
        come.fails forwards (broken depth top nesting free)
      rw [Event.heard_of_silent rfl, List.append_nil] at hheard
      refine ⟨err, herr, fun pool σ sink s => ?_⟩
      have fed := pool.stream_of_runs template view fails sink s
      rw [hheard] at fed
      exact fed
    · intro partials' others unmet pool pool' σ sink s
      have agrees : setting.Agrees partials' 0 start :=
        Setting.agrees_of_unmet present others unmet
      exact pool.stream_eq_of_agrees pool' template view agrees sink s

/-- A partial that is compiled before with no room for inclusions of its own, and a source behind it
that does not compile, which only a limit keeps from being looked at. -/
theorem precompiled_before_broken_source :
    ∃ (t main shallow : Template) (pool : Pool) (e : CompileError),
      Pool.initial.compile? .shared "x{{>q}}" { file := some "f", partialDepthLimit := 0 } =
        some (.ok t, pool) ∧ main.text = "{{>p}}{{>z}}" ∧ shallow.text = "{{>z}}" ∧
      let partials := Partials.ofSources [("p", "x{{>q}}"), ("q", "y"), ("z", "{{/z}}")]
      let view := Value.map []
      let lambdas : Lambdas := ⟨fun _ v => v, fun _ call => .done (.ok call.text)⟩
      let r := pool.stream main view (partials.insert "p" (.compiled t)) lambdas .patient []
      let low := pool.stream shallow view partials lambdas .patient []
      let low' := pool.stream shallow view (partials.insert "z" (.source "y")) lambdas .patient []
      (r.1, r.2.1) = (.error (.brokenPartial "z" e), ["x", "y"]) ∧
        (low'.1, low'.2.1) = (low.1, low.2.1) := by
  let options : Options := { file := some "f", partialDepthLimit := 0 }
  have hp : parse "x{{>q}}" .standard = .ok ⟨[.literal "x", .inclusion "q"]⟩ := by
    rw [parse_eq_ok_iff]
    decide +kernel
  have hq : parse "y" .standard = .ok ⟨[.literal "y"]⟩ := by
    rw [parse_eq_ok_iff]
    decide +kernel
  have hmain : parse "{{>p}}{{>z}}" .standard = .ok ⟨[.inclusion "p", .inclusion "z"]⟩ := by
    rw [parse_eq_ok_iff]
    decide +kernel
  have hshallow : parse "{{>z}}" options = .ok ⟨[.inclusion "z"]⟩ := by
    rw [parse_eq_ok_iff]
    decide +kernel
  obtain ⟨e, broken⟩ : ∃ e, parse "{{/z}}" .standard = .error e := by
    have refused : (Program.ofTemplate "{{/z}}".toList .standard).toOption = none := by
      decide +kernel
    cases h : parse "{{/z}}" .standard with
    | error e => exact ⟨e, rfl⟩
    | ok program => exact nomatch refused.symm.trans (parse_eq_ok_iff.mp h)
  obtain ⟨t, pool, compiles⟩ :
      ∃ t pool, Pool.initial.compile? .shared "x{{>q}}" options = some (.ok t, pool) := by
    have hcompile : Pool.initial.compile? .shared "x{{>q}}" options =
        some (((Store.empty 0).compile "x{{>q}}" options).map id Pool.initial.update) := rfl
    rcases (Store.empty 0).compile_inv "x{{>q}}" options with
      ⟨_, hp', -⟩ | ⟨_, -, hkept, -⟩ | ⟨t, -, -, -, -, hc⟩
    · have parsed : parse "x{{>q}}" options = .ok ⟨[.literal "x", .inclusion "q"]⟩ := by
        rw [parse_eq_ok_iff] at hp ⊢
        exact hp
      cases hp'.symm.trans parsed
    · cases hkept
    · rw [hc] at hcompile
      exact ⟨t, _, hcompile⟩
  refine ⟨t, ⟨_, .standard, _, ⟨0, 0⟩, hmain⟩, ⟨_, options, _, ⟨0, 0⟩, hshallow⟩, pool, e,
    compiles, rfl, rfl, ?_⟩
  intro partials view lambdas r low low'
  have presentP : partials.get? "p" = some (.source "x{{>q}}") := by decide +kernel
  have presentQ : partials.get? "q" = some (.source "y") := by decide +kernel
  have presentZ : partials.get? "z" = some (.source "{{/z}}") := by decide +kernel
  have related : partials.Precompiled (partials.insert "p" (.compiled t)) :=
    Partials.precompiled_insert presentP (.compiled rfl rfl compiles)
  have before : (Setting.mk partials lambdas 64).Runs 0 (.inclusion "p" view 0) _ (.ok ()) :=
    .included presentP (.source (by decide) hp) (.wentOn (.write "x") (.wentOn
      (.included presentQ (.source (by decide) hq) (.wentOn (.write "y") (.finished _)))
      (.finished _)))
  have behind : (Setting.mk partials lambdas 64).Comes 0
      (.ops [.inclusion "p", .inclusion "z"] (.ofView view) 0) [] _ 0
      (.ops [.inclusion "z"] (.ofView view) 0) := .step .start rfl (.tail before)
  have come : (Setting.mk partials lambdas 64).Comes 0
      (.ops [.inclusion "p", .inclusion "z"] (.ofView view) 0) [] ["x", "y"] 0
      (.inclusion "z" view 0) := behind.step rfl (.head (.inclusion "z") [] (.ofView view))
  constructor
  · obtain ⟨same, brokenZ⟩ := precompiled_partials_interchangeable
      ⟨_, .standard, _, ⟨0, 0⟩, hmain⟩ view partials lambdas
    obtain ⟨-, raised, -⟩ := brokenZ "z" "{{/z}}" e presentZ broken
    obtain ⟨err, herr, fed⟩ := raised [] ["x", "y"] 0 view 0 (fun h => absurd rfl h) come
      (show 0 < 64 by decide)
    cases herr
    refine (same _ related pool pool .patient []).trans ((fed pool .patient []).trans ?_)
    rw [Sink.feed_patient]
    rfl
  · obtain ⟨-, brokenZ⟩ := precompiled_partials_interchangeable
      ⟨_, options, _, ⟨0, 0⟩, hshallow⟩ view partials lambdas
    obtain ⟨-, -, harmless⟩ := brokenZ "z" "{{/z}}" e presentZ broken
    have others : ∀ other, other ≠ "z" →
        (partials.insert "z" (.source "y")).get? other = partials.get? other :=
      fun _ hother => Partials.lookup_insert_of_ne hother _
    refine harmless _ others (fun _ depth _ _ _ => ⟨Nat.zero_le depth, ?_⟩) pool pool .patient []
    decide +kernel

end Mustache
