import Mustache.Proofs.DepthLimit

namespace Mustache

namespace Rendering

variable {α β : Type}

/-- The second rendering goes as the first one does, for as long as that meets no limit. -/
inductive ExtendsTo : Rendering α → Rendering α → Prop where
  | done (a : α) : ExtendsTo (done a) (done a)
  | failed (e : RenderError) : ExtendsTo (failed e) (failed e)
  | write (chunk : String) {rest rest' : Unit → Rendering α}
      (after : ∀ u, ExtendsTo (rest u) (rest' u)) :
      ExtendsTo (write chunk rest) (write chunk rest')
  | refuse (limit : RenderError) (rest : Unit → Rendering α) (y : Rendering α) :
      ExtendsTo (refuse limit rest) y
  | load (source : String) {next next' : Except CompileError Program → Rendering α}
      (after : ∀ r, ExtendsTo (next r) (next' r)) :
      ExtendsTo (load source next) (load source next')

/-- The limits that a run meets before it ends or the sink stops it. -/
def limits {σ κ : Type} (sink : Sink σ) (loader : Loader κ) :
    Rendering Unit → σ → κ → List RenderError
  | done (), _, _ => []
  | failed _, _, _ => []
  | write chunk rest, s, k =>
    match sink.write s chunk with
    | (s, .more) => limits sink loader (rest ()) s k
    | (_, .stop) => []
  | refuse e rest, s, k => e :: limits sink loader (rest ()) s k
  | load source next, s, k =>
    let (compiled, k) := loader.load k source
    limits sink loader (next compiled) s k

theorem ExtendsTo.refl (x : Rendering α) : x.ExtendsTo x := by
  induction x with
  | done a => exact .done a
  | failed e => exact .failed e
  | write chunk rest ih => exact .write chunk ih
  | refuse e rest ih => exact .refuse e rest _
  | load source next ih => exact .load source ih

theorem ExtendsTo.bind {x y : Rendering α} {f g : α → Rendering β} (h : x.ExtendsTo y)
    (hf : ∀ a, (f a).ExtendsTo (g a)) : (x.bind f).ExtendsTo (y.bind g) := by
  induction h with
  | done a => exact hf a
  | failed e => exact .failed e
  | write chunk after ih => exact .write chunk ih
  | refuse e rest y => exact .refuse e _ _
  | load source after ih => exact .load source ih

/-- Limits are met in a rendering into a text as well. -/
theorem ExtendsTo.collect {x y : Rendering Unit} (h : x.ExtendsTo y) (before : String) :
    (collect before x).ExtendsTo (collect before y) := by
  induction h generalizing before with
  | done a => exact .refl _
  | failed e => exact .refl _
  | write chunk after ih => exact ih () _
  | refuse e rest y => exact .refuse e _ _
  | load source after ih => exact .load source fun r => ih r before

theorem ExtendsTo.forEach {f g : β → Rendering Unit} (h : ∀ b, (f b).ExtendsTo (g b))
    (bs : List β) : (forEach f bs).ExtendsTo (forEach g bs) := by
  induction bs with
  | nil => exact .done ()
  | cons b bs ih => exact (h b).bind fun _ => ih

/-- A run that meets no limit tells nothing of what another one has in its place. -/
theorem ExtendsTo.run_eq {σ κ κ' : Type} {loader : Loader κ} {loader' : Loader κ'}
    (faithful : loader.Faithful) (faithful' : loader'.Faithful) (sink : Sink σ)
    {x y : Rendering Unit} (h : x.ExtendsTo y) {s : σ} {k : κ}
    (free : x.limits sink loader s k = []) (k' : κ') :
    ((y.run sink loader' s k').result, (y.run sink loader' s k').sink) =
      ((x.run sink loader s k).result, (x.run sink loader s k).sink) := by
  induction h generalizing s k k' with
  | done a => rfl
  | failed e => rfl
  | write chunk after ih =>
    rw [limits] at free
    rcases hw : sink.write s chunk with ⟨s', more | stop⟩
    · simp only [hw] at free
      simp only [run, hw]
      exact ih () free k'
    · simp only [run, hw]
  | refuse e rest y => cases free
  | load source after ih =>
    have same : (loader'.load k' source).1 = (loader.load k source).1 :=
      (faithful' k' source).trans (faithful k source).symm
    simp only [run, same]
    exact ih _ free _

end Rendering

/-- The program of a partial, whose source has standard options if it is not compiled yet. -/
def Partial.program : Partial → Except CompileError Program
  | source text => parse text .standard
  | compiled template => .ok template.program

/-- The limits that are met when a template is rendered into a sink. -/
def Pool.limits {σ : Type} (pool : Pool) (template : Template) (view : Value) (partials : Partials)
    (lambdas : Lambdas) (sink : Sink σ) (state : σ) : List RenderError :=
  let setting : Setting := ⟨partials, lambdas, template.options.partialDepthLimit⟩
  (setting.rendering template.program view).limits sink .cached state
    (pool.storeOf? template.identity.storage)

/-- Lambdas cannot tell helpers apart of which the second goes on as the first. -/
theorem Reply.extendsTo_follow {helper helper' : String → Rendering (Except Error String)}
    (h : ∀ template, (helper template).ExtendsTo (helper' template)) (reply : Reply) :
    (reply.follow helper).ExtendsTo (reply.follow helper') := by
  induction reply with
  | done result => exact .done result
  | render template next ih => exact (h template).bind ih

/-- What is carried out inside goes as far at least, with no more section bodies in progress. -/
def Runner.ExtendTo (inner? inner?' : Option Runner) : Prop :=
  ∀ run ∈ inner?, ∃ run' ∈ inner?', ∀ ops scopes nesting nesting', nesting' ≤ nesting →
    (run ops scopes nesting).ExtendsTo (run' ops scopes nesting')

namespace Setting

open Rendering

/-- The same partials and lambdas under another limit on inclusions. -/
def withLimit (setting : Setting) (limit : Nat) : Setting :=
  { setting with depthLimit := limit }

variable {setting : Setting} {limit : Nat} {inner? inner?' : Option Runner}
  {nesting nesting' : Nat}

theorem extendsTo_enterSection {name : String} {body body' : Nat → Rendering Unit}
    (hn : nesting' ≤ nesting) (h : ∀ n n', n' ≤ n → (body n).ExtendsTo (body' n')) :
    (enterSection name nesting body).ExtendsTo (enterSection name nesting' body') := by
  unfold enterSection
  by_cases full : sectionNestingLimit ≤ nesting
  · rw [if_pos full]
    exact .refuse _ _ _
  · have free' : ¬sectionNestingLimit ≤ nesting' := by omega
    rw [if_neg full, if_neg free']
    exact h _ _ (by omega)

theorem extendsTo_helper (hi : Runner.ExtendTo inner? inner?') (hn : nesting' ≤ nesting)
    (name : String) (top : Value) (template : String) :
    (setting.helper inner? name top nesting template).ExtendsTo
      ((setting.withLimit limit).helper inner?' name top nesting' template) := by
  cases inner? with
  | none => exact .refuse _ _ _
  | some run =>
    obtain ⟨run', rfl, h⟩ := hi run rfl
    refine .load template fun r => ?_
    cases r with
    | error e => exact .refl _
    | ok program =>
      have same := h program.ops (.ofView top) nesting nesting' hn
      exact (same.collect "").bind fun _ => .refl _

theorem extendsTo_runPartial (hi : Runner.ExtendTo inner? inner?') (hn : nesting' ≤ nesting)
    (name : String) (top : Value) :
    (setting.runPartial inner? name top nesting).ExtendsTo
      ((setting.withLimit limit).runPartial inner?' name top nesting') := by
  have table : (setting.withLimit limit).partials = setting.partials := rfl
  unfold runPartial
  rw [table]
  cases setting.partials.get? name with
  | none => exact .done ()
  | some entry =>
    cases inner? with
    | none => exact .refuse _ _ _
    | some run =>
      obtain ⟨run', rfl, h⟩ := hi run rfl
      have same (program : Program) := h program.ops (.ofView top) nesting nesting' hn
      cases entry with
      | compiled template => exact same template.program
      | source text =>
        refine .load text fun r => ?_
        cases r with
        | error e => exact .failed _
        | ok program => exact same program

theorem extendsTo_runLambda (hi : Runner.ExtendTo inner? inner?') (hn : nesting' ≤ nesting)
    (name : String) (id : LambdaId) (raw : String) (top : Value) :
    (setting.runLambda inner? name id raw top nesting).ExtendsTo
      ((setting.withLimit limit).runLambda inner?' name id raw top nesting') := by
  have helped (template : String) :
      (setting.helper inner? name top nesting template).ExtendsTo
        ((setting.withLimit limit).helper inner?' name top nesting' template) :=
    extendsTo_helper hi hn name top template
  exact (Reply.extendsTo_follow helped _).bind fun _ => .refl _

theorem extendsTo_runSection (hi : Runner.ExtendTo inner? inner?') (hn : nesting' ≤ nesting)
    {body body' : Scopes → Nat → Rendering Unit}
    (h : ∀ scopes n n', n' ≤ n → (body scopes n).ExtendsTo (body' scopes n')) (name : String)
    (inverted : Bool) (raw : String) (scopes : Scopes) :
    (setting.runSection inner? body name inverted raw scopes nesting).ExtendsTo
      ((setting.withLimit limit).runSection inner?' body' name inverted raw scopes nesting') := by
  have functions : (setting.withLimit limit).lambdas = setting.lambdas := rfl
  unfold runSection
  rw [functions]
  cases SectionPlan.of inverted (scopes.resolve setting.lambdas name) with
  | skip => exact .done ()
  | once => exact extendsTo_enterSection hn (h scopes)
  | inner value => exact extendsTo_enterSection hn (h _)
  | each items =>
    refine extendsTo_enterSection hn fun n n' hle => ?_
    exact .forEach (fun item => h _ n n' hle) items
  | lambda id => exact extendsTo_runLambda hi hn name id raw scopes.top

/-- Operations go as far at least with more room for inclusions and for section bodies. -/
theorem extendsTo_execute (hi : Runner.ExtendTo inner? inner?') (ops : List Op) (scopes : Scopes)
    {nesting nesting' : Nat} (hn : nesting' ≤ nesting) :
    (setting.execute inner? ops scopes nesting).ExtendsTo
      ((setting.withLimit limit).execute inner?' ops scopes nesting') := by
  cases ops with
  | nil =>
    rw [execute, execute]
    exact .done ()
  | cons op ops =>
    have hrest := extendsTo_execute hi ops scopes hn
    cases op with
    | openSection name inverted n raw =>
      have hbody := Op.length_body_le n ops
      have hdrop : (ops.drop n).length ≤ ops.length := by
        rw [List.length_drop]
        omega
      have body (scopes : Scopes) (m m' : Nat) (hle : m' ≤ m) :=
        extendsTo_execute hi (Op.body n ops) scopes hle
      have after := extendsTo_execute hi (ops.drop n) scopes hn
      rw [execute, execute]
      exact (extendsTo_runSection hi hn body name inverted raw scopes).bind fun _ => after
    | inclusion name =>
      rw [execute, execute]
      exact (extendsTo_runPartial hi hn name scopes.top).bind fun _ => hrest
    | closeSection name =>
      rw [execute, execute]
      exact hrest
    | literal | escaped | unescaped =>
      rw [execute, execute]
      exact (ExtendsTo.refl _).bind fun _ => hrest
termination_by ops.length
decreasing_by
  all_goals simp only [List.length_cons]
  all_goals omega

theorem extendTo_inside {room room' : Nat} (h : room ≤ room') :
    Runner.ExtendTo (setting.inside room) ((setting.withLimit limit).inside room') := by
  induction room generalizing room' with
  | zero => exact nofun
  | succ room ih =>
    rintro run ⟨⟩
    obtain ⟨more, rfl⟩ : ∃ more, room' = more + 1 := ⟨room' - 1, by omega⟩
    refine ⟨_, rfl, fun ops scopes nesting nesting' hn => ?_⟩
    rw [runner_eq_execute, runner_eq_execute]
    exact extendsTo_execute (ih (by omega)) ops scopes hn

/-- What is carried out with some inclusions and some section bodies in progress. -/
def execution (setting : Setting) (depth nesting : Nat) (ops : List Op) (scopes : Scopes) :
    Rendering Unit :=
  setting.execute (setting.room depth) ops scopes nesting

theorem extendsTo_execution {depth depth' : Nat}
    (hroom : setting.depthLimit - depth ≤ limit - depth') (hn : nesting' ≤ nesting)
    (ops : List Op) (scopes : Scopes) :
    (setting.execution depth nesting ops scopes).ExtendsTo
      ((setting.withLimit limit).execution depth' nesting' ops scopes) :=
  extendsTo_execute (extendTo_inside hroom) ops scopes hn

theorem rendering_eq_execution (program : Program) (view : Value) :
    setting.rendering program view = setting.execution 0 0 program.ops (.ofView view) := by
  rw [rendering, runner_eq_execute]
  rfl

theorem execution_inclusion (depth nesting : Nat) (name : String) (scopes : Scopes) :
    setting.execution depth nesting [.inclusion name] scopes =
      setting.runPartial (setting.room depth) name scopes.top nesting := by
  have last : (fun _ : Unit => setting.execute (setting.room depth) [] scopes nesting) =
      fun _ => .done () := by
    funext _
    rw [execute]
  rw [execution, execute, last, bind_done_right]

/-- A partial that meets no limit does what it does on its own, where no scope, no inclusion and no
section is around it. -/
theorem run_inclusion_eq {σ κ κ' : Type} {loader : Loader κ} {loader' : Loader κ'}
    (faithful : loader.Faithful) (faithful' : loader'.Faithful) (sink : Sink σ) {s : σ} {k : κ}
    {depth : Nat} {name : String} {scopes : Scopes} {origin : Partial} {program : Program}
    (present : setting.partials.get? name = some origin) (compiles : origin.program = .ok program)
    (hroom : setting.depthLimit ≤ depth + 1 + limit)
    (free : (setting.execution depth nesting [.inclusion name] scopes).limits sink loader s k = [])
    (k' : κ') :
    let alone := ((setting.withLimit limit).rendering program scopes.top).run sink loader' s k'
    let inside := (setting.execution depth nesting [.inclusion name] scopes).run sink loader s k
    (alone.result, alone.sink) = (inside.result, inside.sink) := by
  have hle : setting.depthLimit - (depth + 1) ≤ limit - 0 := by omega
  have further : (setting.execution (depth + 1) nesting program.ops (.ofView scopes.top)).ExtendsTo
      ((setting.withLimit limit).rendering program scopes.top) := by
    rw [rendering_eq_execution]
    exact extendsTo_execution hle (Nat.zero_le nesting) _ _
  simp only [execution_inclusion, runPartial, present] at free ⊢
  by_cases full : setting.depthLimit ≤ depth
  · rw [room_of_full full] at free
    cases free
  · rw [room_of_free (by omega)] at free ⊢
    cases origin with
    | compiled template =>
      cases compiles
      exact further.run_eq faithful faithful' sink free k'
    | source text =>
      -- The source is compiled on the way, which a template on its own has behind it.
      have answer : (loader.load k text).1 = .ok program := (faithful k text).trans compiles
      simp only [limits, run, answer] at free ⊢
      exact further.run_eq faithful faithful' sink free k'

end Setting

/-- The limit on inclusions has no part in a program. -/
theorem Template.program_eq_of_limit {template template' : Template} {limit : Nat}
    (text : template'.text = template.text)
    (options : template'.options = { template.options with partialDepthLimit := limit }) :
    template'.program = template.program := by
  have compiled := parse_eq_ok_iff.mp template.compiled
  have compiled' := parse_eq_ok_iff.mp template'.compiled
  rw [text, options] at compiled'
  exact Option.some.inj (compiled'.symm.trans compiled)

/-- Limits that are not met make no difference. An execution that meets none, also within lambdas,
is the same with more inclusions and section bodies left. So a higher limit on inclusions changes
no rendering that met none; and a partial that is included without meeting any does what its
template does alone in the innermost scope, if that has at least the inclusions that are left. -/
theorem budgets_matter_by_running_out (partials : Partials) (lambdas : Lambdas) {σ : Type}
    (sink : Sink σ) (s : σ) :
    (∀ limit limit' depth depth' nesting nesting' : Nat,
      limit - depth ≤ limit' - depth' → nesting' ≤ nesting →
      ∀ (ops : List Op) (scopes : Scopes) (store? store?' : Option Store),
        let first := (Setting.mk partials lambdas limit).execution depth nesting ops scopes
        let second := (Setting.mk partials lambdas limit').execution depth' nesting' ops scopes
        let r := first.run sink .cached s store?
        let r' := second.run sink .cached s store?'
        first.limits sink .cached s store? = [] → (r'.result, r'.sink) = (r.result, r.sink)) ∧
    (∀ (template template' : Template) (limit : Nat) (view : Value) (pool pool' : Pool),
      template'.text = template.text →
      template'.options = { template.options with partialDepthLimit := limit } →
      template.options.partialDepthLimit ≤ limit →
        let r := pool.stream template view partials lambdas sink s
        let r' := pool'.stream template' view partials lambdas sink s
        pool.limits template view partials lambdas sink s = [] → (r'.1, r'.2.1) = (r.1, r.2.1)) ∧
    ∀ (limit depth nesting : Nat) (name : String) (scopes : Scopes) (origin : Partial)
      (alone : Template) (store? : Option Store) (pool : Pool),
      partials.get? name = some origin → origin.program = .ok alone.program →
      limit ≤ depth + 1 + alone.options.partialDepthLimit →
        let inside := (Setting.mk partials lambdas limit).execution depth nesting
          [.inclusion name] scopes
        let r := inside.run sink .cached s store?
        let r' := pool.stream alone scopes.top partials lambdas sink s
        inside.limits sink .cached s store? = [] → (r'.1, r'.2.1) = (r.result, r.sink) := by
  have faithful := Loader.faithful_cached
  refine ⟨?_, ?_, ?_⟩
  · intro limit limit' depth depth' nesting nesting' hroom hn ops scopes store? store?' first
      second r r' free
    have further : first.ExtendsTo second := Setting.extendsTo_execution hroom hn ops scopes
    exact further.run_eq faithful faithful sink free store?'
  · intro template template' limit view pool pool' htext hoptions hle r r' free
    have same : template'.program = template.program :=
      Template.program_eq_of_limit htext hoptions
    let setting : Setting := ⟨partials, lambdas, template.options.partialDepthLimit⟩
    have hlimit : template'.options.partialDepthLimit = limit := by rw [hoptions]
    have further : (setting.rendering template.program view).ExtendsTo
        ((setting.withLimit limit).rendering template.program view) := by
      rw [Setting.rendering_eq_execution, Setting.rendering_eq_execution]
      exact Setting.extendsTo_execution (by simpa using hle) (Nat.le_refl 0) _ _
    have run := further.run_eq faithful faithful sink free
      (pool'.storeOf? template'.identity.storage)
    simp only [r, r', Pool.stream, same, hlimit]
    exact run
  · intro limit depth nesting name scopes origin alone store? pool present compiles hroom inside
      r r' free
    exact Setting.run_inclusion_eq faithful faithful sink present compiles hroom free
      (pool.storeOf? alone.identity.storage)

/-- With room for one inclusion and one section body more. -/
theorem partial_alone_near_limits :
    ∃ alone : Template, alone.text = "x{{#a}}y{{/a}}" ∧
      let partials := Partials.ofSources [("p", "x{{#a}}y{{/a}}")]
      let lambdas : Lambdas := ⟨fun _ v => v, fun _ call => .done (.ok call.text)⟩
      let top := Value.map [("a", .bool true)]
      let inside := (Setting.mk partials lambdas 9).execution 8 127 [.inclusion "p"] ⟨top, [.null]⟩
      inside.limits .patient .cached [] none = [] ∧
        (inside.run .patient .cached [] none).sink = ["x", "y"] ∧
        (Pool.initial.stream alone top partials lambdas .patient []).2.1 = ["x", "y"] := by
  have compiles : parse "x{{#a}}y{{/a}}" .standard =
      .ok ⟨[.literal "x", .openSection "a" false 1 "y", .literal "y", .closeSection "a"]⟩ := by
    rw [parse_eq_ok_iff]
    decide +kernel
  refine ⟨⟨_, .standard, _, ⟨0, 0⟩, compiles⟩, rfl, ?_⟩
  intro partials lambdas top inside
  have free : inside.limits .patient .cached [] none = [] := by
    rw [← List.isEmpty_iff]
    decide +kernel
  have written : (inside.run .patient .cached [] none).sink = ["x", "y"] := by decide +kernel
  have same := (budgets_matter_by_running_out partials lambdas .patient []).2.2 9 8 127 "p"
    ⟨top, [.null]⟩ (.source "x{{#a}}y{{/a}}") ⟨_, .standard, _, ⟨0, 0⟩, compiles⟩ none .initial
    (by decide +kernel) compiles (Nat.le_add_right 9 64) free
  refine ⟨free, written, ?_⟩
  rw [← written]
  exact congrArg (·.2) same

end Mustache
