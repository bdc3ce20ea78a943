import Mustache.Proofs.Reaching

namespace Mustache

namespace SectionPlan

/-- How often a body is rendered. A lambda is given its source instead. -/
def renderings : SectionPlan → Nat
  | skip | lambda _ => 0
  | once | inner _ => 1
  | each items => items.length

def isLambda : SectionPlan → Bool
  | lambda _ => true
  | _ => false

theorem of_eq_each_nil_iff {inverted : Bool} {value? : Option Value} :
    SectionPlan.of inverted value? = .each [] ↔ inverted = false ∧ value? = some (.list []) := by
  constructor
  · intro h
    exact found_of_value? (by rw [h]; rfl)
  · rintro ⟨rfl, rfl⟩
    rfl

end SectionPlan

namespace Setting

variable {setting : Setting} {depth nesting : Nat} {name : String}

/-- A lambda that fails is named in the error, whatever it failed of. -/
theorem Runs.error_of_lambda {task : Task} {trace : List Event}
    {ending : Except RenderError Unit} (h : setting.Runs depth task trace ending) {top : Value}
    {reply : Reply} (ht : task = .lambda name top nesting reply) {e : RenderError}
    (he : ending = .error e) : ∃ inner, e = .lambda name inner := by
  induction h generalizing reply with
  | answered text => cases he
  | lambdaFailed inner =>
    cases ht
    cases he
    exact ⟨inner, rfl⟩
  | denied admits tail ih =>
    cases ht
    exact ih rfl he
  | helped admits inside tail ihinside ihtail =>
    cases ht
    exact ihtail rfl he
  | _ => cases ht

/-- All that happens is that the limit on section bodies is met. -/
def Refused (setting : Setting) (depth : Nat) (name : String) (task : Task) : Prop :=
  setting.Runs depth task [.refuse (.nestingLimit name sectionNestingLimit)]
    (.error (.nestingLimit name sectionNestingLimit))

theorem refused_block_iff {body : List Op} {inner : List Scopes} :
    setting.Refused depth name (.block name body inner nesting) ↔
      sectionNestingLimit ≤ nesting := by
  constructor
  · intro h
    cases h with
    | tooNested full => exact full
  · exact .tooNested

theorem refused_sectionTask_iff (inverted : Bool) (raw : String) (body : List Op)
    (scopes : Scopes) :
    let plan := SectionPlan.of inverted (scopes.resolve setting.lambdas name)
    setting.Refused depth name (setting.sectionTask name inverted raw body scopes nesting) ↔
      sectionNestingLimit ≤ nesting ∧ (0 < plan.renderings ∨ plan = .each []) := by
  intro plan
  unfold sectionTask
  cases hplan : SectionPlan.of inverted (scopes.resolve setting.lambdas name) with
  | skip =>
    have hrendered : ¬(0 < plan.renderings ∨ plan = .each []) := by
      simp [plan, hplan, SectionPlan.renderings]
    simp only [hrendered, and_false, iff_false]
    intro h
    cases h
  | lambda id =>
    have hrendered : ¬(0 < plan.renderings ∨ plan = .each []) := by
      simp [plan, hplan, SectionPlan.renderings]
    simp only [hrendered, and_false, iff_false]
    intro h
    obtain ⟨inner, he⟩ := Runs.error_of_lambda h rfl rfl
    cases he
  | once | inner value =>
    have hrendered : 0 < plan.renderings := by simp [plan, hplan, SectionPlan.renderings]
    simp only [hrendered, true_or, and_true]
    exact refused_block_iff
  | each items =>
    have hrendered : 0 < plan.renderings ∨ plan = .each [] := by
      cases items <;> simp [plan, hplan, SectionPlan.renderings]
    simp only [hrendered, and_true]
    exact refused_block_iff

/-- A body that is rendered for no item is opened and closed, so there has to be room for it. -/
theorem runs_sectionTask_of_unrendered {inverted : Bool} {raw : String} {body : List Op}
    {scopes : Scopes}
    (unrendered : (SectionPlan.of inverted (scopes.resolve setting.lambdas name)).renderings = 0)
    (own : (SectionPlan.of inverted (scopes.resolve setting.lambdas name)).isLambda = false)
    (free : SectionPlan.of inverted (scopes.resolve setting.lambdas name) = .each [] →
      nesting < sectionNestingLimit) :
    ∃ trace, setting.Runs depth (setting.sectionTask name inverted raw body scopes nesting) trace
      (.ok ()) ∧ Event.chunks trace = [] := by
  unfold sectionTask
  cases hplan : SectionPlan.of inverted (scopes.resolve setting.lambdas name) with
  | skip => exact ⟨_, .write "", rfl⟩
  | once | inner value =>
    rw [hplan] at unrendered
    cases unrendered
  | lambda id =>
    rw [hplan] at own
    cases own
  | each items =>
    rw [hplan] at unrendered free
    have hitems : items = [] := List.length_eq_zero_iff.mp unrendered
    subst hitems
    exact ⟨_, .nested (free rfl) (.noBody body), rfl⟩

/-- A section is refused exactly if its body is to be rendered while there are as many bodies in
progress as the limit allows, and one whose body is not rendered does nothing. -/
structure CountsRendered (setting : Setting) (depth : Nat) (name : String) (plan : SectionPlan)
    (task : Task) (inProgress : Nat) : Prop where
  refused : setting.Refused depth name task ↔
    inProgress = sectionNestingLimit ∧ 0 < plan.renderings
  unrendered (h : plan.renderings = 0) (own : plan.isLambda = false) :
    ∃ trace, setting.Runs depth task trace (.ok ()) ∧ Event.chunks trace = []

theorem countsRendered_iff (inverted : Bool) (raw : String) (body : List Op) (scopes : Scopes)
    (hle : nesting ≤ sectionNestingLimit) :
    let plan := SectionPlan.of inverted (scopes.resolve setting.lambdas name)
    setting.CountsRendered depth name plan
        (setting.sectionTask name inverted raw body scopes nesting) nesting ↔
      ¬(nesting = sectionNestingLimit ∧ plan = .each []) := by
  intro plan
  have refused : setting.Refused depth name
        (setting.sectionTask name inverted raw body scopes nesting) ↔
      sectionNestingLimit ≤ nesting ∧ (0 < plan.renderings ∨ plan = .each []) :=
    refused_sectionTask_iff inverted raw body scopes
  constructor
  · rintro counts ⟨full, empty⟩
    have hrefused := refused.mpr ⟨by omega, .inr empty⟩
    have hrendered := (counts.refused.mp hrefused).2
    rw [empty] at hrendered
    exact absurd hrendered (Nat.lt_irrefl 0)
  · intro h
    refine ⟨refused.trans ?_, fun unrendered own => ?_⟩
    · constructor
      · rintro ⟨hge, hrendered | empty⟩
        · exact ⟨by omega, hrendered⟩
        · exact absurd ⟨by omega, empty⟩ h
      · rintro ⟨rfl, hrendered⟩
        exact ⟨Nat.le_refl _, .inl hrendered⟩
    · exact runs_sectionTask_of_unrendered unrendered own fun empty => by
        have : nesting ≠ sectionNestingLimit := fun full => h ⟨full, empty⟩
        omega

/-- A section with a body to render comes to the body. -/
theorem Reaches.exists_body {start : Task} {before : List Event} {depth' : Nat}
    {inverted : Bool} {n : Nat} {raw : String} {ops : List Op} {scopes inner : Scopes}
    (reached : setting.Reaches depth start before depth'
      (.ops (.openSection name inverted n raw :: ops) scopes nesting))
    (block : setting.sectionTask name inverted raw (Op.body n ops) scopes nesting =
      .block name (Op.body n ops) [inner] nesting) (free : nesting < sectionNestingLimit) :
    ∃ before', setting.Reaches depth start before' depth'
      (.ops (Op.body n ops) inner (nesting + 1)) := by
  have head := reached.step (.head _ _ _)
  rw [Setting.task, block] at head
  exact ⟨_, (head.step (.inside free)).step (.body _ _ _)⟩

end Setting

/-- In whatever state a rendering comes to a section, the limit on section bodies counts those that
are being rendered, in partials and helper renderings too. It is met exactly by a section whose
body is to be rendered with as many in progress, but for one case: the body for an empty list is
refused there as well. -/
theorem rendered_bodies_limited_but_for_empty_lists (template : Template) (view : Value)
    (partials : Partials) (lambdas : Lambdas) :
    let setting : Setting := ⟨partials, lambdas, template.options.partialDepthLimit⟩
    let start : Task := .ops template.program.ops (.ofView view) 0
    (∃ trace ending, setting.Runs 0 start trace ending ∧
      (setting.rendering template.program view).course = ⟨Event.seen trace, ending⟩) ∧
    ∀ before depth name inverted n raw ops scopes nesting,
      setting.Reaches 0 start before depth
        (.ops (.openSection name inverted n raw :: ops) scopes nesting) →
      let value? := scopes.resolve lambdas name
      let plan := SectionPlan.of inverted value?
      let task := setting.task (.openSection name inverted n raw) ops scopes nesting
      let inProgress := Event.bodies 0 before
      let empty := inverted = false ∧ value? = some (.list [])
      inProgress ≤ sectionNestingLimit ∧
        (setting.CountsRendered depth name plan task inProgress ↔
          ¬(inProgress = sectionNestingLimit ∧ empty)) ∧
        (inProgress = sectionNestingLimit ∧ empty → setting.Refused depth name task) := by
  intro setting start
  refine ⟨?_, ?_⟩
  · obtain ⟨trace, ending, runs⟩ := setting.ends 0 start
    exact ⟨trace, ending, runs, Setting.course_rendering runs⟩
  intro before depth name inverted n raw ops scopes nesting reached value? plan task inProgress
    empty
  have hempty : empty ↔ plan = .each [] := SectionPlan.of_eq_each_nil_iff.symm
  have hzero : 0 ≤ sectionNestingLimit := Nat.zero_le _
  obtain ⟨hcount, hle⟩ := reached.nesting_eq rfl hzero nesting rfl
  have hin : inProgress = nesting := hcount.symm
  rw [hempty, hin]
  refine ⟨hle, Setting.countsRendered_iff inverted raw _ scopes hle, ?_⟩
  rintro ⟨full, hplan⟩
  exact (Setting.refused_sectionTask_iff inverted raw _ scopes).mpr ⟨by omega, .inr hplan⟩

namespace DeepList

/-- Includes itself in two section bodies for each `b` in the view, and comes to the list `x`. -/
def source : String :=
  "{{#b}}{{#t}}{{>p}}{{/t}}{{/b}}{{#x}}y{{/x}}"

def program : Program where
  ops := [.openSection "b" false 3 "{{#t}}{{>p}}{{/t}}", .openSection "t" false 1 "{{>p}}",
    .inclusion "p", .closeSection "t", .closeSection "b", .openSection "x" false 1 "y",
    .literal "y", .closeSection "x"]

def view : Nat → Value
  | 0 => .map [("x", .list [])]
  | levels + 1 => .map [("b", view levels), ("t", .bool true)]

def partials : Partials :=
  .ofSources [("p", source)]

def lambdas : Lambdas :=
  ⟨fun _ v => v, fun _ call => .done (.ok call.text)⟩

def setting : Setting :=
  ⟨partials, lambdas, Options.standard.partialDepthLimit⟩

def start : Task :=
  .ops program.ops (.ofView (view 64)) 0

theorem compiles : parse source .standard = .ok program := by
  rw [parse_eq_ok_iff]
  decide +kernel

/-- The scopes in the two bodies of a level. -/
def scopes (m : Nat) : Scopes :=
  (Scopes.ofView (view (m + 1))).push (view m)

theorem sectionTask_b (m : Nat) (raw : String) (body : List Op) (nesting : Nat) :
    setting.sectionTask "b" false raw body (.ofView (view (m + 1))) nesting =
      .block "b" body [scopes m] nesting := by
  cases m <;> rfl

theorem sectionTask_t (m : Nat) (raw : String) (body : List Op) (nesting : Nat) :
    setting.sectionTask "t" false raw body (scopes m) nesting =
      .block "t" body [scopes m] nesting := by
  cases m <;> rfl

/-- With each level of the view two bodies more are in progress, and one inclusion more. -/
theorem exists_reaches_level (levels : Nat) (hle : levels ≤ 64) :
    ∃ before, setting.Reaches 0 start before levels
      (.ops program.ops (.ofView (view (64 - levels))) (2 * levels)) := by
  induction levels with
  | zero => exact ⟨[], .start⟩
  | succ k ih =>
    obtain ⟨before, reached⟩ := ih (by omega)
    obtain ⟨m, hm, hm'⟩ : ∃ m, 64 - k = m + 1 ∧ 64 - (k + 1) = m := ⟨63 - k, by omega, by omega⟩
    rw [hm] at reached
    have hlimit : sectionNestingLimit = 128 := rfl
    obtain ⟨_, outer⟩ := reached.exists_body (sectionTask_b m _ _ _) (by omega)
    obtain ⟨_, inner⟩ := outer.exists_body (sectionTask_t m _ _ _) (by omega)
    have present : setting.partials.get? "p" = some (.source source) := rfl
    have admits : setting.Admits k "p" (.source source) _ (.ok program) :=
      .source (by show k < 64; omega) compiles
    rw [hm', show 2 * (k + 1) = 2 * k + 1 + 1 by omega]
    exact ⟨_, (inner.step (.head _ _ _)).step (.included present admits)⟩

/-- At the end of the view the sections for `b` are skipped and the list is next. -/
theorem exists_reaches_list :
    ∃ before, setting.Reaches 0 start before 64
      (.ops [.openSection "x" false 1 "y", .literal "y", .closeSection "x"] (.ofView (view 0))
        sectionNestingLimit) := by
  obtain ⟨before, reached⟩ := exists_reaches_level 64 (Nat.le_refl 64)
  have skipped : setting.Runs 64 (.write "") [] (.ok ()) := .write ""
  have opened : setting.Leads 64 (.ops program.ops (.ofView (view 0)) sectionNestingLimit) [] 64
      (.ops [.closeSection "b", .openSection "x" false 1 "y", .literal "y", .closeSection "x"]
        (.ofView (view 0)) sectionNestingLimit) := .tail skipped
  exact ⟨_, (reached.step opened).step (.tail skipped)⟩

/-- What the rendering ends in. -/
def refused : Except RenderError Completion → Bool
  | .error (.nestingLimit name limit) => name == "x" && limit == sectionNestingLimit
  | _ => false

theorem rendering_result :
    ((setting.rendering program (view 64)).run .joined .cached ""
        (Pool.initial.storeOf? 0)).result = .error (.nestingLimit "x" sectionNestingLimit) := by
  have hrefused : refused
      ((setting.rendering program (view 64)).run .joined .cached ""
        (Pool.initial.storeOf? 0)).result = true := by
    decide +kernel
  unfold refused at hrefused
  split at hrefused
  next name limit hresult =>
    rw [hresult]
    simp only [Bool.and_eq_true, beq_iff_eq] at hrefused
    rw [hrefused.1, hrefused.2]
  next => cases hrefused

end DeepList

/-- With 128 bodies in progress the empty list is refused, although its body is not rendered. -/
theorem empty_list_refused_within_bodies :
    ∃ template : Template, template.text = DeepList.source ∧ template.options = .standard ∧
      let setting : Setting :=
        ⟨DeepList.partials, DeepList.lambdas, template.options.partialDepthLimit⟩
      let start : Task := .ops template.program.ops (.ofView (DeepList.view 64)) 0
      (∃ before ops scopes, setting.Reaches 0 start before 64
          (.ops (.openSection "x" false 1 "y" :: ops) scopes sectionNestingLimit) ∧
        scopes.resolve DeepList.lambdas "x" = some (.list []) ∧
        ¬setting.CountsRendered 64 "x" (.each [])
          (setting.task (.openSection "x" false 1 "y") ops scopes sectionNestingLimit)
          (Event.bodies 0 before)) ∧
      (Pool.initial.render template (DeepList.view 64) DeepList.partials DeepList.lambdas).1 =
        .error (.nestingLimit "x" sectionNestingLimit) := by
  refine ⟨⟨DeepList.source, .standard, DeepList.program, ⟨0, 0⟩, DeepList.compiles⟩, rfl, rfl, ?_⟩
  intro setting start
  obtain ⟨before, reached⟩ := DeepList.exists_reaches_list
  refine ⟨⟨before, _, _, reached, rfl, ?_⟩, ?_⟩
  · have hzero : 0 ≤ sectionNestingLimit := Nat.zero_le _
    obtain ⟨hcount, hle⟩ := reached.nesting_eq rfl hzero sectionNestingLimit rfl
    rw [← hcount]
    intro counts
    have refused : setting.Refused 64 "x" (.block "x" [.literal "y"] [] sectionNestingLimit) :=
      .tooNested (Nat.le_refl _)
    have rendered : 0 < (SectionPlan.each []).renderings := (counts.refused.mp refused).2
    exact Nat.lt_irrefl 0 rendered
  · exact congrArg (Except.map _) DeepList.rendering_result

end Mustache
