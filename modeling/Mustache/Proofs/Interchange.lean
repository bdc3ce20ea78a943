import Mustache.Proofs.Transcript
import Mustache.Template.Pool

namespace Mustache

/-- All that can be seen of a template in a rendering. -/
def Template.key (template : Template) : CacheKey :=
  .of template.text template.options

theorem Template.program_eq_of_key {t t' : Template} (h : t.key = t'.key) :
    t.program = t'.program := by
  have hp := Template.parse_of_key h
  rw [t'.compiled] at hp
  exact (Except.ok.inj hp).symm

theorem Template.depthLimit_eq_of_key {t t' : Template} (h : t.key = t'.key) :
    t.options.partialDepthLimit = t'.options.partialDepthLimit :=
  congrArg CacheKey.partialDepthLimit h

/-- A source, or the key of a compiled template. -/
def Partial.origin : Partial → String ⊕ CacheKey
  | source text => .inl text
  | compiled template => .inr template.key

theorem none_or_some_of_map_eq {α β : Type} {f : α → β} {a b : Option α}
    (h : a.map f = b.map f) :
    (a = none ∧ b = none) ∨ ∃ x y, a = some x ∧ b = some y ∧ f x = f y := by
  cases a with
  | none => exact .inl ⟨rfl, Option.map_eq_none_iff.mp h.symm⟩
  | some x =>
    obtain ⟨y, hy, hf⟩ := Option.map_eq_some_iff.mp h.symm
    exact .inr ⟨x, y, rfl, hy, hf.symm⟩

namespace Partials

/-- Tables that differ only in which template of a key they have. -/
def Alike (table table' : Partials) : Prop :=
  ∀ name, (table.get? name).map Partial.origin = (table'.get? name).map Partial.origin

theorem alike_empty : Alike .empty .empty :=
  fun _ => rfl

theorem Alike.insert {table table' : Partials} (h : Alike table table') (name : String)
    {entry entry' : Partial} (he : entry.origin = entry'.origin) :
    Alike (table.insert name entry) (table'.insert name entry') := by
  intro other
  unfold get? Partials.insert
  by_cases ho : other = name
  · subst ho
    simp only [Entries.lookup_put_self, Option.map_some, he]
  · rw [Entries.lookup_put_of_ne ho, Entries.lookup_put_of_ne ho]
    exact h other

end Partials

namespace Setting

variable {table table' : Partials} {lambdas : Lambdas} {limit : Nat}

theorem runPartial_congr (h : table.Alike table') (run? : Option Runner) :
    (Setting.mk table lambdas limit).runPartial run? =
      (Setting.mk table' lambdas limit).runPartial run? := by
  funext name top nesting
  unfold runPartial
  rcases none_or_some_of_map_eq (h name) with ⟨hp, hp'⟩ | ⟨entry, entry', hp, hp', horigin⟩
  · rw [hp, hp']
  · rw [hp, hp']
    cases run? with
    | none => rfl
    | some run =>
      cases entry with
      | source text =>
        cases entry' with
        | source text' =>
          cases horigin
          rfl
        | compiled template' => cases horigin
      | compiled template =>
        cases entry' with
        | source text' => cases horigin
        | compiled template' =>
          have hkey : template.key = template'.key := Sum.inr.inj horigin
          simp only [Template.program_eq_of_key hkey]

/-- Only inclusions look at the table of partials. -/
theorem execute_congr (h : table.Alike table') (run? : Option Runner) (ops : List Op) :
    (Setting.mk table lambdas limit).execute run? ops =
      (Setting.mk table' lambdas limit).execute run? ops := by
  funext scopes nesting
  cases ops with
  | nil => rw [execute, execute]
  | cons op ops =>
    cases op with
    | openSection name inverted n raw =>
      have hn := Op.length_body_le n ops
      rw [execute, execute, execute_congr h run? (Op.body n ops),
        execute_congr h run? (ops.drop n)]
      rfl
    | inclusion name =>
      rw [execute, execute, execute_congr h run? ops, runPartial_congr h]
    | literal text | closeSection name => rw [execute, execute, execute_congr h run? ops]
    | escaped name | unescaped name =>
      rw [execute, execute, execute_congr h run? ops]
      rfl
termination_by ops.length
decreasing_by all_goals simp only [List.length_cons, List.length_drop]; omega

theorem runner_congr (h : table.Alike table') (depth : Nat) :
    (Setting.mk table lambdas limit).runner depth =
      (Setting.mk table' lambdas limit).runner depth := by
  induction depth with
  | zero => exact funext (execute_congr h none)
  | succ depth ih =>
    rw [runner, runner, ih]
    exact funext (execute_congr h _)

end Setting

namespace Template

/-- Renders a template into a sink with no storage at all. -/
def streamAlone {σ : Type} (template : Template) (view : Value) (partials : Partials)
    (lambdas : Lambdas) (sink : Sink σ) (state : σ) : Except RenderError Completion × σ :=
  let setting : Setting := ⟨partials, lambdas, template.options.partialDepthLimit⟩
  let outcome := (setting.rendering template.program view).run sink .direct state ()
  (outcome.result, outcome.sink)

variable {σ : Type} {view : Value} {table table' : Partials} {lambdas : Lambdas} {sink : Sink σ}
  {state : σ}

theorem streamAlone_congr {t t' : Template} (ht : t.key = t'.key) (h : table.Alike table') :
    t.streamAlone view table lambdas sink state =
      t'.streamAlone view table' lambdas sink state := by
  simp only [streamAlone, Setting.rendering, program_eq_of_key ht, depthLimit_eq_of_key ht,
    Setting.runner_congr h]

/-- The storage of a template cannot be told from no storage, whether or not it still lives. -/
theorem stream_eq_streamAlone (pool : Pool) (t : Template) :
    ((pool.stream t view table lambdas sink state).1,
      (pool.stream t view table lambdas sink state).2.1) =
        t.streamAlone view table lambdas sink state := by
  simp only [Pool.stream, streamAlone, Rendering.run_eq_deliver Loader.faithful_cached,
    Rendering.run_eq_deliver Loader.faithful_direct]

end Template
end Mustache
