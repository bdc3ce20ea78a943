import Mustache.Proofs.Insertion
import Mustache.Proofs.Markup
import Mustache.Proofs.Wrapping

namespace Mustache

namespace Op

/-- Two programs that differ in the sources of sections only. -/
def Alike (ops ops' : List Op) : Prop :=
  ops'.map withoutRaw = ops.map withoutRaw

variable {op op' : Op} {ops ops' : List Op}

theorem Alike.exists_cons (h : Alike (op :: ops) ops') :
    ∃ op' others, ops' = op' :: others ∧ op'.withoutRaw = op.withoutRaw ∧ Alike ops others :=
  List.map_eq_cons_iff.mp h

theorem Alike.drop (h : Alike ops ops') (n : Nat) : Alike (ops.drop n) (ops'.drop n) := by
  have hdrop := congrArg (List.drop n) h
  rwa [← List.map_drop, ← List.map_drop] at hdrop

theorem Alike.take (h : Alike ops ops') (n : Nat) : Alike (ops.take n) (ops'.take n) := by
  have htake := congrArg (List.take n) h
  rwa [← List.map_take, ← List.map_take] at htake

theorem Alike.body (h : Alike ops ops') (n : Nat) : Alike (body n ops) (body n ops') := by
  have hlength : ops'.length = ops.length := by
    have hmap := congrArg List.length h
    rwa [List.length_map, List.length_map] at hmap
  unfold Op.body body?
  rw [hlength]
  split
  · exact h.take n
  · rfl

/-- Only sections have a source. -/
theorem eq_or_sections_of_withoutRaw (h : op'.withoutRaw = op.withoutRaw) :
    op' = op ∨ ∃ name inverted n raw raw', op = .openSection name inverted n raw ∧
      op' = .openSection name inverted n raw' := by
  cases op with
  | openSection name inverted n raw =>
    cases op' with
    | openSection name' inverted' n' raw' =>
      cases h
      exact .inr ⟨name, inverted, n, raw, raw', rfl, rfl⟩
    | _ => cases h
  | _ =>
    cases op' with
    | openSection => cases h
    | _ => exact .inl h

theorem Alike.rest (h : Alike ops ops') (hop : op'.withoutRaw = op.withoutRaw) :
    Alike (op.rest ops) (op'.rest ops') := by
  rcases eq_or_sections_of_withoutRaw hop with rfl | ⟨name, inverted, n, raw, raw', rfl, rfl⟩
  · cases op' with
    | openSection name inverted n raw => exact h.drop n
    | _ => exact h
  · exact h.drop n

end Op

/-- Two tasks whose operations differ in the sources of sections only. -/
def Task.Alike : Task → Task → Prop
  | ops operations scopes nesting, task' =>
    ∃ operations', task' = .ops operations' scopes nesting ∧ Op.Alike operations operations'
  | block name body inner nesting, task' =>
    ∃ body', task' = .block name body' inner nesting ∧ Op.Alike body body'
  | bodies body inner nesting, task' =>
    ∃ body', task' = .bodies body' inner nesting ∧ Op.Alike body body'
  | task, task' => task' = task

namespace Setting

variable {setting : Setting} {base depth : Nat} {start task task' : Task}
  {before trace : List Event} {ending : Except RenderError Unit}

/-- A section that no lambda takes over does not depend on its source. -/
theorem sectionTask_alike {name : String} {inverted : Bool} {scopes : Scopes}
    (unclaimed : inverted = false →
      ∀ id, scopes.resolve setting.lambdas name ≠ some (.sectionLambda id))
    (raw raw' : String) {body body' : List Op} (h : Op.Alike body body') (nesting : Nat) :
    (setting.sectionTask name inverted raw body scopes nesting).Alike
      (setting.sectionTask name inverted raw' body' scopes nesting) := by
  unfold sectionTask
  cases hplan : SectionPlan.of inverted (scopes.resolve setting.lambdas name) with
  | skip => rfl
  | once | inner | each => exact ⟨body', rfl, h⟩
  | lambda id =>
    obtain ⟨plain, claimed⟩ := SectionPlan.found_of_value? (congrArg SectionPlan.value? hplan)
    exact absurd claimed (unclaimed plain id)

theorem task_alike {op op' : Op} {ops ops' : List Op} {scopes : Scopes} {nesting : Nat}
    (unclaimed : setting.Unclaimed (.ops (op :: ops) scopes nesting))
    (hop : op'.withoutRaw = op.withoutRaw) (hops : Op.Alike ops ops') :
    (setting.task op ops scopes nesting).Alike (setting.task op' ops' scopes nesting) := by
  rcases Op.eq_or_sections_of_withoutRaw hop with
    rfl | ⟨name, inverted, n, raw, raw', rfl, rfl⟩
  · cases op' with
    | openSection name inverted n raw =>
      refine sectionTask_alike ?_ raw raw (hops.body n) nesting
      rintro rfl
      exact unclaimed
    | _ => rfl
  · refine sectionTask_alike ?_ raw raw' (hops.body n) nesting
    rintro rfl
    exact unclaimed

/-- Where no section is taken over by a lambda, a run does not depend on the sources of sections. -/
theorem Runs.alike (h : setting.Runs depth task trace ending)
    (unclaimed : ∀ before depth task, setting.Reaches base start before depth task →
      setting.Unclaimed task)
    (reached : setting.Reaches base start before depth task) (same : task.Alike task') :
    setting.Runs depth task' trace ending := by
  -- What the run comes to is reached, so that the hypothesis on reached tasks goes down with it.
  induction h generalizing before task' with
  | write text =>
    cases same
    exact .write text
  | finished scopes =>
    obtain ⟨ops', rfl, hops⟩ := same
    obtain rfl := List.map_eq_nil_iff.mp hops
    exact .finished scopes
  | broke _ ih =>
    obtain ⟨_, rfl, hops⟩ := same
    obtain ⟨op', ops', rfl, hop, hops⟩ := hops.exists_cons
    exact .broke (ih (reached.step (.head _ _ _)) (task_alike (unclaimed _ _ _ reached) hop hops))
  | wentOn first _ ihhead ihtail =>
    obtain ⟨_, rfl, hops⟩ := same
    obtain ⟨op', ops', rfl, hop, hops⟩ := hops.exists_cons
    have later := ihtail (reached.step (.tail first)) ⟨_, rfl, hops.rest hop⟩
    have same := task_alike (unclaimed _ _ _ reached) hop hops
    exact .wentOn (ihhead (reached.step (.head _ _ _)) same) later
  | tooNested full =>
    obtain ⟨body', rfl, hbody⟩ := same
    exact .tooNested full
  | nested free _ ih =>
    obtain ⟨body', rfl, hbody⟩ := same
    exact .nested free (ih (reached.step (.inside free)) ⟨body', rfl, hbody⟩)
  | noBody body =>
    obtain ⟨body', rfl, -⟩ := same
    exact .noBody body'
  | bodyBroke _ ih =>
    obtain ⟨body', rfl, hbody⟩ := same
    exact .bodyBroke (ih (reached.step (.body _ _ _)) ⟨body', rfl, hbody⟩)
  | bodyEnded first _ ihhead ihtail =>
    obtain ⟨body', rfl, hbody⟩ := same
    have later := ihtail (reached.step (.others first)) ⟨body', rfl, hbody⟩
    exact .bodyEnded (ihhead (reached.step (.body _ _ _)) ⟨body', rfl, hbody⟩) later
  | missing absent =>
    cases same
    exact .missing absent
  | barred present admits =>
    cases same
    exact .barred present admits
  | included present admits inside _ =>
    cases same
    exact .included present admits inside
  | answered text =>
    cases same
    exact .answered text
  | lambdaFailed e =>
    cases same
    exact .lambdaFailed e
  | denied admits tail _ =>
    cases same
    exact .denied admits tail
  | helped admits inside tail _ _ =>
    cases same
    exact .helped admits inside tail

end Setting

/-- Where no section is taken over by a lambda, a sink gets the same from programs that differ in
the sources of sections only. -/
theorem Pool.stream_eq_of_alike {σ : Type} (pool pool' : Pool) {template template' : Template}
    (view : Value) (partials : Partials) (lambdas : Lambdas)
    (limit : template'.options.partialDepthLimit = template.options.partialDepthLimit)
    (alike : Op.Alike template.program.ops template'.program.ops)
    (unclaimed : ∀ before depth task,
      (Setting.mk partials lambdas template.options.partialDepthLimit).Reaches 0
          (.ops template.program.ops (.ofView view) 0) before depth task →
        (Setting.mk partials lambdas template.options.partialDepthLimit).Unclaimed task)
    (sink : Sink σ) (s : σ) :
    let r := pool.stream template view partials lambdas sink s
    let r' := pool'.stream template' view partials lambdas sink s
    (r'.1, r'.2.1) = (r.1, r.2.1) := by
  intro r r'
  let setting : Setting := ⟨partials, lambdas, template.options.partialDepthLimit⟩
  obtain ⟨trace, ending, runs⟩ := setting.ends 0 (.ops template.program.ops (.ofView view) 0)
  have runs' : setting.Runs 0 (.ops template'.program.ops (.ofView view) 0) trace ending :=
    runs.alike unclaimed .start ⟨_, rfl, alike⟩
  have fed := pool.stream_of_runs template view runs sink s
  have fed' : (r'.1, r'.2.1) = sink.feed ending (Event.chunks trace) s := by
    apply pool'.stream_of_runs template' view
    rw [limit]
    exact runs'
  rw [fed', fed]

end Mustache
