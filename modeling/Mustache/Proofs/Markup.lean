import Mustache.Proofs.Budgets
import Mustache.Proofs.Escaping
import Mustache.Proofs.Reaching

namespace Mustache

namespace Escape

variable {c : Char} {name cs rest : List Char}

/-- What follows an ampersand that starts an entity: a name, or the number of the apostrophe. -/
inductive Entity : List Char → Prop where
  | named {name rest : List Char} (nonempty : name ≠ [])
      (chars : ∀ c ∈ name, c.isAlphanum = true ∨ c = '_') : Entity (name ++ ';' :: rest)
  | apostrophe (rest : List Char) : Entity ('#' :: '3' :: '9' :: ';' :: rest)

/-- Text that stays text in markup. -/
structure Harmless (cs : List Char) : Prop where
  unmarked : ∀ c ∈ cs, c ≠ '<' ∧ c ≠ '>' ∧ c ≠ '"' ∧ c ≠ '\''
  entities : ∀ before after, cs = before ++ '&' :: after → Entity after

theorem harmless_nil : Harmless [] :=
  ⟨nofun, fun before after he => by simp at he⟩

theorem Harmless.cons (h : Harmless cs) (hc : c ≠ '<' ∧ c ≠ '>' ∧ c ≠ '"' ∧ c ≠ '\'')
    (entity : c = '&' → Entity cs) : Harmless (c :: cs) := by
  refine ⟨List.forall_mem_cons.mpr ⟨hc, h.unmarked⟩, ?_⟩
  intro before after he
  cases before with
  | nil =>
    cases he
    exact entity rfl
  | cons first before =>
    cases he
    exact h.entities before after rfl

theorem Harmless.append (h : Harmless cs) (name : List Char)
    (hn : ∀ c ∈ name, isSpecial c = false) : Harmless (name ++ cs) := by
  induction name with
  | nil => exact h
  | cons c name ih =>
    obtain ⟨hc, hname⟩ := List.forall_mem_cons.mp hn
    obtain ⟨hamp, unmarked⟩ := not_special_iff.mp hc
    exact (ih hname).cons unmarked fun he => absurd he hamp

theorem Harmless.entity (h : Harmless cs) (nonempty : name ≠ [])
    (hn : ∀ c ∈ name, isEntityChar c = true) : Harmless ('&' :: (name ++ ';' :: cs)) := by
  have hrest : Harmless (';' :: cs) := h.cons (by decide) nofun
  have hname : ∀ c ∈ name, isSpecial c = false := fun c hc => not_special_of_isEntityChar (hn c hc)
  refine (hrest.append name hname).cons (by decide) fun _ => .named nonempty fun c hc => ?_
  simpa [isEntityChar] using hn c hc

theorem Harmless.reference (h : Harmless cs) {r : Reference} (hr : r ∈ Reference.all) :
    Harmless (r.spelling ++ cs) := by
  rcases List.mem_append.mp hr with hr | hr
  · obtain ⟨nonempty, hn⟩ := Reference.isEntityChar_of_named hr
    rw [r.spelling_append]
    exact h.entity nonempty hn
  · rw [List.mem_singleton.mp hr]
    have hrest : Harmless ('#' :: '3' :: '9' :: ';' :: cs) :=
      h.append ['#', '3', '9', ';'] (by simp [isSpecial])
    exact hrest.cons (by decide) fun _ => .apostrophe _

/-- An ampersand that is left alone is followed by the same entity as before, because the characters
of an entity are left alone too. -/
theorem entity_escapeChars (h : startsEntity cs = true) : Entity (escapeChars cs) := by
  obtain ⟨name, rest, rfl, nonempty, hn⟩ := exists_of_startsEntity h
  rw [escapeChars_entity hn]
  refine .named nonempty fun c hc => ?_
  simpa [isEntityChar] using hn c hc

theorem harmless_escapeChars (cs : List Char) : Harmless (escapeChars cs) := by
  induction cs with
  | nil => exact harmless_nil
  | cons c cs ih =>
    rw [escapeChars]
    rcases escapeChar_cases c cs with ⟨kept, plain | ⟨rfl, starts⟩⟩ | ⟨r, hr, rfl, written⟩
    · rw [kept]
      exact ih.append [c] (by simpa using plain)
    · rw [kept]
      exact ih.cons (by decide) fun _ => entity_escapeChars starts
    · rw [written]
      exact ih.reference hr

theorem harmless_escapeHtml (s : String) : Harmless (escapeHtml s).toList := by
  rw [toList_escapeHtml]
  exact harmless_escapeChars s.toList

end Escape

theorem Op.body_subset (n : Nat) (ops : List Op) : Op.body n ops ⊆ ops := by
  unfold Op.body Op.body?
  split
  · exact List.take_subset n ops
  · exact List.nil_subset ops

theorem Op.rest_subset (op : Op) (ops : List Op) : op.rest ops ⊆ ops := by
  cases op with
  | openSection name inverted n raw => exact List.drop_subset n ops
  | _ => exact List.Subset.refl ops

/-- The programs that a rendering of a template can come to carry out, lambdas apart. -/
inductive Partials.Supplies (partials : Partials) (main : Program) : Program → Prop where
  | main : Supplies partials main main
  | part {name : String} {origin : Partial} {program : Program}
      (present : partials.get? name = some origin) (compiles : origin.program = .ok program) :
    Supplies partials main program

namespace Setting

variable {setting : Setting} {main program : Program} {start task next : Task}
  {base depth depth' : Nat} {before events : List Event}

/-- Text that the programs hold themselves, or that stays text in markup. -/
def Proper (setting : Setting) (main : Program) (text : String) : Prop :=
  (∃ program, setting.partials.Supplies main program ∧ .literal text ∈ program.ops) ∨
    Escape.Harmless text.toList

/-- A task that is no more than some of a program, and takes no section over to a lambda. -/
def Marked (setting : Setting) (main : Program) : Task → Prop
  | .write text => setting.Proper main text
  | .ops ops _ _ | .block _ ops _ _ | .bodies ops _ _ =>
    ∃ program, setting.partials.Supplies main program ∧ ops ⊆ program.ops
  | .inclusion _ _ _ => True
  | .lambda _ _ _ _ => False

/-- No section is taken over by a lambda. -/
def Unclaimed (setting : Setting) : Task → Prop
  | .ops (.openSection name false _ _ :: _) scopes _ =>
    ∀ id, scopes.resolve setting.lambdas name ≠ some (.sectionLambda id)
  | _ => True

theorem Admits.program_eq {name : String} {origin : Partial}
    (h : setting.Admits depth name origin events (.ok program)) : origin.program = .ok program := by
  cases h with
  | compiled free => rfl
  | source free parsed => exact parsed

theorem textOf_proper (name : String) (scopes : Scopes) :
    setting.Proper main (setting.textOf name true scopes) := by
  refine .inr ?_
  unfold textOf
  split
  next => exact Escape.harmless_nil
  next value _ => exact Escape.harmless_escapeHtml value.text

theorem marked_sectionTask {name raw : String} {inverted : Bool} {body : List Op}
    {scopes : Scopes} {nesting : Nat} (supplied : setting.partials.Supplies main program)
    (hbody : body ⊆ program.ops)
    (unclaimed : inverted = false →
      ∀ id, scopes.resolve setting.lambdas name ≠ some (.sectionLambda id)) :
    setting.Marked main (setting.sectionTask name inverted raw body scopes nesting) := by
  unfold sectionTask
  cases hplan : SectionPlan.of inverted (scopes.resolve setting.lambdas name) with
  | skip => exact .inr Escape.harmless_nil
  | once | inner value | each items => exact ⟨program, supplied, hbody⟩
  | lambda id =>
    obtain ⟨plain, claimed⟩ := SectionPlan.found_of_value? (by rw [hplan]; rfl)
    exact absurd claimed (unclaimed plain id)

/-- One step, if no program holds an unescaped variable. -/
theorem Leads.marked (h : setting.Leads depth task events depth' next)
    (escaping : ∀ program, setting.partials.Supplies main program →
      ∀ name, .unescaped name ∉ program.ops)
    (unclaimed : setting.Unclaimed task) (marked : setting.Marked main task) :
    setting.Marked main next := by
  cases h with
  | head op ops scopes =>
    obtain ⟨program, supplied, hsub⟩ := marked
    obtain ⟨hop, hops⟩ := List.cons_subset.mp hsub
    cases op with
    | literal text => exact .inl ⟨program, supplied, hop⟩
    | escaped name => exact textOf_proper name scopes
    | unescaped name => exact absurd hop (escaping program supplied name)
    | openSection name inverted n raw =>
      have hbody : Op.body n ops ⊆ program.ops := fun op hop => hops (Op.body_subset n ops hop)
      refine marked_sectionTask supplied hbody ?_
      rintro rfl
      exact unclaimed
    | closeSection name => exact .inr Escape.harmless_nil
    | inclusion name => trivial
  | tail head =>
    obtain ⟨program, supplied, hsub⟩ := marked
    obtain ⟨-, hops⟩ := List.cons_subset.mp hsub
    exact ⟨program, supplied, fun op hop => hops (Op.rest_subset _ _ hop)⟩
  | inside free => exact marked
  | body body scopes inner => exact marked
  | others head => exact marked
  | included present admits =>
    exact ⟨_, .part present admits.program_eq, List.Subset.refl _⟩
  | helper admits | denied admits | helped admits inside => exact marked.elim

/-- Whatever a rendering comes to, its texts are held by the programs or stay texts in markup. -/
theorem Reaches.marked (h : setting.Reaches base start before depth task)
    (escaping : ∀ program, setting.partials.Supplies main program →
      ∀ name, .unescaped name ∉ program.ops)
    (unclaimed : ∀ before depth task, setting.Reaches base start before depth task →
      setting.Unclaimed task)
    (marked : setting.Marked main start) : setting.Marked main task := by
  induction h with
  | start => exact marked
  | step reached leads ih => exact leads.marked escaping (unclaimed _ _ _ reached) ih

end Setting

/-- No section lambda is in the value. -/
inductive Value.Plain : Value → Prop where
  | null : Plain null
  | bool (b : Bool) : Plain (bool b)
  | int (n : Int64) : Plain (int n)
  | float (x : Float) : Plain (float x)
  | string (s : String) : Plain (string s)
  | computed (id : LambdaId) : Plain (computed id)
  | list {items : List Value} (h : ∀ item ∈ items, Plain item) : Plain (list items)
  | map {entries : List (String × Value)} (h : ∀ key value, (key, value) ∈ entries → Plain value) :
    Plain (map entries)

theorem Value.Plain.get? {value found : Value} {key : String} (h : value.Plain)
    (hget : value.get? key = some found) : found.Plain := by
  cases h with
  | map h => exact h key found (Entries.mem_of_lookup_eq_some hget)
  | _ => cases hget

def Scopes.Plain (scopes : Scopes) : Prop :=
  ∀ value ∈ scopes.toList, value.Plain

theorem Scopes.plain_ofView {view : Value} (h : view.Plain) : (ofView view).Plain :=
  List.forall_mem_singleton.mpr h

theorem Scopes.Plain.push {scopes : Scopes} {value : Value} (h : scopes.Plain)
    (hv : value.Plain) : (scopes.push value).Plain :=
  List.forall_mem_cons.mpr ⟨hv, h⟩

theorem Scopes.Plain.top {scopes : Scopes} (h : scopes.Plain) : scopes.top.Plain :=
  h _ List.mem_cons_self

theorem Scopes.Plain.resolve {scopes : Scopes} {lambdas : Lambdas} {name : String} {value : Value}
    (h : scopes.Plain) (fields : ∀ id top, top.Plain → (lambdas.field id top).Plain)
    (hv : scopes.resolve lambdas name = some value) : value.Plain := by
  unfold Scopes.resolve at hv
  split at hv
  · cases hv
    exact h.top
  · split at hv
    next id _ =>
      cases hv
      exact fields id _ h.top
    next =>
      obtain ⟨scope, hscope, hget⟩ := List.exists_of_findSome?_eq_some hv
      exact (h scope hscope).get? hget

/-- All that the names in a task are looked up in is plain. -/
def Task.Plain : Task → Prop
  | .write _ => True
  | .ops _ scopes _ => scopes.Plain
  | .block _ _ inner _ | .bodies _ inner _ => ∀ scopes ∈ inner, scopes.Plain
  | .inclusion _ top _ => top.Plain
  | .lambda _ _ _ _ => False

namespace Setting

variable {setting : Setting} {start task next : Task} {base depth depth' : Nat}
  {before events : List Event}

theorem plain_sectionTask {name raw : String} {inverted : Bool} {body : List Op} {scopes : Scopes}
    {nesting : Nat} (fields : ∀ id top, top.Plain → (setting.lambdas.field id top).Plain)
    (plain : scopes.Plain) :
    (setting.sectionTask name inverted raw body scopes nesting).Plain := by
  have taken (value : Value) (hv : (SectionPlan.of inverted
      (scopes.resolve setting.lambdas name)).value? = some value) : value.Plain :=
    plain.resolve fields (SectionPlan.found_of_value? hv).2
  unfold sectionTask
  cases hplan : SectionPlan.of inverted (scopes.resolve setting.lambdas name) with
  | skip => trivial
  | once => exact List.forall_mem_singleton.mpr plain
  | inner value =>
    have hvalue : value.Plain := taken value (by rw [hplan]; rfl)
    exact List.forall_mem_singleton.mpr (plain.push hvalue)
  | each items =>
    have hlist : (Value.list items).Plain := taken _ (by rw [hplan]; rfl)
    cases hlist with
    | list hitems => exact List.forall_mem_map.mpr fun item hitem => plain.push (hitems item hitem)
  | lambda id => cases taken (.sectionLambda id) (by rw [hplan]; rfl)

/-- One step, if a computed field of plain values is plain. -/
theorem Leads.plain (h : setting.Leads depth task events depth' next)
    (fields : ∀ id top, top.Plain → (setting.lambdas.field id top).Plain) (plain : task.Plain) :
    next.Plain := by
  cases h with
  | head op ops scopes =>
    cases op with
    | openSection name inverted n raw => exact plain_sectionTask fields plain
    | inclusion name => exact Scopes.Plain.top plain
    | _ => trivial
  | tail head | inside free => exact plain
  | body body scopes inner => exact plain scopes List.mem_cons_self
  | others head => exact fun scopes hscopes => plain scopes (List.mem_cons_of_mem _ hscopes)
  | included present admits => exact Scopes.plain_ofView plain
  | helper admits | denied admits | helped admits inside => exact plain.elim

theorem Reaches.plain (h : setting.Reaches base start before depth task)
    (fields : ∀ id top, top.Plain → (setting.lambdas.field id top).Plain) (plain : start.Plain) :
    task.Plain := by
  induction h with
  | start => exact plain
  | step reached leads ih => exact leads.plain fields ih

/-- Values without section lambdas leave every section to its body. -/
theorem unclaimed_of_plain (fields : ∀ id top, top.Plain → (setting.lambdas.field id top).Plain)
    (plain : task.Plain) : setting.Unclaimed task := by
  unfold Unclaimed
  split
  next =>
    intro id claimed
    cases Scopes.Plain.resolve plain fields claimed
  next => trivial

end Setting

/-- Without unescaped variables, and with no section taken over by a lambda, a value cannot bring
markup in: each chunk that a sink gets is a literal of the template or of a partial, or is free of
markup characters, with ampersands only where entities start. -/
theorem chunks_literal_or_harmless (template : Template) (view : Value) (partials : Partials)
    (lambdas : Lambdas)
    (escaping : ∀ program, partials.Supplies template.program program →
      ∀ name, .unescaped name ∉ program.ops)
    (unclaimed : ∀ before depth task,
      (Setting.mk partials lambdas template.options.partialDepthLimit).Reaches 0
          (.ops template.program.ops (.ofView view) 0) before depth task →
        (Setting.mk partials lambdas template.options.partialDepthLimit).Unclaimed task) :
    ∀ (pool : Pool) {σ : Type} (sink : Sink σ) (s : σ) (chunk : String),
      .chunk chunk ∈ (pool.stream template view partials lambdas sink.traced (s, [])).2.1.2 →
        (∃ program, partials.Supplies template.program program ∧ .literal chunk ∈ program.ops) ∨
          Escape.Harmless chunk.toList := by
  intro pool σ sink s chunk h
  obtain ⟨before, depth, task, reached, writes⟩ :=
    pool.exists_reached_of_chunk template view partials lambdas sink s h
  have marked := reached.marked escaping unclaimed ⟨_, .main, List.Subset.refl _⟩
  cases writes with
  | write => exact marked
  | answer => exact marked.elim

/-- A value with an entity and other markup characters, shown by a partial for a list. -/
theorem harmless_chunks_of_list_item :
    ∃ template : Template, template.text = "{{#l}}{{>p}}{{/l}}" ∧
      let view := Value.map [("l", .list [.string "<&lt;&>"])]
      let partials := Partials.ofSources [("p", "<b>{{.}}</b>")]
      let lambdas : Lambdas := ⟨fun _ v => v, fun _ call => .done (.ok call.text)⟩
      let calls := (Pool.initial.stream template view partials lambdas Sink.patient.traced
        ([], [])).2.1.2
      (Pool.initial.stream template view partials lambdas .patient []).2.1 =
          ["<b>", "&lt;&lt;&amp;&gt;", "</b>"] ∧
        ∀ chunk, .chunk chunk ∈ calls →
          (∃ program, partials.Supplies template.program program ∧ .literal chunk ∈ program.ops) ∨
            Escape.Harmless chunk.toList := by
  have compiles : parse "{{#l}}{{>p}}{{/l}}" .standard =
      .ok ⟨[.openSection "l" false 1 "{{>p}}", .inclusion "p", .closeSection "l"]⟩ := by
    rw [parse_eq_ok_iff]
    decide +kernel
  have compiles' : parse "<b>{{.}}</b>" .standard =
      .ok ⟨[.literal "<b>", .escaped ".", .literal "</b>"]⟩ := by
    rw [parse_eq_ok_iff]
    decide +kernel
  refine ⟨⟨_, .standard, _, ⟨0, 0⟩, compiles⟩, rfl, ?_⟩
  intro view partials lambdas calls
  have written : (((Setting.mk partials lambdas 64).rendering
      ⟨[.openSection "l" false 1 "{{>p}}", .inclusion "p", .closeSection "l"]⟩ view).run .patient
        .cached [] (Pool.initial.storeOf? 0)).sink = ["<b>", "&lt;&lt;&amp;&gt;", "</b>"] := by
    decide +kernel
  refine ⟨written, ?_⟩
  have plain : view.Plain := by
    refine .map fun key value hentry => ?_
    cases List.mem_singleton.mp hentry
    refine .list fun item hitem => ?_
    cases List.mem_singleton.mp hitem
    exact .string _
  refine chunks_literal_or_harmless _ view partials lambdas ?_ ?_ .initial .patient []
  · intro program supplied name
    cases supplied with
    | main => simp
    | @part key origin program present compiles'' =>
      cases List.mem_singleton.mp (Entries.mem_of_lookup_eq_some present)
      cases compiles'.symm.trans compiles''
      simp
  · intro before depth task reached
    exact Setting.unclaimed_of_plain (fun _ _ h => h)
      (reached.plain (fun _ _ h => h) (Scopes.plain_ofView plain))

end Mustache
