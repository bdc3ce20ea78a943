import Mustache.Proofs.Delivery
import Mustache.Proofs.Keys

namespace Mustache

namespace Value

mutual

/-- The value without the entries under other keys, in all maps inside. -/
def visible (keys : List String) : Value → Value
  | list items => list (visibleItems keys items)
  | map entries => map (visibleEntries keys entries)
  | v => v

def visibleItems (keys : List String) : List Value → List Value
  | [] => []
  | item :: items => visible keys item :: visibleItems keys items

def visibleEntries (keys : List String) : List (String × Value) → List (String × Value)
  | [] => []
  | (key, item) :: entries =>
    if key ∈ keys then (key, visible keys item) :: visibleEntries keys entries
    else visibleEntries keys entries

end

mutual

/-- There is no function in the value. -/
def isInert : Value → Bool
  | list items => areInert items
  | map entries => areEntriesInert entries
  | computed _ | sectionLambda _ => false
  | _ => true

def areInert : List Value → Bool
  | [] => true
  | item :: items => isInert item && areInert items

def areEntriesInert : List (String × Value) → Bool
  | [] => true
  | (_, item) :: entries => isInert item && areEntriesInert entries

end

variable {keys : List String}

theorem visibleItems_eq_map (items : List Value) :
    visibleItems keys items = items.map (visible keys) := by
  induction items with
  | nil => rfl
  | cons item items ih => rw [visibleItems, ih, List.map_cons]

theorem areInert_iff {items : List Value} : areInert items ↔ ∀ item ∈ items, item.isInert := by
  induction items with
  | nil => simp [areInert]
  | cons item items ih => simp [areInert, ih]

theorem areEntriesInert_iff {entries : List (String × Value)} :
    areEntriesInert entries ↔ ∀ entry ∈ entries, entry.2.isInert := by
  induction entries with
  | nil => simp [areEntriesInert]
  | cons entry entries ih => simp [areEntriesInert, ih]

mutual

theorem isInert_visible {v : Value} (h : v.isInert) : (v.visible keys).isInert := by
  cases v with
  | list items => exact areInert_visible h
  | map entries => exact areEntriesInert_visible h
  | _ => exact h

theorem areInert_visible {items : List Value} (h : areInert items) :
    areInert (visibleItems keys items) := by
  cases items with
  | nil => rfl
  | cons item items =>
    simp only [areInert, Bool.and_eq_true] at h
    simp only [visibleItems, areInert, isInert_visible h.1, areInert_visible h.2, Bool.and_self]

theorem areEntriesInert_visible {entries : List (String × Value)} (h : areEntriesInert entries) :
    areEntriesInert (visibleEntries keys entries) := by
  cases entries with
  | nil => rfl
  | cons entry entries =>
    obtain ⟨key, item⟩ := entry
    simp only [areEntriesInert, Bool.and_eq_true] at h
    have rest := areEntriesInert_visible h.2
    unfold visibleEntries
    split
    · simp only [areEntriesInert, isInert_visible h.1, rest, Bool.and_self]
    · exact rest

end

theorem isInert_of_get? {key : String} {v found : Value} (h : v.isInert)
    (hget : v.get? key = some found) : found.isInert := by
  cases v with
  | map entries => exact areEntriesInert_iff.mp h _ (Entries.mem_of_lookup_eq_some hget)
  | _ => cases hget

/-- What is found under a visible key does not depend on the other keys of the map. -/
theorem lookup_visibleEntries {key : String} (h : key ∈ keys) (entries : List (String × Value)) :
    (visibleEntries keys entries).lookup key = (entries.lookup key).map (visible keys) := by
  induction entries with
  | nil => rfl
  | cons entry entries ih =>
    obtain ⟨other, item⟩ := entry
    by_cases he : key = other
    · subst he
      simp [visibleEntries, h]
    · have hne : (key == other) = false := by simpa using he
      unfold visibleEntries
      split <;> simp [List.lookup_cons, hne, ih]

theorem get?_visible {key : String} (h : key ∈ keys) (v : Value) :
    (v.visible keys).get? key = (v.get? key).map (visible keys) := by
  cases v with
  | map entries => exact lookup_visibleEntries h entries
  | _ => rfl

mutual

/-- Maps have no text, so what is in them does not show. -/
theorem text_visible (v : Value) : (v.visible keys).text = v.text := by
  cases v with
  | list items => rw [visible, text, text, texts_visible items]
  | _ => rfl

theorem texts_visible (items : List Value) : texts (visibleItems keys items) = texts items := by
  cases items with
  | nil => rfl
  | cons item items => rw [visibleItems, texts, texts, text_visible item, texts_visible items]

end

end Value

namespace Scopes

def visible (keys : List String) (scopes : Scopes) : Scopes :=
  ⟨scopes.top.visible keys, scopes.outer.map (Value.visible keys)⟩

def Inert (scopes : Scopes) : Prop :=
  ∀ v ∈ scopes.toList, v.isInert

variable {keys : List String} {scopes : Scopes} {lambdas : Lambdas} {name : String}

theorem toList_visible (keys : List String) (scopes : Scopes) :
    (scopes.visible keys).toList = scopes.toList.map (Value.visible keys) :=
  rfl

theorem inert_ofView {view : Value} (h : view.isInert) : (ofView view).Inert :=
  List.forall_mem_singleton.mpr h

theorem Inert.top (h : scopes.Inert) : scopes.top.isInert :=
  h _ List.mem_cons_self

theorem Inert.push (h : scopes.Inert) {v : Value} (hv : v.isInert) : (scopes.push v).Inert :=
  List.forall_mem_cons.mpr ⟨hv, h⟩

theorem Inert.visible (h : scopes.Inert) : (scopes.visible keys).Inert := by
  intro v hv
  rw [toList_visible] at hv
  obtain ⟨w, hw, rfl⟩ := List.mem_map.mp hv
  exact Value.isInert_visible (h w hw)

theorem Inert.of_findSome? (h : scopes.Inert) {v : Value}
    (hv : scopes.toList.findSome? (Value.get? name) = some v) : v.isInert := by
  obtain ⟨scope, hscope, hget⟩ := List.exists_of_findSome?_eq_some hv
  exact Value.isInert_of_get? (h scope hscope) hget

/-- Without functions nothing is computed when a name is looked up. -/
theorem Inert.resolve_eq (h : scopes.Inert) (lambdas : Lambdas) (name : String) :
    scopes.resolve lambdas name =
      if name = "." then some scopes.top else scopes.toList.findSome? (Value.get? name) := by
  unfold resolve
  split
  · rfl
  · split
    next id hfound =>
      have inert : (Value.computed id).isInert := h.of_findSome? hfound
      cases inert
    · rfl

theorem Inert.isInert_of_resolve (h : scopes.Inert) {v : Value}
    (hv : scopes.resolve lambdas name = some v) : v.isInert := by
  rw [h.resolve_eq] at hv
  split at hv
  · cases hv
    exact h.top
  · exact h.of_findSome? hv

/-- A name is found in the same scope if no entry under it is taken away. -/
theorem Inert.resolve_visible (h : scopes.Inert) (hname : name ≠ "." → name ∈ keys)
    (lambdas lambdas' : Lambdas) :
    (scopes.visible keys).resolve lambdas' name =
      (scopes.resolve lambdas name).map (Value.visible keys) := by
  rw [h.resolve_eq, h.visible.resolve_eq]
  by_cases hdot : name = "."
  · rw [if_pos hdot, if_pos hdot]
    rfl
  · have hget : Value.get? name ∘ Value.visible keys =
        Option.map (Value.visible keys) ∘ Value.get? name :=
      funext (Value.get?_visible (hname hdot))
    rw [if_neg hdot, if_neg hdot, toList_visible, List.findSome?_map, hget, List.map_findSome?]

end Scopes

/-- With nodes that look for these keys only, the second evaluator does in what is visible of some
scopes what the first one does in the scopes. -/
def Evaluator.SeenBy (keys : List String) (eval eval' : Evaluator) : Prop :=
  ∀ nodes scopes nesting, Node.Within keys nodes → scopes.Inert →
    eval' nodes (scopes.visible keys) nesting = eval nodes scopes nesting

namespace Setting

open Transcript

variable {setting : Setting} {lambdas : Lambdas} {keys : List String}
  {eval? eval'? : Option Evaluator} {scopes : Scopes} {name : String}

theorem textOf_visible (inert : scopes.Inert) (hname : name ≠ "." → name ∈ keys)
    (escaped : Bool) :
    Setting.textOf { setting with lambdas } name escaped (scopes.visible keys) =
      setting.textOf name escaped scopes := by
  unfold textOf
  rw [inert.resolve_visible hname setting.lambdas]
  cases scopes.resolve setting.lambdas name with
  | none => rfl
  | some v => simp only [Option.map_some, Value.text_visible]

theorem evaluatePartial_visible (inner : Option.Rel (Evaluator.SeenBy keys) eval? eval'?)
    (hsub : setting.partials.keys ⊆ keys) (inert : scopes.Inert) (name : String) (nesting : Nat) :
    Setting.evaluatePartial { setting with lambdas } eval'? name (scopes.visible keys).top nesting =
      setting.evaluatePartial eval? name scopes.top nesting := by
  unfold evaluatePartial
  cases hentry : setting.partials.get? name with
  | none => rfl
  | some entry =>
    cases inner with
    | none => rfl
    | some seen =>
      dsimp only
      cases hnodes : entry.nodes with
      | error e => rfl
      | ok nodes =>
        have within : Node.Within keys nodes :=
          (Partial.within_keys hnodes).mono fun _ hkey => hsub (Partials.keys_subset hentry hkey)
        exact seen nodes (.ofView scopes.top) nesting within (Scopes.inert_ofView inert.top)

theorem withinSection_congr {nesting : Nat} {body body' : Nat → Transcript Unit}
    (h : ∀ n, body' n = body n) :
    withinSection name nesting body' = withinSection name nesting body := by
  rw [funext h]

section

variable {children children' : Scopes → Nat → Transcript Unit}

/-- Whether a value lets an inverted section be rendered does not depend on what is in its maps. -/
theorem evaluateSection_inverted_visible
    (h : ∀ scopes nesting, scopes.Inert →
      children' (scopes.visible keys) nesting = children scopes nesting)
    (inert : scopes.Inert) (hname : name ≠ "." → name ∈ keys) (raw : String) (nesting : Nat) :
    Setting.evaluateSection { setting with lambdas } eval'? children' name true raw
        (scopes.visible keys) nesting =
      setting.evaluateSection eval? children name true raw scopes nesting := by
  have once : withinSection name nesting (children' (scopes.visible keys)) =
      withinSection name nesting (children scopes) :=
    withinSection_congr fun n => h scopes n inert
  unfold evaluateSection
  rw [inert.resolve_visible hname setting.lambdas]
  cases scopes.resolve setting.lambdas name with
  | none => exact once
  | some v =>
    cases v with
    | null => exact once
    | bool b =>
      cases b with
      | false => exact once
      | true => rfl
    | list items =>
      cases items with
      | nil => exact once
      | cons item items => rfl
    | _ => rfl

/-- The scopes of a section body are what is visible of the scopes it had. -/
theorem evaluateSection_plain_visible
    (h : ∀ scopes nesting, scopes.Inert →
      children' (scopes.visible keys) nesting = children scopes nesting)
    (inert : scopes.Inert) (hname : name ≠ "." → name ∈ keys) (raw : String) (nesting : Nat) :
    Setting.evaluateSection { setting with lambdas } eval'? children' name false raw
        (scopes.visible keys) nesting =
      setting.evaluateSection eval? children name false raw scopes nesting := by
  unfold evaluateSection
  rw [inert.resolve_visible hname setting.lambdas]
  cases hv : scopes.resolve setting.lambdas name with
  | none => rfl
  | some v =>
    have hinert : v.isInert := inert.isInert_of_resolve hv
    cases v with
    | computed | sectionLambda => cases hinert
    | list items =>
      refine withinSection_congr fun n => ?_
      rw [Value.visibleItems_eq_map, forEach_map]
      refine forEach_congr fun item hitem => ?_
      exact h (scopes.push item) n (inert.push (Value.areInert_iff.mp hinert item hitem))
    | map entries =>
      exact withinSection_congr fun n => h (scopes.push (.map entries)) n (inert.push hinert)
    | _ =>
      simp only [Option.map_some, Value.visible]
      split
      · exact withinSection_congr fun n => h scopes n inert
      · rfl

end

mutual

theorem evaluate_visible (inner : Option.Rel (Evaluator.SeenBy keys) eval? eval'?)
    (hsub : setting.partials.keys ⊆ keys) (node : Node) (within : Node.Within keys [node])
    (scopes : Scopes) (nesting : Nat) (inert : scopes.Inert) :
    Setting.evaluate { setting with lambdas } eval'? node (scopes.visible keys) nesting =
      setting.evaluate eval? node scopes nesting := by
  cases node with
  | text s => rfl
  | variableTag name escaped =>
    rw [evaluate, evaluate, textOf_visible inert (Node.within_variableTag within)]
  | inclusion name => exact evaluatePartial_visible inner hsub inert name nesting
  | block name inverted raw children =>
    obtain ⟨hname, inside⟩ := Node.within_block within
    have hchildren (scopes : Scopes) (nesting : Nat) (inert : scopes.Inert) :=
      evaluateAll_visible inner hsub children inside scopes nesting inert
    cases inverted with
    | true => exact evaluateSection_inverted_visible hchildren inert hname raw nesting
    | false => exact evaluateSection_plain_visible hchildren inert hname raw nesting

theorem evaluateAll_visible (inner : Option.Rel (Evaluator.SeenBy keys) eval? eval'?)
    (hsub : setting.partials.keys ⊆ keys) (nodes : List Node) (within : Node.Within keys nodes)
    (scopes : Scopes) (nesting : Nat) (inert : scopes.Inert) :
    Setting.evaluateAll { setting with lambdas } eval'? nodes (scopes.visible keys) nesting =
      setting.evaluateAll eval? nodes scopes nesting := by
  cases nodes with
  | nil => rfl
  | cons node nodes =>
    obtain ⟨first, others⟩ := Node.within_cons.mp within
    rw [evaluateAll, evaluateAll, evaluate_visible inner hsub node first scopes nesting inert,
      evaluateAll_visible inner hsub nodes others scopes nesting inert]

end

theorem seenBy_evaluateAll (inner : Option.Rel (Evaluator.SeenBy keys) eval? eval'?)
    (hsub : setting.partials.keys ⊆ keys) :
    Evaluator.SeenBy keys (setting.evaluateAll eval?)
      (Setting.evaluateAll { setting with lambdas } eval'?) :=
  fun nodes scopes nesting within inert =>
    evaluateAll_visible inner hsub nodes within scopes nesting inert

theorem seenBy_evaluator (hsub : setting.partials.keys ⊆ keys) (depth : Nat) :
    Evaluator.SeenBy keys (setting.evaluator depth)
      (Setting.evaluator { setting with lambdas } depth) := by
  induction depth with
  | zero => exact seenBy_evaluateAll .none hsub
  | succ depth ih => exact seenBy_evaluateAll (.some ih) hsub

/-- A rendering of a view is one of what is visible of it, whatever the functions do. -/
theorem transcript_visible (setting : Setting) (lambdas : Lambdas) (template : Template)
    {view : Value} (inert : view.isInert) (hown : template.keys ⊆ keys)
    (hsub : setting.partials.keys ⊆ keys) :
    (Setting.rendering { setting with lambdas } template.program (view.visible keys)).transcript =
      (setting.rendering template.program view).transcript := by
  obtain ⟨nodes, hnodes, hops⟩ := nodes_of_parse template.compiled
  have within : Node.Within keys nodes := (Node.within_of_parse hnodes).mono hown
  rw [rendering, rendering, hops, refines_runner _ nodes, refines_runner _ nodes]
  exact seenBy_evaluator hsub setting.depthLimit nodes (.ofView view) 0 within
    (Scopes.inert_ofView inert)

end Setting

/-- Two views without functions that differ only under keys that no tag of the template or of a
partial names are rendered by the same calls of the sink, to the same result. -/
theorem stream_ignores_unnamed_keys (template : Template) (partials : Partials)
    (view view' : Value) (inert : view.isInert) (inert' : view'.isInert)
    (same : view.visible (template.keys ++ partials.keys) =
      view'.visible (template.keys ++ partials.keys)) (lambdas lambdas' : Lambdas) :
    (∀ (pool pool' : Pool) {σ : Type} (sink : Sink σ) (s : σ),
      let r := pool.stream template view partials lambdas sink s
      let r' := pool'.stream template view' partials lambdas' sink s
      let t := pool.stream template view partials lambdas sink.traced (s, [])
      let t' := pool'.stream template view' partials lambdas' sink.traced (s, [])
      r.1 = r'.1 ∧ r.2.1 = r'.2.1 ∧ t.1 = t'.1 ∧ t.2.1 = t'.2.1) ∧
    ∀ pool pool' : Pool, (pool.render template view partials lambdas).1 =
      (pool'.render template view' partials lambdas').1 := by
  let setting : Setting := ⟨partials, lambdas, template.options.partialDepthLimit⟩
  let setting' : Setting := ⟨partials, lambdas', template.options.partialDepthLimit⟩
  have hown : template.keys ⊆ template.keys ++ partials.keys := List.subset_append_left _ _
  have hsub : partials.keys ⊆ template.keys ++ partials.keys := List.subset_append_right _ _
  -- Both renderings are that of the part that the views have in common.
  have first := setting.transcript_visible lambdas template inert hown hsub
  have second := setting'.transcript_visible lambdas template inert' hown hsub
  have course : (setting.rendering template.program view).transcript =
      (setting'.rendering template.program view').transcript := by
    rw [← first, ← second, same]
  have stream (pool pool' : Pool) {σ : Type} (sink : Sink σ) (s : σ) :
      (pool.stream template view partials lambdas sink s).1 =
          (pool'.stream template view' partials lambdas' sink s).1 ∧
        (pool.stream template view partials lambdas sink s).2.1 =
          (pool'.stream template view' partials lambdas' sink s).2.1 := by
    have hr := pool.stream_eq_deliver template view partials lambdas sink s
    have hr' := pool'.stream_eq_deliver template view' partials lambdas' sink s
    rw [course, ← hr'] at hr
    exact Prod.mk.inj hr
  refine ⟨?_, ?_⟩
  · intro pool pool' σ sink s r r' t t'
    obtain ⟨result, state⟩ := stream pool pool' sink s
    exact ⟨result, state, stream pool pool' sink.traced (s, [])⟩
  · intro pool pool'
    obtain ⟨result, text⟩ := stream pool pool' .joined ""
    simp only [Pool.render, result, text]

/-- The age of a user changes, and maps get more entries, one of them under the name `.`. -/
theorem render_ignores_age :
    ∃ template : Template, template.text = "{{#u}}{{name}}{{>p}}{{/u}}" ∧
      let partials := Partials.ofSources [("p", "{{.}}{{#t}}{{.}},{{/t}}")]
      let lambdas : Lambdas := ⟨fun _ v => v, fun _ call => .done (.ok call.text)⟩
      let user := Value.map [("age", .int 1), ("name", .string "a")]
      let user' := Value.map [(".", .string "b"), ("age", .list [.map [("name", .null)]]),
        ("name", .string "a")]
      let view := Value.map [("u", .list [user])]
      let view' := Value.map [("all", .null), ("u", .list [user'])]
      view.isInert ∧ view'.isInert ∧
        view.visible (template.keys ++ partials.keys) =
          view'.visible (template.keys ++ partials.keys) ∧
        (Pool.initial.render template view partials lambdas).1 =
          (Pool.initial.render template view' partials lambdas).1 := by
  have compiles : parse "{{#u}}{{name}}{{>p}}{{/u}}" .standard =
      .ok ⟨[.openSection "u" false 2 "{{name}}{{>p}}", .escaped "name", .inclusion "p",
        .closeSection "u"]⟩ := by
    rw [parse_eq_ok_iff]
    decide +kernel
  have keys : (scan "{{#u}}{{name}}{{>p}}{{/u}}".toList Options.standard.tags).keys ++
      (Partials.ofSources [("p", "{{.}}{{#t}}{{.}},{{/t}}")]).keys =
        ["u", "name", "t"] := by
    decide +kernel
  refine ⟨⟨_, .standard, _, ⟨0, 0⟩, compiles⟩, rfl, ?_⟩
  intro partials lambdas user user' view view'
  have same : view.visible ["u", "name", "t"] = view'.visible ["u", "name", "t"] :=
    rfl
  rw [← keys] at same
  have ignored := stream_ignores_unnamed_keys ⟨_, .standard, _, ⟨0, 0⟩, compiles⟩ partials view
    view' rfl rfl same lambdas lambdas
  exact ⟨rfl, rfl, same, ignored.2 _ _⟩

end Mustache
