import Mathlib.Data.List.Induction
import Mustache.Entries
import Mustache.Proofs.Caching

namespace Mustache

/-- A text that was compiled, and the template that was handed out for it. -/
structure Compilation where
  text : String
  options : Options
  template : Template

def Compilation.key (c : Compilation) : CacheKey :=
  .of c.text c.options

/-- What happens to storages in the course of time, the failures left out. -/
inductive CacheEvent where
  | compiled (storage : StorageId) (c : Compilation)
  | cleared (storage : StorageId)

def CacheEvent.storage : CacheEvent → StorageId
  | compiled id _ => id
  | cleared id => id

/-- Since the storage was cleared last, there was a compilation for it that satisfies `p`, together
with the history before it. -/
def SinceClear (history : List CacheEvent) (id : StorageId)
    (p : List CacheEvent → Compilation → Prop) : Prop :=
  ∃ before c after, history = before ++ .compiled id c :: after ∧ p before c ∧ .cleared id ∉ after

/-- A text was compiled under the key, to be kept. -/
def Recorded (history : List CacheEvent) (id : StorageId) (key : CacheKey) : Prop :=
  SinceClear history id fun _ c => c.options.cache ∧ c.key = key

/-- The compilation is the one that recorded its key. -/
def RecordedBy (history : List CacheEvent) (id : StorageId) (r : Compilation) : Prop :=
  SinceClear history id fun before c => c = r ∧ c.options.cache ∧ ¬Recorded before id c.key

/-- The template that a compilation hands out after some history: that of the compilation that
recorded the key, or one that differs from all before. -/
structure HandsOut (history : List CacheEvent) (id : StorageId) (c : Compilation) : Prop where
  kept : c.options.cache → Recorded history id c.key →
    ∃ r, RecordedBy history id r ∧ r.key = c.key ∧ c.template = r.template ∧
      c.template.text = r.text ∧ c.template.options = r.options
  fresh : ¬(c.options.cache ∧ Recorded history id c.key) →
    c.template.text = c.text ∧ c.template.options = c.options ∧
      ∀ id' c', .compiled id' c' ∈ history → c'.template.identity ≠ c.template.identity

variable {history more : List CacheEvent} {id : StorageId} {key : CacheKey} {r : Compilation}
  {p : List CacheEvent → Compilation → Prop}

theorem not_sinceClear_nil : ¬SinceClear [] id p := by
  rintro ⟨before, c, after, h, -⟩
  simp at h

theorem sinceClear_concat (history : List CacheEvent) (e : CacheEvent) :
    SinceClear (history ++ [e]) id p ↔
      (∃ c, e = .compiled id c ∧ p history c) ∨ e ≠ .cleared id ∧ SinceClear history id p := by
  constructor
  · rintro ⟨before, c, after, h, hp, hclear⟩
    rcases List.eq_nil_or_concat after with rfl | ⟨after, last, rfl⟩
    · obtain ⟨rfl, hlast⟩ := List.append_inj' h rfl
      exact .inl ⟨c, List.singleton_inj.mp hlast, hp⟩
    · rw [List.concat_eq_append, ← List.cons_append, ← List.append_assoc] at h
      obtain ⟨rfl, hlast⟩ := List.append_inj' h rfl
      obtain rfl := List.singleton_inj.mp hlast
      rw [List.concat_eq_append, List.mem_append, List.mem_singleton, not_or] at hclear
      exact .inr ⟨fun he => hclear.2 he.symm, before, c, after, rfl, hp, hclear.1⟩
  · rintro (⟨c, rfl, hp⟩ | ⟨he, before, c, after, rfl, hp, hclear⟩)
    · exact ⟨history, c, [], rfl, hp, by simp⟩
    · refine ⟨before, c, after ++ [e], by simp, hp, ?_⟩
      rw [List.mem_append, List.mem_singleton, not_or]
      exact ⟨hclear, fun h => he h.symm⟩

/-- What happens to other storages makes no difference. -/
theorem sinceClear_append_other (h : ∀ e ∈ more, e.storage ≠ id) :
    SinceClear (history ++ more) id p ↔ SinceClear history id p := by
  induction more generalizing history with
  | nil => rw [List.append_nil]
  | cons e more ih =>
    have he : e.storage ≠ id := h e List.mem_cons_self
    rw [← List.singleton_append, ← List.append_assoc,
      ih fun e he => h e (List.mem_cons_of_mem _ he), sinceClear_concat]
    constructor
    · rintro (⟨c, rfl, -⟩ | ⟨-, hsince⟩)
      · exact absurd rfl he
      · exact hsince
    · intro hsince
      refine .inr ⟨?_, hsince⟩
      rintro rfl
      exact he rfl

theorem not_sinceClear_of_absent (h : ∀ e ∈ history, e.storage ≠ id) :
    ¬SinceClear history id p := by
  have hother : SinceClear ([] ++ history) id p ↔ SinceClear [] id p :=
    sinceClear_append_other h
  rw [List.nil_append] at hother
  rw [hother]
  exact not_sinceClear_nil

/-- Of all compilations that have recorded a key since the last clear, there is a first. -/
theorem recorded_iff :
    Recorded history id key ↔ ∃ r, RecordedBy history id r ∧ r.key = key := by
  induction history using List.reverseRecOn with
  | nil =>
    exact ⟨fun h => absurd h not_sinceClear_nil, fun ⟨_, h, _⟩ => absurd h not_sinceClear_nil⟩
  | append_singleton history e ih =>
    simp only [Recorded, RecordedBy, sinceClear_concat] at ih ⊢
    constructor
    · rintro (⟨c, rfl, hcache, rfl⟩ | ⟨he, hsince⟩)
      · by_cases before : Recorded history id c.key
        · obtain ⟨r, hr, hkey⟩ := ih.mp before
          exact ⟨r, .inr ⟨nofun, hr⟩, hkey⟩
        · exact ⟨c, .inl ⟨c, rfl, rfl, hcache, before⟩, rfl⟩
      · obtain ⟨r, hr, hkey⟩ := ih.mp hsince
        exact ⟨r, .inr ⟨he, hr⟩, hkey⟩
    · rintro ⟨r, (⟨c, rfl, rfl, hcache, -⟩ | ⟨he, hr⟩), hkey⟩
      · exact .inl ⟨c, rfl, hcache, hkey⟩
      · exact .inr ⟨he, ih.mpr ⟨r, hr, hkey⟩⟩

theorem mem_of_sinceClear (h : SinceClear history id p) :
    ∃ before c, .compiled id c ∈ history ∧ p before c := by
  obtain ⟨before, c, after, rfl, hp, -⟩ := h
  exact ⟨before, c, by simp, hp⟩

theorem RecordedBy.mem (h : RecordedBy history id r) : .compiled id r ∈ history := by
  obtain ⟨-, c, hmem, rfl, -⟩ := mem_of_sinceClear h
  exact hmem

theorem recordedBy_concat_compiled {c : Compilation} :
    RecordedBy (history ++ [.compiled id c]) id r ↔
      (r = c ∧ c.options.cache ∧ ¬Recorded history id c.key) ∨ RecordedBy history id r := by
  rw [RecordedBy, sinceClear_concat]
  constructor
  · rintro (⟨_, ⟨⟩, rfl, hr⟩ | ⟨-, hr⟩)
    · exact .inl ⟨rfl, hr⟩
    · exact .inr hr
  · rintro (⟨rfl, hr⟩ | hr)
    · exact .inl ⟨r, rfl, rfl, hr⟩
    · exact .inr ⟨nofun, hr⟩

/-- A compilation that is not the first to record its key records nothing. -/
theorem recordedBy_concat_of_not {c : Compilation}
    (h : ¬(c.options.cache ∧ ¬Recorded history id c.key)) :
    RecordedBy (history ++ [.compiled id c]) id r ↔ RecordedBy history id r := by
  rw [recordedBy_concat_compiled, or_iff_right]
  exact fun hc => h hc.2

/-- A history in which each compilation handed out the template that it should. -/
structure Orderly (history : List CacheEvent) : Prop where
  own : ∀ id c, .compiled id c ∈ history → c.template.identity.storage = id
  handsOut : ∀ before id c after, history = before ++ .compiled id c :: after → HandsOut before id c

theorem orderly_nil : Orderly [] :=
  ⟨nofun, fun before id c after h => by simp at h⟩

theorem Orderly.concat {e : CacheEvent} (h : Orderly history)
    (he : ∀ id c, e = .compiled id c → c.template.identity.storage = id ∧ HandsOut history id c) :
    Orderly (history ++ [e]) := by
  constructor
  · intro id c hmem
    rcases List.mem_append.mp hmem with hmem | hmem
    · exact h.own id c hmem
    · exact (he id c (List.mem_singleton.mp hmem).symm).1
  · intro before id c after hsplit
    rcases List.eq_nil_or_concat after with rfl | ⟨after, last, rfl⟩
    · obtain ⟨rfl, hlast⟩ := List.append_inj' hsplit rfl
      exact (he id c (List.singleton_inj.mp hlast)).2
    · rw [List.concat_eq_append, ← List.cons_append, ← List.append_assoc] at hsplit
      obtain ⟨hsplit, -⟩ := List.append_inj' hsplit rfl
      exact h.handsOut before id c after hsplit

theorem Orderly.of_recordedBy (h : Orderly history) (hr : RecordedBy history id r) :
    r.template.text = r.text ∧ r.template.options = r.options := by
  obtain ⟨before, c, after, rfl, ⟨rfl, -, first⟩, -⟩ := hr
  obtain ⟨htext, hoptions, -⟩ :=
    (h.handsOut before id c after rfl).fresh fun recorded => first recorded.2
  exact ⟨htext, hoptions⟩

namespace Store

/-- The store holds what was recorded for it, and new templates will have new serial numbers. -/
structure Keeps (store : Store) (history : List CacheEvent) : Prop where
  kept : ∀ key template, store.get? key = some template ↔
    ∃ r, RecordedBy history store.id r ∧ r.key = key ∧ r.template = template
  distinct : (store.entries.map (·.1)).Nodup
  made : ∀ c, .compiled store.id c ∈ history → c.template.identity.serial < store.made

variable {store : Store} {text : String} {options : Options} {template : Template}

theorem Keeps.isSome_get?_iff (h : store.Keeps history) (key : CacheKey) :
    (store.get? key).isSome ↔ Recorded history store.id key := by
  rw [recorded_iff, Option.isSome_iff_exists]
  constructor
  · rintro ⟨template, hkept⟩
    obtain ⟨r, hr, hkey, -⟩ := (h.kept key template).mp hkept
    exact ⟨r, hr, hkey⟩
  · rintro ⟨r, hr, hkey⟩
    exact ⟨r.template, (h.kept key r.template).mpr ⟨r, hr, hkey, rfl⟩⟩

/-- A kept template is handed out again. -/
theorem Keeps.again (h : store.Keeps history) (orderly : Orderly history)
    (hcache : options.cache) (hkept : store.get? (.of text options) = some template) :
    store.Keeps (history ++ [.compiled store.id ⟨text, options, template⟩]) ∧
      Orderly (history ++ [.compiled store.id ⟨text, options, template⟩]) := by
  obtain ⟨r, hr, hkey, rfl⟩ := (h.kept (.of text options) template).mp hkept
  have recorded : Recorded history store.id (.of text options) := recorded_iff.mpr ⟨r, hr, hkey⟩
  obtain ⟨htext, hoptions⟩ := orderly.of_recordedBy hr
  constructor
  · refine ⟨fun key template => ?_, h.distinct, fun c hmem => ?_⟩
    · rw [h.kept]
      refine exists_congr fun r' => and_congr_left' ?_
      exact (recordedBy_concat_of_not fun first => first.2 recorded).symm
    · rcases List.mem_append.mp hmem with hmem | hmem
      · exact h.made c hmem
      · cases List.mem_singleton.mp hmem
        exact h.made r hr.mem
  · refine orderly.concat ?_
    rintro _ _ ⟨⟩
    refine ⟨orderly.own _ r hr.mem, fun _ _ => ⟨r, hr, hkey, rfl, htext, hoptions⟩, fun hnot => ?_⟩
    exact absurd ⟨hcache, recorded⟩ hnot

theorem Keeps.orderly_fresh (h : store.Keeps history) (orderly : Orderly history)
    (hnew : ¬(options.cache ∧ (store.get? (.of text options)).isSome))
    (htext : template.text = text) (hoptions : template.options = options)
    (hidentity : template.identity = ⟨store.id, store.made⟩) :
    Orderly (history ++ [.compiled store.id ⟨text, options, template⟩]) := by
  refine orderly.concat ?_
  rintro _ _ ⟨⟩
  refine ⟨by rw [hidentity], fun hcache recorded => ?_, fun _ => ⟨htext, hoptions, ?_⟩⟩
  · exact absurd ⟨hcache, (h.isSome_get?_iff _).mpr recorded⟩ hnew
  · intro id c hmem hsame
    rw [hidentity] at hsame
    have hstorage := orderly.own id c hmem
    rw [hsame] at hstorage
    cases hstorage
    have hmade := h.made c hmem
    rw [hsame] at hmade
    exact Nat.lt_irrefl _ hmade

theorem Keeps.lt_made (h : store.Keeps history)
    (hidentity : template.identity = ⟨store.id, store.made⟩) :
    ∀ c, .compiled store.id c ∈ history ++ [.compiled store.id ⟨text, options, template⟩] →
      c.template.identity.serial < store.made + 1 := by
  intro c hmem
  rcases List.mem_append.mp hmem with hmem | hmem
  · exact Nat.lt_succ_of_lt (h.made c hmem)
  · cases List.mem_singleton.mp hmem
    rw [hidentity]
    exact Nat.lt_succ_self _

/-- A new template that is not kept leaves no trace but its serial number. -/
theorem Keeps.skip (h : store.Keeps history) (hcache : ¬options.cache)
    (hidentity : template.identity = ⟨store.id, store.made⟩) :
    Keeps { store with made := store.made + 1 }
      (history ++ [.compiled store.id ⟨text, options, template⟩]) := by
  refine ⟨fun key template => ?_, h.distinct, h.lt_made hidentity⟩
  refine (h.kept key template).trans (exists_congr fun r => and_congr_left' ?_)
  exact (recordedBy_concat_of_not fun first => hcache first.1).symm

theorem get?_keep (store : Store) (template : Template) (key : CacheKey) :
    (store.keep template).get? key =
      if key = .of template.text template.options then some template else store.get? key := by
  unfold get? keep
  rw [List.lookup_cons]
  by_cases hkey : key = .of template.text template.options
  · simp [hkey]
  · have hne : (key == .of template.text template.options) = false := by simpa using hkey
    rw [hne, if_neg hkey]

/-- A new template that is kept records its key. -/
theorem Keeps.keep (h : store.Keeps history) (hcache : template.options.cache)
    (hnew : ¬(store.get? (.of template.text template.options)).isSome)
    (hidentity : template.identity = ⟨store.id, store.made⟩) :
    Keeps (Store.keep { store with made := store.made + 1 } template)
      (history ++ [.compiled store.id ⟨template.text, template.options, template⟩]) := by
  let c : Compilation := ⟨template.text, template.options, template⟩
  have first : ¬Recorded history store.id c.key := mt (h.isSome_get?_iff _).mpr hnew
  have recordedBy (r : Compilation) : RecordedBy (history ++ [.compiled store.id c]) store.id r ↔
      r = c ∨ RecordedBy history store.id r := by
    rw [recordedBy_concat_compiled, and_iff_left ⟨hcache, first⟩]
  refine ⟨fun key other => ?_, ?_, h.lt_made hidentity⟩
  · rw [get?_keep]
    constructor
    · intro hkept
      split at hkept
      next hkey =>
        cases hkept
        exact ⟨c, (recordedBy c).mpr (.inl rfl), hkey.symm, rfl⟩
      next =>
        obtain ⟨r, hr, hother⟩ := (h.kept key other).mp hkept
        exact ⟨r, (recordedBy r).mpr (.inr hr), hother⟩
    · rintro ⟨r, hr, rfl, rfl⟩
      rcases (recordedBy r).mp hr with rfl | hr
      · exact if_pos rfl
      · have hne : r.key ≠ c.key := fun hkey => first (hkey ▸ recorded_iff.mpr ⟨r, hr, rfl⟩)
        exact (if_neg hne).trans ((h.kept _ _).mpr ⟨r, hr, rfl, rfl⟩)
  · refine List.nodup_cons.mpr ⟨fun hmem => hnew ?_, h.distinct⟩
    exact Entries.isSome_lookup_iff.mpr hmem

/-- One compilation: nothing happens if it fails, and else the store keeps what the history with one
event more says. -/
theorem Keeps.compile (h : store.Keeps history) (orderly : Orderly history)
    {compiled : Template} {next : Store}
    (hc : store.compile text options = (.ok compiled, next)) :
    next.Keeps (history ++ [.compiled store.id ⟨text, options, compiled⟩]) ∧
      Orderly (history ++ [.compiled store.id ⟨text, options, compiled⟩]) := by
  rcases store.compile_inv text options with
    ⟨e, -, hc'⟩ | ⟨template, hcache, hkept, hc'⟩ | ⟨template, hnew, rfl, rfl, hidentity, hc'⟩
  · rw [hc] at hc'
    cases hc'
  · rw [hc] at hc'
    cases hc'
    exact h.again orderly hcache hkept
  · rw [hc] at hc'
    cases hc'
    refine ⟨?_, h.orderly_fresh orderly hnew rfl rfl hidentity⟩
    split
    next hcache => exact h.keep hcache (fun hsome => hnew ⟨hcache, hsome⟩) hidentity
    next hcache => exact h.skip hcache hidentity

theorem Keeps.append_other (h : store.Keeps history) (hmore : ∀ e ∈ more, e.storage ≠ store.id) :
    store.Keeps (history ++ more) := by
  refine ⟨fun key template => ?_, h.distinct, fun c hmem => ?_⟩
  · refine (h.kept key template).trans (exists_congr fun r => and_congr_left' ?_)
    exact (sinceClear_append_other hmore).symm
  · rcases List.mem_append.mp hmem with hmem | hmem
    · exact h.made c hmem
    · exact absurd rfl (hmore _ hmem)

theorem keeps_empty (h : ∀ e ∈ history, e.storage ≠ id) : (Store.empty id).Keeps history := by
  refine ⟨fun key template => ⟨nofun, ?_⟩, List.nodup_nil, fun c hmem => absurd rfl (h _ hmem)⟩
  rintro ⟨r, hr, -⟩
  exact absurd hr (not_sinceClear_of_absent h)

theorem Keeps.clear (h : store.Keeps history) :
    store.clear.Keeps (history ++ [.cleared store.id]) := by
  refine ⟨fun key template => ⟨nofun, ?_⟩, List.nodup_nil, fun c hmem => ?_⟩
  · rintro ⟨r, hr, -⟩
    rcases (sinceClear_concat _ _).mp hr with ⟨_, ⟨⟩, -⟩ | ⟨hne, -⟩
    exact absurd rfl hne
  · rcases List.mem_append.mp hmem with hmem | hmem
    · exact h.made c hmem
    · cases List.mem_singleton.mp hmem

end Store

end Mustache
