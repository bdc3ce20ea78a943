import Mustache.Proofs.Caching
import Mustache.Template.Pool

namespace Mustache.Pool

def Lives (pool : Pool) (id : StorageId) : Prop :=
  id = pool.shared.id ∨ id ∈ pool.stores.map (·.1)

/-- Each handle reaches a storage that lives. -/
def Sound (pool : Pool) : Prop :=
  ∀ handle ∈ pool.handles, pool.Lives handle.2

def names (pool : Pool) : List String :=
  pool.handles.map (·.1)

theorem isSome_storeOf?_iff {pool : Pool} {id : StorageId} :
    (pool.storeOf? id).isSome ↔ pool.Lives id := by
  unfold storeOf? Lives
  split
  next h => simp [h]
  next h => rw [Entries.isSome_lookup_iff, or_iff_right h]

theorem storeOf?_update (pool : Pool) (store : Store) (id : StorageId) :
    (pool.update store).storeOf? id =
      if id = store.id then (pool.storeOf? id).map fun _ => store else pool.storeOf? id := by
  have others (stores : List (StorageId × Store)) :
      (stores.map fun entry =>
          (entry.1, if entry.1 = store.id then store else entry.2)).lookup id =
        if id = store.id then (stores.lookup id).map fun _ => store else stores.lookup id := by
    induction stores with
    | nil => simp
    | cons entry stores ih =>
      obtain ⟨other, old⟩ := entry
      by_cases hid : (id == other) = true
      · obtain rfl := eq_of_beq hid
        by_cases hs : id = store.id <;> simp [hs]
      · have hid' : (id == other) = false := by simpa using hid
        simp only [List.map_cons, List.lookup_cons, hid', ih]
  unfold update storeOf?
  by_cases hshared : store.id = pool.shared.id
  · by_cases hid : id = pool.shared.id <;> simp [hshared, hid]
  · by_cases hid : id = pool.shared.id
    · simp [hshared, hid, Ne.symm hshared]
    · simp only [if_neg hshared, if_neg hid]
      exact others pool.stores

/-- A storage that is there after a sweep was there before. -/
theorem storeOf?_of_sweep {pool : Pool} {id : StorageId} {store : Store}
    (h : pool.sweep.storeOf? id = some store) : pool.storeOf? id = some store := by
  unfold storeOf? sweep at *
  dsimp only at h
  rw [Entries.lookup_filter fun id => pool.handles.any (·.2 == id)] at h
  split at h
  next hid => rwa [if_pos hid]
  next hid =>
    split at h
    · rwa [if_neg hid]
    · cases h

theorem storeOf?_of_assign {pool : Pool} {name : String} {id other : StorageId} {store : Store}
    (h : (pool.assign name id).storeOf? other = some store) : pool.storeOf? other = some store := by
  have h' := storeOf?_of_sweep h
  exact h'

theorem storeOf?_of_drop {pool : Pool} {name : String} {id : StorageId} {store : Store}
    (h : (pool.drop name).storeOf? id = some store) : pool.storeOf? id = some store := by
  have h' := storeOf?_of_sweep h
  exact h'

theorem storeOf?_of_create {pool : Pool} {name : String} {id : StorageId} {store : Store}
    (h : (pool.create name).storeOf? id = some store) :
    id = pool.made ∧ store = .empty pool.made ∨ pool.storeOf? id = some store := by
  have h' := storeOf?_of_sweep h
  unfold storeOf? at *
  dsimp only at h'
  split at h'
  next hid => exact .inr (by rwa [if_pos hid])
  next hid =>
    rw [List.lookup_cons] at h'
    split at h'
    next hmade =>
      obtain rfl := eq_of_beq hmade
      exact .inl ⟨rfl, (Option.some.inj h').symm⟩
    next => exact .inr (by rwa [if_neg hid])

theorem storage?_of_handles {pool pool' : Pool} {handle : Handle}
    (hshared : pool'.shared.id = pool.shared.id)
    (h : ∀ name, handle = .named name → pool'.handles.lookup name = pool.handles.lookup name) :
    pool'.storage? handle = pool.storage? handle := by
  cases handle with
  | shared => exact congrArg some hshared
  | named name => exact h name rfl

theorem lookup_remove_handle {name other : String} (h : other ≠ name)
    (handles : List (String × StorageId)) :
    (handles.filter (·.1 ≠ name)).lookup other = handles.lookup other := by
  rw [Entries.lookup_filter (· ≠ name), if_pos (by simpa using h)]

theorem storage?_assign {pool : Pool} {name : String} {handle : Handle} (h : handle ≠ .named name)
    (id : StorageId) : (pool.assign name id).storage? handle = pool.storage? handle := by
  refine storage?_of_handles rfl ?_
  rintro other rfl
  have hne : other ≠ name := fun he => h (congrArg Handle.named he)
  have hb : (other == name) = false := by simpa using hne
  simp only [assign, sweep, List.lookup_cons, hb, lookup_remove_handle hne]

theorem storage?_drop {pool : Pool} {name : String} {handle : Handle} (h : handle ≠ .named name) :
    (pool.drop name).storage? handle = pool.storage? handle := by
  refine storage?_of_handles rfl ?_
  rintro other rfl
  exact lookup_remove_handle (fun he => h (congrArg Handle.named he)) pool.handles

/-- Pools with the same handles to the same storages, whatever is in these. -/
structure SameShape (pool pool' : Pool) : Prop where
  handles : pool'.handles = pool.handles
  shared : pool'.shared.id = pool.shared.id
  stores : pool'.stores.map (·.1) = pool.stores.map (·.1)

theorem sameShape_refl (pool : Pool) : SameShape pool pool :=
  ⟨rfl, rfl, rfl⟩

theorem SameShape.trans {p q r : Pool} (h : SameShape p q) (h' : SameShape q r) : SameShape p r :=
  ⟨h'.handles.trans h.handles, h'.shared.trans h.shared, h'.stores.trans h.stores⟩

theorem SameShape.sound {pool pool' : Pool} (h : SameShape pool pool') (hs : pool.Sound) :
    pool'.Sound := by
  intro handle hmem
  rw [h.handles] at hmem
  have lives := hs handle hmem
  rwa [Lives, ← h.shared, ← h.stores] at lives

theorem SameShape.names {pool pool' : Pool} (h : SameShape pool pool') :
    pool'.names = pool.names := by
  rw [Pool.names, h.handles, Pool.names]

theorem sameShape_update (pool : Pool) (store : Store) : SameShape pool (pool.update store) := by
  unfold update
  split
  next hid => exact ⟨rfl, hid, rfl⟩
  next =>
    refine ⟨rfl, rfl, ?_⟩
    simp

theorem sameShape_clear (pool : Pool) (handle : Handle) : SameShape pool (pool.clear handle) := by
  unfold clear
  split
  · exact sameShape_refl pool
  · exact sameShape_update pool _

theorem sameShape_compile (pool : Pool) (text : String) (options : Options) :
    SameShape pool (pool.compile text options).2 :=
  ⟨rfl, Store.id_compile pool.shared text options, rfl⟩

theorem sameShape_stream (pool : Pool) (template : Template) (view : Value) (partials : Partials)
    (lambdas : Lambdas) {σ : Type} (sink : Sink σ) (state : σ) :
    SameShape pool (pool.stream template view partials lambdas sink state).2.2 := by
  simp only [stream]
  generalize Rendering.run _ _ _ _ _ = outcome
  cases outcome.loader with
  | none => exact sameShape_refl pool
  | some store => exact sameShape_update pool store

theorem sameShape_streamText (pool : Pool) (text : String) (view : Value) (partials : Partials)
    (lambdas : Lambdas) {σ : Type} (sink : Sink σ) (state : σ) :
    SameShape pool (pool.streamText text view partials lambdas sink state).2.2 := by
  have compiled := sameShape_compile pool text .standard
  unfold streamText
  split
  next h =>
    rw [h] at compiled
    exact compiled
  next h =>
    rw [h] at compiled
    exact compiled.trans (sameShape_stream _ _ _ _ _ _ _)

theorem SameShape.storage? {pool pool' : Pool} (h : SameShape pool pool') (handle : Handle) :
    pool'.storage? handle = pool.storage? handle :=
  storage?_of_handles h.shared fun name _ => by rw [h.handles]

theorem sound_initial : Sound initial := by
  intro handle hmem
  cases hmem

/-- A storage that some handle reaches is not removed. -/
theorem Sound.sweep {pool : Pool} (h : pool.Sound) : pool.sweep.Sound := by
  intro handle hmem
  rcases h handle hmem with hshared | hstores
  · exact .inl hshared
  · obtain ⟨entry, hentry, hid⟩ := List.mem_map.mp hstores
    refine .inr (List.mem_map.mpr ⟨entry, ?_, hid⟩)
    refine List.mem_filter.mpr ⟨hentry, List.any_eq_true.mpr ⟨handle, hmem, ?_⟩⟩
    simp [hid]

theorem Sound.assign {pool : Pool} (h : pool.Sound) (name : String) {id : StorageId}
    (hid : pool.Lives id) : (pool.assign name id).Sound := by
  refine Sound.sweep ?_
  intro handle hmem
  rcases List.mem_cons.mp hmem with rfl | hmem
  · exact hid
  · exact h handle (List.mem_filter.mp hmem).1

theorem Sound.create {pool : Pool} (h : pool.Sound) (name : String) : (pool.create name).Sound := by
  refine Sound.assign ?_ name (.inr (List.mem_cons_self ..))
  intro handle hmem
  rcases h handle hmem with hshared | hstores
  · exact .inl hshared
  · exact .inr (List.mem_cons_of_mem _ hstores)

theorem Sound.drop {pool : Pool} (h : pool.Sound) (name : String) : (pool.drop name).Sound := by
  refine Sound.sweep ?_
  intro handle hmem
  exact h handle (List.mem_filter.mp hmem).1

theorem names_assign (pool : Pool) (name : String) (id : StorageId) :
    (pool.assign name id).names = name :: pool.names.filter (· ≠ name) := by
  simp [names, assign, sweep, List.filter_map, Function.comp_def]

theorem names_drop (pool : Pool) (name : String) :
    (pool.drop name).names = pool.names.filter (· ≠ name) := by
  simp [names, drop, sweep, List.filter_map, Function.comp_def]

theorem Sound.lives {pool : Pool} (h : pool.Sound) {handle : Handle} {id : StorageId}
    (hid : pool.storage? handle = some id) : pool.Lives id := by
  cases handle with
  | shared =>
    cases hid
    exact .inl rfl
  | named name => exact h (name, id) (Entries.mem_of_lookup_eq_some hid)

theorem Sound.isSome_store? {pool : Pool} (h : pool.Sound) (handle : Handle) :
    (pool.store? handle).isSome = (pool.storage? handle).isSome := by
  unfold store?
  cases hid : pool.storage? handle with
  | none => rfl
  | some id => simpa using isSome_storeOf?_iff.mpr (h.lives hid)

end Mustache.Pool
