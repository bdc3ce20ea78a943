import Mustache.Proofs.Serving
import Mustache.Proofs.Sessions

namespace Mustache

namespace Pool

/-- The storages that live hold what the history says, and a storage to come has none yet. -/
structure Follows (pool : Pool) (history : List CacheEvent) : Prop where
  sound : pool.Sound
  orderly : Orderly history
  lives : ∀ id store, pool.storeOf? id = some store →
    store.id = id ∧ id < pool.made ∧ store.Keeps history
  past : ∀ e ∈ history, e.storage < pool.made

variable {pool : Pool} {history more : List CacheEvent} {id : StorageId} {store next : Store}

theorem follows_initial : Follows initial [] := by
  refine ⟨sound_initial, orderly_nil, fun id store h => ?_, nofun⟩
  unfold storeOf? at h
  split at h
  next hid =>
    obtain rfl := Option.some.inj h
    exact ⟨hid.symm, by rw [hid]; exact Nat.zero_lt_one, Store.keeps_empty nofun⟩
  next => cases h

theorem Follows.create (h : pool.Follows history) (name : String) :
    (pool.create name).Follows history := by
  refine ⟨h.sound.create name, h.orderly, fun id store hs => ?_, fun e he => ?_⟩
  · rcases storeOf?_of_create hs with ⟨rfl, rfl⟩ | hs
    · exact ⟨rfl, Nat.lt_succ_self _, Store.keeps_empty fun e he => Nat.ne_of_lt (h.past e he)⟩
    · obtain ⟨hid, hmade, keeps⟩ := h.lives id store hs
      exact ⟨hid, Nat.lt_succ_of_lt hmade, keeps⟩
  · exact Nat.lt_succ_of_lt (h.past e he)

theorem Follows.assign (h : pool.Follows history) (name : String) (hid : pool.Lives id) :
    (pool.assign name id).Follows history :=
  ⟨h.sound.assign name hid, h.orderly, fun id store hs => h.lives id store (storeOf?_of_assign hs),
    h.past⟩

theorem Follows.drop (h : pool.Follows history) (name : String) :
    (pool.drop name).Follows history :=
  ⟨h.sound.drop name, h.orderly, fun id store hs => h.lives id store (storeOf?_of_drop hs), h.past⟩

/-- What happens to one storage leaves the others as they are. -/
theorem Follows.update (h : pool.Follows history) (hs : pool.storeOf? id = some store)
    (hid : next.id = id) (keeps : next.Keeps (history ++ more))
    (orderly : Orderly (history ++ more)) (hmore : ∀ e ∈ more, e.storage = id) :
    (pool.update next).Follows (history ++ more) := by
  have hmade : (pool.update next).made = pool.made := by
    unfold Pool.update
    split <;> rfl
  refine ⟨(sameShape_update pool next).sound h.sound, orderly, fun other found hf => ?_,
    fun e he => ?_⟩
  · rw [storeOf?_update] at hf
    rw [hmade]
    split at hf
    next hother =>
      rw [hother, hid, hs] at hf
      obtain rfl := Option.some.inj hf
      exact ⟨hother.symm, by rw [hother, hid]; exact (h.lives id store hs).2.1, keeps⟩
    next hother =>
      obtain ⟨hfound, hlt, hkeeps⟩ := h.lives other found hf
      refine ⟨hfound, hlt, hkeeps.append_other fun e he => ?_⟩
      rw [hmore e he, hfound, ← hid]
      exact Ne.symm hother
  · rw [hmade]
    rcases List.mem_append.mp he with he | he
    · exact h.past e he
    · rw [hmore e he]
      exact (h.lives id store hs).2.1

theorem Follows.serve (h : pool.Follows history) (id : StorageId)
    (requests : List (String × Options)) :
    (pool.serve id requests).2.Follows (history ++ (pool.serve id requests).1) := by
  cases hs : pool.storeOf? id with
  | none =>
    rw [Pool.serve, hs, List.append_nil]
    exact h
  | some store =>
    obtain ⟨hid, -, keeps⟩ := h.lives id store hs
    obtain ⟨keeps', orderly⟩ := keeps.serve h.orderly requests
    rw [serve_of_some hs]
    refine h.update hs ((store.id_serve requests).trans hid) keeps' orderly fun e he => ?_
    exact (Store.storage_of_mem_serve he).trans hid

theorem Follows.exists_store (h : pool.Follows history) {handle : Handle}
    (hid : pool.storage? handle = some id) :
    ∃ store, pool.storeOf? id = some store ∧ pool.store? handle = some store := by
  obtain ⟨store, hs⟩ := Option.isSome_iff_exists.mp (isSome_storeOf?_iff.mpr (h.sound.lives hid))
  exact ⟨store, hs, by rw [store?, hid]; exact hs⟩

theorem Follows.clear (h : pool.Follows history) (handle : Handle) :
    (pool.clear handle).Follows
      (history ++ ((pool.storage? handle).map .cleared).toList) := by
  cases hid : pool.storage? handle with
  | none =>
    have hnone : pool.store? handle = none := by rw [store?, hid]; rfl
    rw [Pool.clear, hnone]
    exact (List.append_nil history).symm ▸ h
  | some id =>
    obtain ⟨store, hs, hstore⟩ := h.exists_store hid
    obtain ⟨rfl, -, keeps⟩ := h.lives id store hs
    have orderly : Orderly (history ++ [.cleared store.id]) := h.orderly.concat nofun
    rw [Pool.clear, hstore]
    refine h.update hs rfl keeps.clear orderly fun e he => ?_
    rw [List.mem_singleton.mp he]
    rfl

/-- What a step can do to a pool, with the name that it may let stand for another storage. -/
inductive Change (pool : Pool) : Option String → List CacheEvent → Pool → Prop where
  | none (target : Option String) : Change pool target [] pool
  | serve (id : StorageId) (requests : List (String × Options)) :
    Change pool .none (pool.serve id requests).1 (pool.serve id requests).2
  | clear (handle : Handle) :
    Change pool .none ((pool.storage? handle).map .cleared).toList (pool.clear handle)
  | create (name : String) : Change pool (some name) [] (pool.create name)
  | assign (name : String) {id : StorageId} (lives : pool.Lives id) :
    Change pool (some name) [] (pool.assign name id)
  | drop (name : String) : Change pool (some name) [] (pool.drop name)

variable {target : Option String} {events : List CacheEvent} {pool' : Pool}

theorem Change.follows (change : pool.Change target events pool') (h : pool.Follows history) :
    pool'.Follows (history ++ events) := by
  cases change with
  | none => rwa [List.append_nil]
  | serve id requests => exact h.serve id requests
  | clear handle => exact h.clear handle
  | create name =>
    rw [List.append_nil]
    exact h.create name
  | assign name lives =>
    rw [List.append_nil]
    exact h.assign name lives
  | drop name =>
    rw [List.append_nil]
    exact h.drop name

/-- A storage has at least the entries that it had, and no others unless a text was compiled for it
that is to be kept. -/
def Extends (events : List CacheEvent) (id : StorageId) (store store' : Store) : Prop :=
  .cleared id ∉ events → store.entries <:+ store'.entries ∧
    ((∀ c, .compiled id c ∈ events → ¬c.options.cache) → store'.entries = store.entries)

theorem extends_of_same {store' : Store} (hs : pool.storeOf? id = some store)
    (hs' : pool.storeOf? id = some store') (events : List CacheEvent) :
    Extends events id store store' := by
  cases hs.symm.trans hs'
  exact fun _ => ⟨List.suffix_rfl, fun _ => rfl⟩

theorem Follows.extends_serve (h : pool.Follows history) (other : StorageId)
    (requests : List (String × Options)) {store' : Store} (hs : pool.storeOf? id = some store)
    (hs' : (pool.serve other requests).2.storeOf? id = some store') :
    Extends (pool.serve other requests).1 id store store' := by
  cases hother : pool.storeOf? other with
  | none =>
    rw [Pool.serve, hother] at hs'
    exact extends_of_same hs hs' _
  | some served =>
    have hid := served.id_serve requests
    rw [serve_of_some hother, storeOf?_update, hid] at hs'
    split at hs'
    next hsame =>
      obtain ⟨rfl, -⟩ := h.lives other served hother
      subst hsame
      cases hs.symm.trans hother
      rw [hs] at hs'
      cases hs'
      rw [serve_of_some hother]
      exact fun _ => store.entries_serve requests
    next => exact extends_of_same hs hs' _

/-- Clearing a storage is the one thing that is not to be there if its entries are to be kept. -/
theorem Follows.extends_clear (h : pool.Follows history) (handle : Handle) {store' : Store}
    (hs : pool.storeOf? id = some store) (hs' : (pool.clear handle).storeOf? id = some store') :
    Extends ((pool.storage? handle).map .cleared).toList id store store' := by
  cases hhandle : pool.storage? handle with
  | none =>
    have hnone : pool.store? handle = .none := by rw [store?, hhandle]; rfl
    rw [Pool.clear, hnone] at hs'
    exact extends_of_same hs hs' _
  | some other =>
    obtain ⟨cleared, hother, hstore⟩ := h.exists_store hhandle
    obtain ⟨rfl, -⟩ := h.lives other cleared hother
    rw [Pool.clear, hstore, storeOf?_update] at hs'
    split at hs'
    next hsame =>
      intro hnot
      rw [hsame] at hnot
      exact absurd List.mem_cons_self hnot
    next => exact extends_of_same hs hs' _

theorem Change.extends (change : pool.Change target events pool') (h : pool.Follows history)
    {store' : Store} (hs : pool.storeOf? id = some store) (hs' : pool'.storeOf? id = some store') :
    Extends events id store store' := by
  cases change with
  | none => exact extends_of_same hs hs' _
  | serve other requests => exact h.extends_serve other requests hs hs'
  | clear handle => exact h.extends_clear handle hs hs'
  | create name =>
    rcases storeOf?_of_create hs' with ⟨rfl, -⟩ | hback
    · exact absurd (h.lives _ store hs).2.1 (Nat.lt_irrefl _)
    · exact extends_of_same hs hback _
  | assign name lives => exact extends_of_same hs (storeOf?_of_assign hs') _
  | drop name => exact extends_of_same hs (storeOf?_of_drop hs') _

/-- A handle that is not given another storage goes on to reach the one that it reached. -/
theorem Change.storage? (change : pool.Change target events pool') {handle : Handle}
    (hne : ∀ name ∈ target, handle ≠ .named name) :
    pool'.storage? handle = pool.storage? handle := by
  cases change with
  | none => rfl
  | serve id requests =>
    unfold Pool.serve
    split
    · rfl
    · exact (sameShape_update pool _).storage? handle
  | clear other => exact (sameShape_clear pool other).storage? handle
  | create name => exact storage?_assign (hne name rfl) _
  | assign name lives => exact storage?_assign (hne name rfl) _
  | drop name => exact storage?_drop (hne name rfl)

theorem Follows.storage_of_compile (h : pool.Follows history) {text : String} {options : Options}
    {template : Template} (hc : pool.shared.compile text options = (.ok template, next)) :
    template.identity.storage = pool.shared.id := by
  obtain ⟨-, -, keeps⟩ := h.lives _ _ pool.storeOf?_shared
  obtain ⟨-, orderly⟩ := keeps.compile h.orderly hc
  exact orderly.own _ _ (List.mem_append_right history List.mem_cons_self)

/-- A text that is rendered is compiled for the storage that is always there, and so are the sources
that its rendering meets. -/
theorem Follows.streamText_eq_serve (h : pool.Follows history) {σ : Type} (text : String)
    (view : Value) (partials : Partials) (lambdas : Lambdas) (sink : Sink σ) (state : σ) :
    (pool.streamText text view partials lambdas sink state).2.2 =
      (pool.serve pool.shared.id ((text, .standard) ::
        match parse text .standard with
        | .error _ => []
        | .ok program =>
          (((Setting.mk partials lambdas Options.standard.partialDepthLimit).rendering program
            view).sources sink state).map (·, .standard))).2 := by
  rw [serve_of_some pool.storeOf?_shared]
  rcases pool.shared.serve_cons text .standard _ with
    ⟨e, hp, hc, hs⟩ | ⟨template, next, hc, hid, hs⟩
  · rw [hs, hp]
    simp only [streamText, compile, hc]
    exact (update_of_shared rfl).symm
  · have hkey := Store.key_of_compile hc
    have hp := Template.parse_of_key hkey
    have hlimit : template.options.partialDepthLimit = Options.standard.partialDepthLimit :=
      congrArg CacheKey.partialDepthLimit hkey
    let moved : Pool := { pool with shared := next }
    have hstorage : template.identity.storage = moved.shared.id :=
      (h.storage_of_compile hc).trans hid.symm
    have hstream := stream_eq_serve moved template view partials lambdas sink state
    rw [hstorage, hlimit] at hstream
    have hnext (requests : List (String × Options)) :
        moved.update (next.serve requests).2 = pool.update (next.serve requests).2 := by
      have hserve := next.id_serve requests
      rw [update_of_shared hserve, update_of_shared (hserve.trans hid)]
    have hmoved := congrArg Prod.snd (serve_of_some moved.storeOf?_shared
      ((((Setting.mk partials lambdas Options.standard.partialDepthLimit).rendering template.program
        view).sources sink state).map (·, .standard)))
    rw [hs, hp, streamText, compile, hc]
    exact (hstream.trans hmoved).trans (hnext _)

end Pool

end Mustache
