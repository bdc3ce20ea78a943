import Mustache.Proofs.History
import Mustache.Proofs.Pools
import Mustache.Proofs.Transcript

namespace Mustache

/-- Compiles some texts for a store, one after the other. -/
def Store.serve (store : Store) : List (String × Options) → List CacheEvent × Store
  | [] => ([], store)
  | (text, options) :: requests =>
    match store.compile text options with
    | (.error _, store) => store.serve requests
    | (.ok template, next) =>
      let (events, last) := next.serve requests
      (.compiled store.id ⟨text, options, template⟩ :: events, last)

/-- The sources that are compiled while a sink takes the chunks of a rendering, whether it runs to
its end, fails or is stopped. -/
def Rendering.sources {σ : Type} (sink : Sink σ) : Rendering Unit → σ → List String
  | done (), _ => []
  | failed _, _ => []
  | write chunk rest, s =>
    match sink.write s chunk with
    | (s, .more) => sources sink (rest ()) s
    | (_, .stop) => []
  | refuse _ rest, s => sources sink (rest ()) s
  | load source next, s => source :: sources sink (next (parse source .standard)) s

namespace Store

variable {history : List CacheEvent} {store : Store}

theorem entries_compile {text : String} {options : Options} {template : Template} {next : Store}
    (hc : store.compile text options = (.ok template, next)) :
    store.entries <:+ next.entries ∧ (¬options.cache → next.entries = store.entries) := by
  rcases store.compile_inv text options with
    ⟨e, -, hc'⟩ | ⟨_, -, -, hc'⟩ | ⟨_, -, -, -, -, hc'⟩
  · rw [hc] at hc'
    cases hc'
  · rw [hc] at hc'
    cases hc'
    exact ⟨List.suffix_rfl, fun _ => rfl⟩
  · rw [hc] at hc'
    cases hc'
    split
    next hcache => exact ⟨List.suffix_cons _ _, fun hnot => absurd hcache hnot⟩
    next => exact ⟨List.suffix_rfl, fun _ => rfl⟩

/-- The first of some texts fails to compile and leaves the store as it is, or it makes an event. -/
theorem serve_cons (store : Store) (text : String) (options : Options)
    (requests : List (String × Options)) :
    (∃ e, parse text options = .error e ∧ store.compile text options = (.error e, store) ∧
      store.serve ((text, options) :: requests) = store.serve requests) ∨
    ∃ template next, store.compile text options = (.ok template, next) ∧ next.id = store.id ∧
      store.serve ((text, options) :: requests) =
        (.compiled store.id ⟨text, options, template⟩ :: (next.serve requests).1,
          (next.serve requests).2) := by
  have hid := store.id_compile text options
  rcases store.compile_inv text options with
    ⟨e, hp, hc⟩ | ⟨template, -, -, hc⟩ | ⟨template, -, -, -, -, hc⟩
  · exact .inl ⟨e, hp, hc, by rw [serve, hc]⟩
  · exact .inr ⟨template, _, hc, rfl, by rw [serve, hc]⟩
  · rw [hc] at hid
    exact .inr ⟨template, _, hc, hid, by rw [serve, hc]⟩

theorem snd_serve_cons (store : Store) (text : String) (options : Options)
    (requests : List (String × Options)) :
    (store.serve ((text, options) :: requests)).2 =
      ((store.compile text options).2.serve requests).2 := by
  rcases store.serve_cons text options requests with ⟨_, -, hc, hs⟩ | ⟨_, _, hc, -, hs⟩
  · rw [hs, hc]
  · rw [hs, hc]

theorem id_serve (store : Store) (requests : List (String × Options)) :
    (store.serve requests).2.id = store.id := by
  induction requests generalizing store with
  | nil => rfl
  | cons request requests ih => rw [snd_serve_cons, ih, id_compile]

theorem storage_of_mem_serve {requests : List (String × Options)} {e : CacheEvent}
    (h : e ∈ (store.serve requests).1) : e.storage = store.id := by
  induction requests generalizing store with
  | nil => cases h
  | cons request requests ih =>
    rcases store.serve_cons request.1 request.2 requests with
      ⟨_, -, -, hs⟩ | ⟨_, next, -, hid, hs⟩
    · rw [hs] at h
      exact ih h
    · rw [hs] at h
      rcases List.mem_cons.mp h with rfl | h
      · rfl
      · exact (ih h).trans hid

theorem Keeps.serve (h : store.Keeps history) (orderly : Orderly history)
    (requests : List (String × Options)) :
    (store.serve requests).2.Keeps (history ++ (store.serve requests).1) ∧
      Orderly (history ++ (store.serve requests).1) := by
  induction requests generalizing store history with
  | nil =>
    rw [Store.serve, List.append_nil]
    exact ⟨h, orderly⟩
  | cons request requests ih =>
    rcases store.serve_cons request.1 request.2 requests with
      ⟨_, -, -, hs⟩ | ⟨_, next, hc, -, hs⟩
    · rw [hs]
      exact ih h orderly
    · obtain ⟨hnext, orderly'⟩ := h.compile orderly hc
      have hrest := ih hnext orderly'
      rw [List.append_assoc] at hrest
      rw [hs]
      exact hrest

/-- Entries are only ever added, and only for texts that are to be kept. -/
theorem entries_serve (store : Store) (requests : List (String × Options)) :
    store.entries <:+ (store.serve requests).2.entries ∧
      ((∀ c, .compiled store.id c ∈ (store.serve requests).1 → ¬c.options.cache) →
        (store.serve requests).2.entries = store.entries) := by
  induction requests generalizing store with
  | nil => exact ⟨List.suffix_rfl, fun _ => rfl⟩
  | cons request requests ih =>
    rcases store.serve_cons request.1 request.2 requests with
      ⟨_, -, -, hs⟩ | ⟨template, next, hc, hid, hs⟩
    · rw [hs]
      exact ih store
    · obtain ⟨hadded, hsame⟩ := entries_compile hc
      obtain ⟨hadded', hsame'⟩ := ih next
      rw [hs]
      refine ⟨hadded.trans hadded', fun uncached => ?_⟩
      have hfirst := uncached ⟨request.1, request.2, template⟩ List.mem_cons_self
      rw [hsame' fun c hmem => uncached c (List.mem_cons_of_mem _ (hid ▸ hmem)), hsame hfirst]

end Store

/-- A rendering leaves the store as compiling the sources it meets does. -/
theorem Rendering.loader_run_cached {σ : Type} (sink : Sink σ) (x : Rendering Unit) (s : σ)
    (store : Store) :
    (x.run sink .cached s (some store)).loader =
      some (store.serve ((x.sources sink s).map (·, .standard))).2 := by
  induction x generalizing s store with
  | done a => rfl
  | failed e => rfl
  | write chunk rest ih =>
    rcases hw : sink.write s chunk with ⟨s', more | stop⟩
    · simp only [run, sources, hw]
      exact ih () s' store
    · simp only [run, sources, hw]
      rfl
  | refuse e rest ih => exact ih () s store
  | load source next ih =>
    have hload := Loader.faithful_cached (some store) source
    have hrest := ih (parse source .standard) s (store.compile source .standard).2
    simp only [run, sources, List.map_cons, Store.snd_serve_cons]
    rw [← hrest, ← hload]
    rfl

theorem Rendering.loader_run_none {σ : Type} (sink : Sink σ) (x : Rendering Unit) (s : σ) :
    (x.run sink .cached s none).loader = none := by
  induction x generalizing s with
  | done a => rfl
  | failed e => rfl
  | write chunk rest ih =>
    rcases hw : sink.write s chunk with ⟨s', more | stop⟩
    · simp only [run, hw]
      exact ih () s'
    · simp only [run, hw]
  | refuse e rest ih => exact ih () s
  | load source next ih => exact ih _ s

namespace Pool

/-- Compiles some texts for a storage, if it still lives. -/
def serve (pool : Pool) (id : StorageId) (requests : List (String × Options)) :
    List CacheEvent × Pool :=
  match pool.storeOf? id with
  | none => ([], pool)
  | some store => ((store.serve requests).1, pool.update (store.serve requests).2)

variable {pool : Pool} {id : StorageId} {store : Store}

theorem serve_of_some (h : pool.storeOf? id = some store) (requests : List (String × Options)) :
    pool.serve id requests =
      ((store.serve requests).1, pool.update (store.serve requests).2) := by
  rw [serve, h]

theorem storeOf?_shared (pool : Pool) : pool.storeOf? pool.shared.id = some pool.shared :=
  if_pos rfl

theorem update_of_shared {store : Store} (h : store.id = pool.shared.id) :
    pool.update store = { pool with shared := store } :=
  if_pos h

theorem compile_eq_serve (pool : Pool) (text : String) (options : Options) :
    (pool.compile text options).2 = (pool.serve pool.shared.id [(text, options)]).2 := by
  rw [serve_of_some pool.storeOf?_shared, Store.snd_serve_cons]
  exact (update_of_shared (pool.shared.id_compile text options)).symm

theorem stream_eq_serve {σ : Type} (pool : Pool) (template : Template) (view : Value)
    (partials : Partials) (lambdas : Lambdas) (sink : Sink σ) (state : σ) :
    let rendering := (Setting.mk partials lambdas
      template.options.partialDepthLimit).rendering template.program view
    (pool.stream template view partials lambdas sink state).2.2 =
      (pool.serve template.identity.storage
        ((rendering.sources sink state).map (·, .standard))).2 := by
  intro rendering
  cases hs : pool.storeOf? template.identity.storage with
  | none =>
    have hloader := Rendering.loader_run_none sink rendering state
    simp only [stream, serve, hs]
    rw [hloader]
    rfl
  | some store =>
    have hloader := Rendering.loader_run_cached sink rendering state store
    simp only [stream, serve, hs]
    rw [hloader]
    rfl

end Pool

end Mustache
