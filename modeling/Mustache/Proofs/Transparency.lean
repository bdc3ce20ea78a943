import Mustache.Proofs.Pools
import Mustache.Proofs.Sessions

namespace Mustache

namespace Held

/-- Both have templates in the same slots, and these have the same keys. -/
def Alike (held held' : Held) : Prop :=
  ∀ slot, (held.lookup slot).map Template.key = (held'.lookup slot).map Template.key

theorem Alike.cons {held held' : Held} (h : Alike held held') (slot : String) {t t' : Template}
    (ht : t.key = t'.key) : Alike ((slot, t) :: held) ((slot, t') :: held') := by
  intro other
  simp only [List.lookup_cons]
  split
  · exact congrArg some ht
  · exact h other

theorem lookup_remove (held : Held) (slot other : String) :
    (held.remove slot).lookup other = if other = slot then none else held.lookup other := by
  rw [remove, Entries.lookup_filter (· ≠ slot)]
  by_cases ho : other = slot <;> simp [ho]

theorem Alike.remove {held held' : Held} (h : Alike held held') (slot : String) :
    Alike (held.remove slot) (held'.remove slot) := by
  intro other
  rw [lookup_remove, lookup_remove]
  split
  · rfl
  · exact h other

theorem Alike.addPartial {held held' : Held} (h : Alike held held') {partials partials' : Partials}
    (hp : partials.Alike partials') (entry : String × TableEntry) :
    (held.addPartial partials entry).Alike (held'.addPartial partials' entry) := by
  obtain ⟨name, entry⟩ := entry
  cases entry with
  | source text => exact hp.insert name rfl
  | held slot =>
    simp only [Held.addPartial]
    rcases none_or_some_of_map_eq (h slot) with ⟨hl, hl'⟩ | ⟨t, t', hl, hl', hkey⟩
    · rw [hl, hl']
      exact hp
    · rw [hl, hl']
      exact hp.insert name (congrArg Sum.inr hkey)

theorem Alike.partials {held held' : Held} (h : Alike held held')
    (table : List (String × TableEntry)) : (held.partials table).Alike (held'.partials table) := by
  -- The tables in the making stay alike, one entry after the other.
  have fold (p p' : Partials) (hp : p.Alike p') :
      (table.foldl held.addPartial p).Alike (table.foldl held'.addPartial p') := by
    induction table generalizing p p' with
    | nil => exact hp
    | cons entry table ih => exact ih _ _ (h.addPartial hp entry)
  exact fold _ _ Partials.alike_empty

end Held

/-- A user of caches and one without cannot be told apart by what they have. -/
structure Session.Alike (s : Session) (c : Cacheless) : Prop where
  sound : s.pool.Sound
  names : s.pool.names = c.handles
  held : Held.Alike s.held c.held

namespace Session

variable {s : Session} {c : Cacheless}

theorem alike_initial : Alike .initial .initial :=
  ⟨Pool.sound_initial, rfl, fun _ => rfl⟩

/-- What happens inside the storages does not matter. -/
theorem Alike.withPool (h : Alike s c) {pool : Pool} (hp : s.pool.SameShape pool) :
    Alike { s with pool } c :=
  ⟨hp.sound h.sound, hp.names.trans h.names, h.held⟩

theorem Alike.has (h : Alike s c) (handle : Handle) :
    c.has handle = (s.pool.storage? handle).isSome := by
  cases handle with
  | shared => rfl
  | named name =>
    rw [Bool.eq_iff_iff, Pool.storage?, Entries.isSome_lookup_iff, Cacheless.has, ← h.names]
    simp [Pool.names]

/-- A text compiled through any storage and a text compiled without one have the same error, or
templates of the same key. -/
theorem compile_build_cases (store : Store) (text : String) (options : Options) :
    (∃ e, (store.compile text options).1 = .error e ∧ Cacheless.build text options = .error e ∧
      parse text options = .error e) ∨
    ∃ t t', (store.compile text options).1 = .ok t ∧ Cacheless.build text options = .ok t' ∧
      t.key = t'.key ∧ parse text options = .ok t.program ∧
      t.options.partialDepthLimit = options.partialDepthLimit := by
  rcases store.compile_cases text options with ⟨e, hc, he⟩ | ⟨t, hc, hkey⟩
  · rcases Template.build_cases text options ⟨0, 0⟩ with ⟨e', hb, he'⟩ | ⟨t', hb, rfl, rfl, _⟩
    · rw [he] at he'
      cases he'
      exact .inl ⟨e, hc, hb, he⟩
    · rw [t'.compiled] at he
      cases he
  · have ht := Template.parse_of_key hkey
    rcases Template.build_cases text options ⟨0, 0⟩ with ⟨e', hb, he'⟩ | ⟨t', hb, rfl, rfl, _⟩
    · rw [ht] at he'
      cases he'
    · exact .inr ⟨t, t', hc, hb, hkey, ht, congrArg CacheKey.partialDepthLimit hkey⟩

theorem Alike.hold (h : Alike s c) {store : Store} {text : String} {options : Options}
    (slot : String) {pool : Pool} (hp : s.pool.SameShape pool) :
    (s.hold slot (store.compile text options).1 pool).1 = (c.compile text options slot).1 ∧
      Alike (s.hold slot (store.compile text options).1 pool).2
        (c.compile text options slot).2 := by
  have next := h.withPool hp
  unfold Session.hold Cacheless.compile
  rcases compile_build_cases store text options with
    ⟨e, hc, hb, hparse⟩ | ⟨t, t', hc, hb, hkey, hparse, hlimit⟩
  · rw [hc, hb, hparse]
    exact ⟨rfl, next⟩
  · rw [hc, hb, hparse, ← hlimit]
    exact ⟨rfl, next.sound, next.names, next.held.cons slot hkey⟩

section Renderings

variable {σ : Type} (request : Request) (sink : Sink σ) (state : σ)

theorem Alike.stream (h : Alike s c) {t t' : Template} (ht : t.key = t'.key) (pool : Pool) :
    (pool.stream t request.view (s.held.partials request.table) request.lambdas sink state).1 =
        (c.stream t' request sink state).1 ∧
      (pool.stream t request.view (s.held.partials request.table) request.lambdas sink
        state).2.1 = (c.stream t' request sink state).2 := by
  have alone : t.streamAlone request.view (s.held.partials request.table) request.lambdas sink
      state = c.stream t' request sink state :=
    Template.streamAlone_congr ht (h.held.partials request.table)
  rw [← alone, ← Template.stream_eq_streamAlone pool t]
  exact ⟨rfl, rfl⟩

theorem Alike.streamText (h : Alike s c) (text : String) :
    (s.pool.streamText text request.view (s.held.partials request.table) request.lambdas sink
        state).1 = (c.streamText text request sink state).1 ∧
      (s.pool.streamText text request.view (s.held.partials request.table) request.lambdas sink
        state).2.1 = (c.streamText text request sink state).2 := by
  simp only [Pool.streamText, Pool.compile, Cacheless.streamText]
  rcases compile_build_cases s.pool.shared text .standard with
    ⟨e, hc, hb, _⟩ | ⟨t, t', hc, hb, hkey, _⟩
  · rw [hc, hb]
    exact ⟨rfl, rfl⟩
  · rw [hc, hb]
    obtain ⟨hresult, hstate⟩ := h.stream request sink state hkey
      { s.pool with shared := (s.pool.shared.compile text .standard).2 }
    exact ⟨congrArg (Except.mapError Error.render) hresult, hstate⟩

end Renderings

/-- One step: the answers are the same, and so is all that the next steps can tell. -/
theorem Alike.step (h : Alike s c) (step : Step) :
    (s.step step).1 = (c.step step).1 ∧ Alike (s.step step).2 (c.step step).2 := by
  cases step with
  | create name =>
    refine ⟨rfl, h.sound.create name, ?_, h.held⟩
    show (s.pool.create name).names = name :: c.handles.filter (· ≠ name)
    rw [← h.names]
    exact Pool.names_assign _ name _
  | share source name =>
    refine ⟨rfl, ?_⟩
    simp only [Session.step, Cacheless.step, Pool.share, h.has]
    cases hid : s.pool.storage? source with
    | none => exact h
    | some id =>
      refine ⟨h.sound.assign name (h.sound.lives hid), ?_, h.held⟩
      rw [Pool.names_assign, h.names]
      rfl
  | drop name =>
    refine ⟨rfl, h.sound.drop name, ?_, h.held⟩
    show (s.pool.drop name).names = c.handles.filter (· ≠ name)
    rw [← h.names]
    exact Pool.names_drop _ name
  | clear handle => exact ⟨rfl, h.withPool (s.pool.sameShape_clear handle)⟩
  | compile handle text options slot =>
    simp only [Session.step, Cacheless.step, Pool.compile?, h.has, ← h.sound.isSome_store? handle]
    cases s.pool.store? handle with
    | none => exact ⟨rfl, h⟩
    | some store => exact h.hold slot (s.pool.sameShape_update _)
  | compileText text options slot =>
    exact h.hold slot (s.pool.sameShape_compile text options)
  | release slot => exact ⟨rfl, h.sound, h.names, h.held.remove slot⟩
  | renderText text request =>
    obtain ⟨hresult, htext⟩ := h.streamText request .joined "" text
    have next := h.withPool (s.pool.sameShape_streamText text request.view
      (s.held.partials request.table) request.lambdas .joined "")
    simp only [Session.step, Cacheless.step, Pool.renderText, hresult, htext]
    exact ⟨trivial, next⟩
  | streamText text request σ sink state =>
    obtain ⟨hresult, hstate⟩ := h.streamText request sink state text
    have next := h.withPool (s.pool.sameShape_streamText text request.view
      (s.held.partials request.table) request.lambdas sink state)
    simp only [Session.step, Cacheless.step, hresult, hstate]
    exact ⟨trivial, next⟩
  | render slot request =>
    simp only [Session.step, Cacheless.step]
    rcases none_or_some_of_map_eq (h.held slot) with ⟨hl, hl'⟩ | ⟨t, t', hl, hl', hkey⟩
    · rw [hl, hl']
      exact ⟨rfl, h⟩
    · obtain ⟨hresult, htext⟩ := h.stream request .joined "" hkey s.pool
      have next := h.withPool (s.pool.sameShape_stream t request.view
        (s.held.partials request.table) request.lambdas .joined "")
      rw [hl, hl']
      simp only [Pool.render, hresult, htext]
      exact ⟨trivial, next⟩
  | stream slot request σ sink state =>
    simp only [Session.step, Cacheless.step]
    rcases none_or_some_of_map_eq (h.held slot) with ⟨hl, hl'⟩ | ⟨t, t', hl, hl', hkey⟩
    · rw [hl, hl']
      exact ⟨rfl, h⟩
    · obtain ⟨hresult, hstate⟩ := h.stream request sink state hkey s.pool
      have next := h.withPool (s.pool.sameShape_stream t request.view
        (s.held.partials request.table) request.lambdas sink state)
      rw [hl, hl']
      simp only [hresult, hstate]
      exact ⟨trivial, next⟩

end Session

/-- Caches cannot be seen: whatever is done with them, all templates, errors and renderings are
those that there would be if every text was compiled again. -/
theorem caches_transparent (steps : List Step) :
    Session.initial.answers steps = Cacheless.initial.answers steps := by
  have run (s : Session) (c : Cacheless) (h : s.Alike c) : s.answers steps = c.answers steps := by
    induction steps generalizing s c with
    | nil => rfl
    | cons step steps ih =>
      obtain ⟨same, next⟩ := h.step step
      rw [Session.answers, Cacheless.answers, same, ih _ _ next]
  exact run _ _ Session.alike_initial

end Mustache
