import Mustache.Proofs.Ledger

namespace Mustache

/-- The name that a step lets stand for another storage, or for none. -/
def Step.target? : Step → Option String
  | .create name | .share _ name | .drop name => some name
  | _ => none

namespace Session

section Rendering

variable {σ : Type} (s : Session) (request : Request) (sink : Sink σ) (state : σ)

/-- The compilations that rendering a program asks for. -/
def sourceRequests (program : Program) (limit : Nat) : List (String × Options) :=
  (((Setting.mk (s.held.partials request.table) request.lambdas limit).rendering program
    request.view).sources sink state).map (·, .standard)

/-- A template is rendered for the storage that it belongs to. -/
def templateRequests (template : Template) : StorageId × List (String × Options) :=
  (template.identity.storage,
    s.sourceRequests request sink state template.program template.options.partialDepthLimit)

/-- A text is compiled and rendered for the storage that is always there. -/
def textRequests (text : String) : StorageId × List (String × Options) :=
  (s.pool.shared.id, (text, .standard) ::
    match parse text .standard with
    | .error _ => []
    | .ok program =>
      s.sourceRequests request sink state program Options.standard.partialDepthLimit)

end Rendering

/-- The storage that a step compiles for, and the texts that it compiles. -/
def requests? (s : Session) : Step → Option (StorageId × List (String × Options))
  | .create _ | .share _ _ | .drop _ | .clear _ | .release _ => none
  | .compile handle text options _ => (s.pool.storage? handle).map (·, [(text, options)])
  | .compileText text options _ => some (s.pool.shared.id, [(text, options)])
  | .render slot request => (s.held.lookup slot).map (s.templateRequests request .joined "")
  | .renderText text request => some (s.textRequests request .joined "" text)
  | .stream slot request _ sink state =>
    (s.held.lookup slot).map (s.templateRequests request sink state)
  | .streamText text request _ sink state => some (s.textRequests request sink state text)

/-- What a step does to storages. -/
def events (s : Session) : Step → List CacheEvent
  | .clear handle => ((s.pool.storage? handle).map .cleared).toList
  | step =>
    match s.requests? step with
    | none => []
    | some (id, requests) => (s.pool.serve id requests).1

def after (s : Session) (steps : List Step) : Session :=
  steps.foldl (fun s step => (s.step step).2) s

def history (s : Session) : List Step → List CacheEvent
  | [] => []
  | step :: steps => s.events step ++ (s.step step).2.history steps

variable {s : Session} {history : List CacheEvent}

theorem pool_hold (s : Session) (slot : String) (compiled : Except CompileError Template)
    (pool : Pool) : (s.hold slot compiled pool).2.pool = pool := by
  cases compiled <;> rfl

theorem events_of_requests {step : Step} {id : StorageId} {requests : List (String × Options)}
    (hr : s.requests? step = some (id, requests)) :
    s.events step = (s.pool.serve id requests).1 ∧ step.target? = none := by
  cases step with
  | create | share | drop | clear | release => cases hr
  | _ => exact ⟨by simp only [events, hr], rfl⟩

/-- A step that compiles leaves the pool as serving its requests does. -/
theorem pool_step_of_requests (h : s.pool.Follows history) {step : Step} {id : StorageId}
    {requests : List (String × Options)} (hr : s.requests? step = some (id, requests)) :
    (s.step step).2.pool = (s.pool.serve id requests).2 := by
  cases step with
  | create | share | drop | clear | release => cases hr
  | compile handle text options slot =>
    obtain ⟨id, hid, hrequests⟩ := Option.map_eq_some_iff.mp hr
    cases hrequests
    obtain ⟨store, hs, hstore⟩ := h.exists_store hid
    simp only [Session.step, Pool.compile?, hstore, Option.map_some, pool_hold,
      Pool.serve_of_some hs, Store.snd_serve_cons]
    rfl
  | compileText text options slot =>
    cases hr
    exact (s.pool_hold slot _ _).trans (s.pool.compile_eq_serve text options)
  | render slot request =>
    obtain ⟨template, hslot, hrequests⟩ := Option.map_eq_some_iff.mp hr
    cases hrequests
    simp only [Session.step, hslot]
    exact s.pool.stream_eq_serve template _ _ _ _ _
  | stream slot request σ sink state =>
    obtain ⟨template, hslot, hrequests⟩ := Option.map_eq_some_iff.mp hr
    cases hrequests
    simp only [Session.step, hslot]
    exact s.pool.stream_eq_serve template _ _ _ _ _
  | renderText text request =>
    cases hr
    exact h.streamText_eq_serve text _ _ _ _ _
  | streamText text request σ sink state =>
    cases hr
    exact h.streamText_eq_serve text _ _ _ _ _

/-- One step: all that it can do to the pool, together with what it says of storages. -/
theorem change_step (h : s.pool.Follows history) (step : Step) :
    s.pool.Change step.target? (s.events step) (s.step step).2.pool := by
  cases hr : s.requests? step with
  | some found =>
    obtain ⟨id, requests⟩ := found
    obtain ⟨hevents, htarget⟩ := events_of_requests hr
    rw [hevents, htarget, pool_step_of_requests h hr]
    exact .serve id requests
  | none =>
    cases step with
    | create name => exact .create name
    | drop name => exact .drop name
    | clear handle => exact .clear handle
    | release => exact .none none
    | compileText | renderText | streamText => cases hr
    | share source name =>
      simp only [Session.step, Pool.share]
      cases hid : s.pool.storage? source with
      | none => exact .none _
      | some id => exact .assign name (h.sound.lives hid)
    | compile handle text options slot =>
      have hid := Option.map_eq_none_iff.mp hr
      have hstore : s.pool.store? handle = none := by rw [Pool.store?, hid]; rfl
      simp only [Session.step, Pool.compile?, hstore, events, hr]
      exact .none none
    | render slot request | stream slot request =>
      have hslot := Option.map_eq_none_iff.mp hr
      simp only [Session.step, hslot, events, hr]
      exact .none none

theorem follows_after (h : s.pool.Follows history) (steps : List Step) :
    (s.after steps).pool.Follows (history ++ s.history steps) := by
  induction steps generalizing s history with
  | nil =>
    rw [Session.history, List.append_nil]
    exact h
  | cons step steps ih =>
    have next := (change_step h step).follows h
    rw [Session.history, ← List.append_assoc]
    exact ih next

/-- A step that compiles a text makes an event of the template that it hands out; if it fails,
nothing happens. -/
def Compiles (s : Session) (step : Step) (id : StorageId) (text : String) (options : Options)
    (slot : String) : Prop :=
  (∀ e, parse text options = .error e → s.events step = [] ∧ (s.step step).2.held = s.held) ∧
    ∀ program, parse text options = .ok program → ∃ template,
      s.events step = [.compiled id ⟨text, options, template⟩] ∧
        (s.step step).2.held = (slot, template) :: s.held

theorem compiles_of_serve {step : Step} {id : StorageId} {store : Store} {text : String}
    {options : Options} {slot : String} (hid : store.id = id)
    (hevents : s.events step = (store.serve [(text, options)]).1)
    (hheld : (s.step step).2.held = (s.hold slot (store.compile text options).1 s.pool).2.held) :
    s.Compiles step id text options slot := by
  have hprogram := store.map_program_compile text options
  rcases store.serve_cons text options [] with ⟨e, hp, hc, hs⟩ | ⟨template, next, hc, -, hs⟩
  · rw [hc] at hheld
    rw [hs] at hevents
    refine ⟨fun _ _ => ⟨hevents, hheld⟩, fun program hp' => ?_⟩
    rw [hp] at hp'
    cases hp'
  · rw [hc] at hheld hprogram
    rw [hs, hid] at hevents
    refine ⟨fun e hp => ?_, fun _ _ => ⟨template, hevents, hheld⟩⟩
    rw [hp] at hprogram
    cases hprogram

theorem compiles_compile (h : s.pool.Follows history) {handle : Handle} {id : StorageId}
    (hid : s.pool.storage? handle = some id) (text : String) (options : Options) (slot : String) :
    s.Compiles (.compile handle text options slot) id text options slot := by
  obtain ⟨store, hs, hstore⟩ := h.exists_store hid
  have hr : s.requests? (.compile handle text options slot) = some (id, [(text, options)]) := by
    rw [requests?, hid]
    rfl
  refine compiles_of_serve (h.lives id store hs).1 ?_ ?_
  · rw [(events_of_requests hr).1, Pool.serve_of_some hs]
  · simp only [Session.step, Pool.compile?, hstore, Option.map_some]
    cases (store.compile text options).1 <;> rfl

theorem compiles_compileText (s : Session) (text : String) (options : Options) (slot : String) :
    s.Compiles (.compileText text options slot) s.pool.shared.id text options slot := by
  have hid : s.pool.shared.id = s.pool.shared.id := rfl
  refine compiles_of_serve hid ?_ ?_
  · rw [(events_of_requests rfl).1, Pool.serve_of_some s.pool.storeOf?_shared]
  · simp only [Session.step, Pool.compile]
    cases (s.pool.shared.compile text options).1 <;> rfl

end Session

/-- The cache that a handle reaches has exactly the keys recorded for its storage. -/
theorem Pool.Follows.contents {pool : Pool} {history : List CacheEvent}
    (h : pool.Follows history) {handle : Handle} {id : StorageId}
    (hid : pool.storage? handle = some id) :
    ∃ store, pool.store? handle = some store ∧
      (∀ text options, store.contains text options ↔ Recorded history id (.of text options)) ∧
      ∃ keys : List CacheKey, keys.Nodup ∧ (∀ key, key ∈ keys ↔ Recorded history id key) ∧
        store.size = keys.length := by
  obtain ⟨store, hs, hstore⟩ := h.exists_store hid
  obtain ⟨rfl, -, keeps⟩ := h.lives id store hs
  refine ⟨store, hstore, fun text options => keeps.isSome_get?_iff _, store.entries.map (·.1),
    keeps.distinct, fun key => ?_, ?_⟩
  · rw [← keeps.isSome_get?_iff]
    exact Entries.isSome_lookup_iff.symm
  · rw [List.length_map]
    rfl

/-- What caches hold follows from what was done before. A key is there exactly if it was recorded
since the last clear, by a text compiled to be kept or by a source that a rendering met; a text
compiled again has the template that recorded its key, and any other text a template like none
before. A step that does not clear a storage adds entries to it at most, and does so only for texts
compiled to be kept; handles are given other storages by name only; and clearing does not touch the
templates handed out. -/
theorem cache_contents_are_history (steps : List Step) :
    let s := Session.initial.after steps
    let history := Session.initial.history steps
    (∀ handle id, s.pool.storage? handle = some id → ∃ store, s.pool.store? handle = some store ∧
      (∀ text options, store.contains text options ↔ Recorded history id (.of text options)) ∧
      ∃ keys : List CacheKey, keys.Nodup ∧ (∀ key, key ∈ keys ↔ Recorded history id key) ∧
        store.size = keys.length) ∧
    (∀ before id c after, history = before ++ .compiled id c :: after → HandsOut before id c) ∧
    (∀ handle id text options slot, s.pool.storage? handle = some id →
      s.Compiles (.compile handle text options slot) id text options slot) ∧
    (∀ text options slot,
      s.Compiles (.compileText text options slot) s.pool.shared.id text options slot) ∧
    (∀ step handle id store, s.pool.storage? handle = some id → s.pool.store? handle = some store →
      (∀ name ∈ step.target?, handle ≠ .named name) → ∃ store',
        (s.step step).2.pool.storage? handle = some id ∧
        (s.step step).2.pool.store? handle = some store' ∧
        Pool.Extends (s.events step) id store store') ∧
    ∀ handle, (s.step (.clear handle)).2.held = s.held := by
  intro s history
  have follows : s.pool.Follows history :=
    Session.follows_after (s := .initial) Pool.follows_initial steps
  refine ⟨fun handle id hid => follows.contents hid, follows.orderly.handsOut,
    fun handle id text options slot hid => Session.compiles_compile follows hid text options slot,
    Session.compiles_compileText s, fun step handle id store hid hstore hne => ?_, fun _ => rfl⟩
  have change := Session.change_step follows step
  have hid' := (change.storage? hne).trans hid
  obtain ⟨store', hs', hstore'⟩ := (change.follows follows).exists_store hid'
  obtain ⟨_, hs, hstore''⟩ := follows.exists_store hid
  cases hstore.symm.trans hstore''
  exact ⟨store', hid', hstore', change.extends follows hs hs'⟩

/-- The name in diagnostics is that of the text which was compiled first since the clear. -/
example :
    let steps : List Step := [.compileText "{{a}}" { file := some "x" } "s",
      .compileText "{{a}}" { file := some "y" } "t", .clear .shared,
      .compileText "{{a}}" { file := some "y" } "u"]
    (Session.initial.after steps).held.map
        (fun entry => (entry.1, entry.2.options.file, entry.2.identity)) =
      [("u", some "y", ⟨0, 1⟩), ("t", some "x", ⟨0, 0⟩), ("s", some "x", ⟨0, 0⟩)] := by
  decide +kernel

end Mustache
