import Mustache.Proofs.Interchange

namespace Mustache

/-- An entry for a table of partials: a source, or the template in a slot. -/
inductive TableEntry where
  | source (text : String)
  | held (slot : String)

structure Request where
  view : Value
  table : List (String × TableEntry)
  lambdas : Lambdas

/-- Templates that were handed out, each in a slot. -/
abbrev Held := List (String × Template)

def Held.remove (held : Held) (slot : String) : Held :=
  held.filter (·.1 ≠ slot)

/-- Adds a partial to a table, if there is one. -/
def Held.addPartial (held : Held) (partials : Partials) : String × TableEntry → Partials
  | (name, .source text) => partials.insert name (.source text)
  | (name, .held slot) =>
    match held.lookup slot with
    | none => partials
    | some template => partials.insert name (.compiled template)

def Held.partials (held : Held) (table : List (String × TableEntry)) : Partials :=
  table.foldl held.addPartial .empty

/-- A step of a user of caches. The last ones of a kind use the cache that is always there. -/
inductive Step : Type 1 where
  | create (name : String)
  | share (source : Handle) (name : String)
  | drop (name : String)
  | clear (handle : Handle)
  | compile (handle : Handle) (text : String) (options : Options) (slot : String)
  | compileText (text : String) (options : Options) (slot : String)
  | release (slot : String)
  | render (slot : String) (request : Request)
  | renderText (text : String) (request : Request)
  | stream (slot : String) (request : Request) (σ : Type) (sink : Sink σ) (state : σ)
  | streamText (text : String) (request : Request) (σ : Type) (sink : Sink σ) (state : σ)

/-- What a step answers with. A sink is part of it in its final state, in which it may have kept
every call. -/
inductive Answer : Type 1 where
  | none
  | compiled (result : Except CompileError (Program × Nat))
  | rendered (result : Except Error String)
  | streamed (σ : Type) (result : Except Error Completion) (state : σ)

structure Session where
  pool : Pool
  held : Held

namespace Session

def initial : Session :=
  ⟨.initial, []⟩

def hold (s : Session) (slot : String) (compiled : Except CompileError Template) (pool : Pool) :
    Answer × Session :=
  match compiled with
  | .error e => (.compiled (.error e), { s with pool })
  | .ok template =>
    (.compiled (.ok (template.program, template.options.partialDepthLimit)),
      ⟨pool, (slot, template) :: s.held⟩)

/-- A step that needs a handle or a template that is not there does nothing. -/
def step (s : Session) : Step → Answer × Session
  | .create name => (.none, { s with pool := s.pool.create name })
  | .share source name => (.none, { s with pool := s.pool.share source name })
  | .drop name => (.none, { s with pool := s.pool.drop name })
  | .clear handle => (.none, { s with pool := s.pool.clear handle })
  | .compile handle text options slot =>
    match s.pool.compile? handle text options with
    | none => (.none, s)
    | some (compiled, pool) => s.hold slot compiled pool
  | .compileText text options slot =>
    let (compiled, pool) := s.pool.compile text options
    s.hold slot compiled pool
  | .release slot => (.none, { s with held := s.held.remove slot })
  | .render slot request =>
    match s.held.lookup slot with
    | none => (.none, s)
    | some template =>
      let (result, pool) := s.pool.render template request.view (s.held.partials request.table)
        request.lambdas
      (.rendered (result.mapError .render), { s with pool })
  | .renderText text request =>
    let (result, pool) := s.pool.renderText text request.view (s.held.partials request.table)
      request.lambdas
    (.rendered result, { s with pool })
  | .stream slot request σ sink state =>
    match s.held.lookup slot with
    | none => (.none, s)
    | some template =>
      let (result, state, pool) := s.pool.stream template request.view
        (s.held.partials request.table) request.lambdas sink state
      (.streamed σ (result.mapError .render) state, { s with pool })
  | .streamText text request σ sink state =>
    let (result, state, pool) := s.pool.streamText text request.view
      (s.held.partials request.table) request.lambdas sink state
    (.streamed σ result state, { s with pool })

def answers (s : Session) : List Step → List Answer
  | [] => []
  | step :: steps => (s.step step).1 :: answers (s.step step).2 steps

end Session

/-- A user without any caches, who compiles each text again and knows of caches only which handles
there would be. -/
structure Cacheless where
  handles : List String
  held : Held

namespace Cacheless

def initial : Cacheless :=
  ⟨[], []⟩

def build (text : String) (options : Options) : Except CompileError Template :=
  Template.build text options ⟨0, 0⟩

def has (c : Cacheless) : Handle → Bool
  | .shared => true
  | .named name => c.handles.contains name

def drop (c : Cacheless) (name : String) : Cacheless :=
  { c with handles := c.handles.filter (· ≠ name) }

def assign (c : Cacheless) (name : String) : Cacheless :=
  { c with handles := name :: c.handles.filter (· ≠ name) }

def hold (c : Cacheless) (slot : String) : Except CompileError Template → Cacheless
  | .error _ => c
  | .ok template => { c with held := (slot, template) :: c.held }

def compile (c : Cacheless) (text : String) (options : Options) (slot : String) :
    Answer × Cacheless :=
  (.compiled ((parse text options).map fun program => (program, options.partialDepthLimit)),
    c.hold slot (build text options))

def stream {σ : Type} (c : Cacheless) (template : Template) (request : Request) (sink : Sink σ)
    (state : σ) : Except RenderError Completion × σ :=
  template.streamAlone request.view (c.held.partials request.table) request.lambdas sink state

def streamText {σ : Type} (c : Cacheless) (text : String) (request : Request) (sink : Sink σ)
    (state : σ) : Except Error Completion × σ :=
  match build text .standard with
  | .error e => (.error (.compile e), state)
  | .ok template =>
    let (result, state) := c.stream template request sink state
    (result.mapError .render, state)

def step (c : Cacheless) : Step → Answer × Cacheless
  | .create name => (.none, c.assign name)
  | .share source name => (.none, if c.has source then c.assign name else c)
  | .drop name => (.none, c.drop name)
  | .clear _ => (.none, c)
  | .compile handle text options slot =>
    if c.has handle then c.compile text options slot else (.none, c)
  | .compileText text options slot => c.compile text options slot
  | .release slot => (.none, { c with held := c.held.remove slot })
  | .render slot request =>
    match c.held.lookup slot with
    | none => (.none, c)
    | some template =>
      let (result, text) := c.stream template request .joined ""
      (.rendered ((result.map fun _ => text).mapError .render), c)
  | .renderText text request =>
    let (result, text) := c.streamText text request .joined ""
    (.rendered (result.map fun _ => text), c)
  | .stream slot request σ sink state =>
    match c.held.lookup slot with
    | none => (.none, c)
    | some template =>
      let (result, state) := c.stream template request sink state
      (.streamed σ (result.mapError .render) state, c)
  | .streamText text request σ sink state =>
    let (result, state) := c.streamText text request sink state
    (.streamed σ result state, c)

def answers (c : Cacheless) : List Step → List Answer
  | [] => []
  | step :: steps => (c.step step).1 :: answers (c.step step).2 steps

end Cacheless
end Mustache
