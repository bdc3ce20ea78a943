import Mustache.Render.Execute
import Mustache.Template.Store

namespace Mustache

inductive Handle where
  /-- The cache that is always there. -/
  | shared
  | named (name : String)
deriving DecidableEq

/-- Caches: handles to storages of compiled templates. Several handles may share a storage, which
lives as long as one of them does. A template outlives the storage that it was compiled for. -/
structure Pool where
  shared : Store
  /-- The other storages that some handle reaches. -/
  stores : List (StorageId × Store)
  handles : List (String × StorageId)
  made : Nat

namespace Pool

def initial : Pool :=
  ⟨.empty 0, [], [], 1⟩

def storage? (pool : Pool) : Handle → Option StorageId
  | .shared => some pool.shared.id
  | .named name => pool.handles.lookup name

/-- A storage, if it still lives. -/
def storeOf? (pool : Pool) (id : StorageId) : Option Store :=
  if id = pool.shared.id then some pool.shared else pool.stores.lookup id

def store? (pool : Pool) (handle : Handle) : Option Store :=
  (pool.storage? handle).bind pool.storeOf?

def update (pool : Pool) (store : Store) : Pool :=
  if store.id = pool.shared.id then { pool with shared := store }
  else { pool with
    stores := pool.stores.map fun (id, old) => (id, if id = store.id then store else old) }

/-- Removes the storages that no handle reaches. -/
def sweep (pool : Pool) : Pool :=
  { pool with stores := pool.stores.filter fun (id, _) => pool.handles.any (·.2 == id) }

/-- Lets a name stand for a storage, and for no other. -/
def assign (pool : Pool) (name : String) (id : StorageId) : Pool :=
  sweep { pool with handles := (name, id) :: pool.handles.filter (·.1 ≠ name) }

def create (pool : Pool) (name : String) : Pool :=
  assign { pool with stores := (pool.made, .empty pool.made) :: pool.stores, made := pool.made + 1 }
    name pool.made

def share (pool : Pool) (source : Handle) (name : String) : Pool :=
  match pool.storage? source with
  | none => pool
  | some id => pool.assign name id

def drop (pool : Pool) (name : String) : Pool :=
  sweep { pool with handles := pool.handles.filter (·.1 ≠ name) }

def clear (pool : Pool) (handle : Handle) : Pool :=
  match pool.store? handle with
  | none => pool
  | some store => pool.update store.clear

/-- Compiles a text through a cache, if the handle reaches one. -/
def compile? (pool : Pool) (handle : Handle) (text : String) (options : Options) :
    Option (Except CompileError Template × Pool) :=
  (pool.store? handle).map fun store =>
    let (compiled, store) := store.compile text options
    (compiled, pool.update store)

def compile (pool : Pool) (text : String) (options : Options) :
    Except CompileError Template × Pool :=
  let (compiled, shared) := pool.shared.compile text options
  (compiled, { pool with shared })

/-- Renders a template into a sink. Sources that are met are compiled through the storage of the
template if that still lives. -/
def stream {σ : Type} (pool : Pool) (template : Template) (view : Value) (partials : Partials)
    (lambdas : Lambdas) (sink : Sink σ) (state : σ) :
    Except RenderError Completion × σ × Pool :=
  let setting : Setting := ⟨partials, lambdas, template.options.partialDepthLimit⟩
  let rendering := setting.rendering template.program view
  let outcome :=
    rendering.run sink .cached state (pool.storeOf? template.identity.storage)
  (outcome.result, outcome.sink, outcome.loader.elim pool pool.update)

def render (pool : Pool) (template : Template) (view : Value) (partials : Partials)
    (lambdas : Lambdas) : Except RenderError String × Pool :=
  let (result, text, pool) := pool.stream template view partials lambdas .joined ""
  (result.map fun _ => text, pool)

def streamText {σ : Type} (pool : Pool) (text : String) (view : Value) (partials : Partials)
    (lambdas : Lambdas) (sink : Sink σ) (state : σ) : Except Error Completion × σ × Pool :=
  match pool.compile text .standard with
  | (.error e, pool) => (.error (.compile e), state, pool)
  | (.ok template, pool) =>
    let (result, state, pool) := pool.stream template view partials lambdas sink state
    (result.mapError .render, state, pool)

def renderText (pool : Pool) (text : String) (view : Value) (partials : Partials)
    (lambdas : Lambdas) : Except Error String × Pool :=
  let (result, text, pool) := pool.streamText text view partials lambdas .joined ""
  (result.map fun _ => text, pool)

end Pool
end Mustache
