import Mustache.Render.Rendering
import Mustache.Render.Sink

namespace Mustache

/-- A compiler of the sources that a rendering meets, with a state of its own. -/
structure Loader (κ : Type) where
  load : κ → String → Except CompileError Program × κ

inductive Completion where
  | finished
  | stopped
deriving DecidableEq

structure Outcome (σ κ : Type) where
  result : Except RenderError Completion
  sink : σ
  loader : κ

/-- Runs a rendering. Once the sink wants no more, nothing else happens. -/
def Rendering.run {σ κ : Type} (sink : Sink σ) (loader : Loader κ) :
    Rendering Unit → σ → κ → Outcome σ κ
  | done (), s, k => ⟨.ok .finished, sink.finish s, k⟩
  | failed e, s, k => ⟨.error e, s, k⟩
  | write chunk rest, s, k =>
    match sink.write s chunk with
    | (s, .more) => run sink loader (rest ()) s k
    | (s, .stop) => ⟨.ok .stopped, s, k⟩
  | refuse _ rest, s, k => run sink loader (rest ()) s k
  | load source next, s, k =>
    let (compiled, k) := loader.load k source
    run sink loader (next compiled) s k

end Mustache
