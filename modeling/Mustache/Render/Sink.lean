namespace Mustache

inductive Flow where
  | more
  | stop
deriving DecidableEq

/-- A receiver of chunks with a state of its own. -/
structure Sink (σ : Type) where
  write : σ → String → σ × Flow
  /-- Called after the last chunk of a rendering that ran to its end. -/
  finish : σ → σ

def Sink.joined : Sink String where
  write text chunk := (text ++ chunk, .more)
  finish text := text

end Mustache
