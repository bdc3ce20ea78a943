import Mustache.Program.Op
import Mustache.Render.Error

namespace Mustache

/-- The course of a rendering: the chunks it writes, the sources it needs compiled and the limits it
meets, in order, and how it ends. Who takes the chunks and who compiles the sources is left open. -/
inductive Rendering (α : Type) where
  | done (a : α)
  | failed (error : RenderError)
  | write (chunk : String) (rest : Unit → Rendering α)
  /-- A limit forbids to go on here, which need not be the end if a lambda asked for it. -/
  | refuse (limit : RenderError) (rest : Unit → Rendering α)
  | load (source : String) (next : Except CompileError Program → Rendering α)

namespace Rendering

variable {α β : Type}

def bind : Rendering α → (α → Rendering β) → Rendering β
  | done a, f => f a
  | failed e, _ => failed e
  | write chunk rest, f => write chunk fun u => (rest u).bind f
  | refuse e rest, f => refuse e fun u => (rest u).bind f
  | load source next, f => load source fun r => (next r).bind f

instance : Monad Rendering where
  pure := done
  bind := bind

/-- Writes a text, which an empty text does not need. -/
def emit (text : String) : Rendering Unit :=
  if text = "" then done () else write text fun _ => done ()

/-- The rendering into a text instead of chunks: what follows `before`, or the error. -/
def collect (before : String) : Rendering Unit → Rendering (Except RenderError String)
  | done () => done (.ok before)
  | failed e => done (.error e)
  | write chunk rest => collect (before ++ chunk) (rest ())
  | refuse e rest => refuse e fun u => collect before (rest u)
  | load source next => load source fun r => collect before (next r)

def forEach (f : β → Rendering Unit) : List β → Rendering Unit
  | [] => done ()
  | b :: bs => (f b).bind fun _ => forEach f bs

end Rendering

end Mustache
