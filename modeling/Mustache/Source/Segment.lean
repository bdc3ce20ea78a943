import Mustache.Source.Fault
import Mustache.Text.Blank
import Mustache.Text.Bytes

namespace Mustache

/-- A part of a literal text. Runs of blanks and of other characters are as long as they can be. -/
inductive Segment where
  | newline
  | blank (chars : List Char)
  | text (chars : List Char)
deriving DecidableEq

namespace Segment

def chars : Segment → List Char
  | newline => ['\n']
  | blank cs => cs
  | text cs => cs

/-- Puts a character before the segments: into the first of them if that is a run of its kind. -/
def attach (c : Char) (segments : List Segment) : List Segment :=
  if c = '\n' then newline :: segments
  else if Text.isBlank c then
    match segments with
    | blank cs :: rest => blank (c :: cs) :: rest
    | _ => blank [c] :: segments
  else
    match segments with
    | text cs :: rest => text (c :: cs) :: rest
    | _ => text [c] :: segments

def ofText (cs : List Char) : List Segment :=
  cs.foldr attach []

/-- The segments with the bytes that each takes, the first starting at `offset`. -/
def spans (offset : Nat) : List Segment → List (Segment × Span)
  | [] => []
  | s :: rest =>
    let stop := offset + Text.byteLength s.chars
    (s, ⟨offset, stop⟩) :: spans stop rest

theorem flatMap_chars_attach (c : Char) (segments : List Segment) :
    (attach c segments).flatMap chars = c :: segments.flatMap chars := by
  unfold attach
  split
  · simp_all [chars]
  · split <;> split <;> simp [chars]

/-- The segments of a text spell the text. -/
theorem flatMap_chars_ofText (cs : List Char) : (ofText cs).flatMap chars = cs := by
  induction cs with
  | nil => rfl
  | cons c cs ih =>
    rw [ofText, List.foldr_cons, flatMap_chars_attach]
    exact congrArg _ ih

end Segment
end Mustache
