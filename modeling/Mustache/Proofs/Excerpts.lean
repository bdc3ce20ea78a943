import Mustache.Proofs.Locating

namespace Mustache

namespace Text

end Text

/-- A part of the lines of a text around one of them. -/
structure Window (lines : List (List Char)) where
  skipped : List (List Char)
  above : List (List Char)
  marked : List Char
  below : List (List Char)
  left : List (List Char)
  lines_eq : lines = skipped ++ above ++ marked :: (below ++ left)

namespace Window

variable {lines : List (List Char)}

/-- The number of the marked line, counted from one. -/
def number (w : Window lines) : Nat :=
  w.skipped.length + w.above.length + 1

/-- The numbers of the first and the last line in the window. -/
def first (w : Window lines) : Nat :=
  w.skipped.length + 1

def last (w : Window lines) : Nat :=
  w.number + w.below.length

def plain (line : List Char) : String :=
  "    " ++ String.ofList line

def pointed (line : List Char) : String :=
  " >> " ++ String.ofList line

/-- The lines of the window, each of them unchanged behind its prefix. -/
def shown (w : Window lines) : String :=
  "\n".intercalate (w.above.map plain ++ pointed w.marked :: w.below.map plain)

/-- From two lines before a line to three after it. -/
def around {outer inner : List (List Char)} {marked : List Char}
    (h : lines = outer ++ marked :: inner) : Window lines where
  skipped := outer.take (outer.length - 2)
  above := outer.drop (outer.length - 2)
  marked := marked
  below := inner.take 3
  left := inner.drop 3
  lines_eq := by rw [List.take_append_drop, List.take_append_drop, h]

variable {outer inner : List (List Char)} {marked : List Char}
  (h : lines = outer ++ marked :: inner)

end Window

section Numbered

variable {α β : Type} {keep : α × Nat → Bool} {draw : α × Nat → β}

end Numbered

/-- The part of a template that an error is about, and how the scan comes to it. -/
structure Culprit (template : List Char) (tags : Delimiters) (fault : Fault) where
  passed : List Item
  point : Cursor
  before : List Char
  spelled : List Char
  after : List Char
  passes : (Cursor.start template tags).Passes passed point
  template_eq : template = before ++ spelled ++ after
  rest_eq : point.rest = spelled ++ after
  opening_prefix : point.tags.opening.chars <+: spelled
  blames : point.Blames (passed.filterMap Item.tag?) (scan template tags).tags fault spelled after

theorem exists_culprit {template : List Char} {tags : Delimiters} {site : FaultSite}
    (h : Piece.ofTemplate template tags = .error site) :
    ∃ culprit : Culprit template tags site.fault,
      site.line = culprit.before.count '\n' + 1 ∧
      site.span =
        ⟨Text.byteLength culprit.before, Text.byteLength (culprit.before ++ culprit.spelled)⟩ ∧
      site.line = (culprit.passed.map Item.breaks).sum + 1 := by
  have verdict := Piece.map_ofTemplate template tags
  rw [h] at verdict
  obtain ⟨passed, point, spelled, after, passes, blames, hline, hspan⟩ :=
    Scan.exists_blamed verdict.symm
  obtain ⟨before, hbreaks, stands⟩ := passes.stands (Cursor.stands_start template tags)
  rw [List.nil_append] at stands
  have hrest := blames.rest_eq
  have htemplate : template = before ++ spelled ++ after := by
    rw [stands.rest, hrest, List.append_assoc]
  rw [stands.line] at hline
  refine ⟨⟨passed, point, before, spelled, after, passes, htemplate, hrest, blames.opening_prefix,
    blames⟩, hline, ?_, by rw [hline, hbreaks]⟩
  rw [hspan, stands.offset, Text.byteLength_append]

end Mustache
