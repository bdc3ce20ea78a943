import Mustache.Proofs.Reading

namespace Mustache

/-- How far one place in a template is behind another. -/
structure Shift where
  bytes : Nat
  lines : Nat

/-- From the start of a text to its end. -/
def Shift.over (cs : List Char) : Shift :=
  ⟨Text.byteLength cs, cs.count '\n'⟩

def Span.shift (d : Shift) (s : Span) : Span :=
  ⟨s.start + d.bytes, s.stop + d.bytes⟩

def FaultSite.shift (d : Shift) (site : FaultSite) : FaultSite :=
  ⟨site.fault, site.line + d.lines, site.span.shift d⟩

def Tag.shift (d : Shift) (t : Tag) : Tag :=
  ⟨t.sigil, t.source, t.line + d.lines, t.span.shift d⟩

def OpenSection.shift (d : Shift) (s : OpenSection) : OpenSection :=
  ⟨s.name, s.line + d.lines, s.span.shift d⟩

def Item.shift (d : Shift) : Item → Item
  | text cs => text cs
  | tag t => tag (t.shift d)

@[simp] theorem Item.shift_text (d : Shift) (cs : List Char) : (text cs).shift d = text cs :=
  rfl

@[simp] theorem Item.shift_tag (d : Shift) (t : Tag) : (tag t).shift d = tag (t.shift d) :=
  rfl

namespace Cursor

/-- The same text farther on. -/
def shift (d : Shift) (c : Cursor) : Cursor :=
  ⟨c.rest, c.offset + d.bytes, c.line + d.lines, c.tags⟩

def Step.shift (d : Shift) : Step → Step
  | ended => ended
  | failed site => failed (site.shift d)
  | found item next => found (item.shift d) (next.shift d)

end Cursor

def Scan.shift (d : Shift) (s : Scan) : Scan :=
  ⟨s.items.map (·.shift d), s.fault.map (·.shift d)⟩

namespace Cursor

theorem shift_advance (d : Shift) (c : Cursor) (passed rest : List Char) :
    (c.shift d).advance passed rest = (c.advance passed rest).shift d := by
  simp only [shift, advance, Cursor.mk.injEq, true_and, and_true]
  omega

theorem shift_readTag (d : Shift) (c : Cursor) (inner : List Char) :
    (c.shift d).readTag inner = (c.readTag inner).shift d := by
  have hadvance := shift_advance d c
  simp only [readTag, hadvance]
  rw [show (c.shift d).tags = c.tags from rfl]
  split
  · simp only [Step.shift, FaultSite.shift, Span.shift, shift, Nat.add_right_comm]
  · split
    · split
      · rfl
      · rfl
    · rfl

theorem shift_step (d : Shift) (c : Cursor) : (c.shift d).step = c.step.shift d := by
  have hadvance := shift_advance d c
  simp only [step, hadvance, shift_readTag]
  rw [show (c.shift d).tags = c.tags from rfl, show (c.shift d).rest = c.rest from rfl]
  split
  · rfl
  · split
    · rfl
    · rfl
    · rfl

/-- A text is scanned in the same way wherever it starts. -/
theorem shift_scan (d : Shift) (c : Cursor) : (c.shift d).scan = c.scan.shift d := by
  have hstep := shift_step d c
  cases h : c.step with
  | ended =>
    rw [h] at hstep
    rw [scan_of_ended h, scan_of_ended hstep]
    rfl
  | failed site =>
    rw [h] at hstep
    rw [scan_of_failed h, scan_of_failed hstep]
    rfl
  | found item next =>
    rw [h] at hstep
    have shorter := step_shorter h
    rw [scan_of_found h, scan_of_found hstep, shift_scan d next]
    rfl
termination_by c.rest.length

end Cursor

namespace Text

theorem dropBytes_add (n : Nat) (xs ys : List Char) :
    dropBytes (n + byteLength xs) (xs ++ ys) = dropBytes n ys := by
  induction xs with
  | nil => rfl
  | cons c cs ih =>
    have hc := c.utf8Size_pos
    obtain ⟨k, hk⟩ : ∃ k, n + byteLength (c :: cs) = k + 1 :=
      ⟨n + byteLength (c :: cs) - 1, by simp only [byteLength]; omega⟩
    have hrest : k + 1 - c.utf8Size = n + byteLength cs := by
      simp only [byteLength] at hk
      omega
    rw [List.cons_append, hk, dropBytes, hrest, ih]

theorem slice_add (start stop : Nat) (xs ys : List Char) :
    slice (start + byteLength xs) (stop + byteLength xs) (xs ++ ys) = slice start stop ys := by
  rw [slice, slice, dropBytes_add, Nat.add_sub_add_right]

end Text

/-- What a shift makes of a result: the fault and the sections have other places, and the pieces are
the same. -/
def Shift.result {α : Type} (d : Shift) :
    Except FaultSite (α × List OpenSection) → Except FaultSite (α × List OpenSection)
  | .error site => .error (site.shift d)
  | .ok (found, sections) => .ok (found, sections.map (·.shift d))

theorem Tag.piece_shift (passed template : List Char) (sections : List OpenSection) (t : Tag) :
    (t.shift (.over passed)).piece (passed ++ template) (sections.map (·.shift (.over passed))) =
      (Shift.over passed).result (t.piece template sections) := by
  have hname : (t.shift (.over passed)).name = t.name := rfl
  have hsigil : (t.shift (.over passed)).sigil = t.sigil := rfl
  unfold piece
  rw [hname, hsigil]
  cases t.sigil with
  | comment | delimiterSwitch | inclusion | triple | ampersand | bare => rfl
  | sectionOpen | invertedOpen =>
    simp only
    split <;> rfl
  | sectionClose =>
    cases sections with
    | nil => rfl
    | cons innermost outer =>
      simp only [List.map_cons]
      rw [show (innermost.shift (.over passed)).name = innermost.name from rfl]
      split
      · have hraw := Text.slice_add innermost.span.stop t.span.start passed template
        simp only [Shift.result, ← hraw]
        rfl
      · rfl

/-- Behind a text that has been passed, items have the same pieces and the same faults. -/
theorem Item.pieces_shift (passed template : List Char) (sections : List OpenSection)
    (items : List Item) :
    Item.pieces (passed ++ template) (sections.map (·.shift (.over passed)))
        (items.map (·.shift (.over passed))) =
      (Shift.over passed).result (Item.pieces template sections items) := by
  induction items generalizing sections with
  | nil => rfl
  | cons item items ih =>
    cases item with
    | text cs =>
      simp only [List.map_cons, Item.shift_text, Item.pieces, ih]
      cases Item.pieces template sections items with
      | error site => rfl
      | ok found => rfl
    | tag t =>
      simp only [List.map_cons, Item.shift_tag, Item.pieces, Tag.piece_shift]
      cases t.piece template sections with
      | error site => rfl
      | ok found =>
        simp only [Shift.result, bind, Except.bind, ih]
        cases Item.pieces template found.2 items with
        | error site => rfl
        | ok later => rfl

end Mustache
