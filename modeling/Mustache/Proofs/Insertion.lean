import Mustache.Proofs.LineStarts
import Mustache.Proofs.Matching

namespace Mustache

/-- A piece without the source of the section that it ends. -/
def Piece.withoutRaw : Piece → Piece
  | closeTag name _ => closeTag name ""
  | piece => piece

/-- An operation without the source of its body. -/
def Op.withoutRaw : Op → Op
  | openSection name inverted bodyLength _ => openSection name inverted bodyLength ""
  | op => op

theorem Op.map_withoutRaw_modify (ops : List Op) (i n : Nat) (raw : String) :
    (ops.modify i (link n raw)).map withoutRaw = (ops.map withoutRaw).modify i (link n "") := by
  have hlink (op : Op) : (op.link n raw).withoutRaw = op.withoutRaw.link n "" := by
    cases op <;> rfl
  induction ops generalizing i with
  | nil => simp
  | cons op ops ih =>
    cases i with
    | zero => simp only [List.modify_zero_cons, List.map_cons, hlink]
    | succ i => simp only [List.modify_succ_cons, List.map_cons, ih]

namespace Piece

theorem standsAlone_withoutRaw (p : Piece) : p.withoutRaw.standsAlone = p.standsAlone := by
  cases p <;> rfl

theorem isSpace_withoutRaw (p : Piece) : p.withoutRaw.isSpace = p.isSpace := by
  cases p <;> rfl

theorem withoutRaw_eq_newline_iff {p : Piece} : p.withoutRaw = newline ↔ p = newline := by
  cases p <;> simp [withoutRaw]

theorem lines_withoutRaw (pieces : List Piece) :
    lines (pieces.map withoutRaw) = (lines pieces).map (·.map withoutRaw) := by
  induction pieces with
  | nil => rfl
  | cons piece rest ih =>
    simp only [List.map_cons, lines, withoutRaw_eq_newline_iff, ih]
    split
    · rfl
    · cases lines rest <;> rfl

theorem stripLine_withoutRaw (line : List Piece) :
    stripLine (line.map withoutRaw) = (stripLine line).map withoutRaw := by
  have halone : isStandalone (line.map withoutRaw) = isStandalone line := by
    simp only [isStandalone, List.countP_map, List.all_map, Function.comp_def,
      standsAlone_withoutRaw, isSpace_withoutRaw]
  unfold stripLine
  rw [halone]
  split
  · simp only [List.filter_map, Function.comp_def, isSpace_withoutRaw]
  · rfl

/-- Which lines are standalone does not depend on the sources of sections. -/
theorem strip_withoutRaw (pieces : List Piece) :
    strip (pieces.map withoutRaw) = (strip pieces).map withoutRaw := by
  simp only [strip, lines_withoutRaw, List.flatMap_map, stripLine_withoutRaw, List.map_flatMap]

end Piece

namespace Assembly

def withoutRaw (a : Assembly) : Assembly :=
  { a with ops := a.ops.map Op.withoutRaw }

theorem flush_withoutRaw (a : Assembly) : a.withoutRaw.flush = a.flush.withoutRaw := by
  unfold flush
  split
  next h => rw [if_pos (show a.literal = "" from h)]
  next h =>
    rw [if_neg (show ¬a.literal = "" from h)]
    simp [withoutRaw, Op.withoutRaw]

theorem push_withoutRaw (a : Assembly) (op : Op) :
    a.withoutRaw.push op.withoutRaw = (a.push op).withoutRaw := by
  simp [withoutRaw, push]

theorem closeSection_withoutRaw (a : Assembly) (name raw : String) :
    a.withoutRaw.closeSection name "" = (a.closeSection name raw).withoutRaw := by
  have hsame : a.withoutRaw.openSections = a.openSections := rfl
  unfold closeSection
  rw [hsame]
  split
  · exact push_withoutRaw a (.closeSection name)
  next start outer _ =>
    have hops : (a.withoutRaw.ops.modify start (.link (a.ops.size - start - 1) "")) =
        (a.ops.modify start (.link (a.ops.size - start - 1) raw)).map Op.withoutRaw := by
      apply Array.toList_inj.mp
      simp only [withoutRaw, Array.toList_modify, Array.toList_map, Op.map_withoutRaw_modify]
    have hsize : a.withoutRaw.ops.size = a.ops.size := Array.size_map
    rw [hsize, hops]
    simp [withoutRaw, Op.withoutRaw]

theorem flush_push_withoutRaw (a : Assembly) (op : Op) :
    a.withoutRaw.flush.push op.withoutRaw = (a.flush.push op).withoutRaw := by
  rw [flush_withoutRaw, push_withoutRaw]

theorem step_withoutRaw (a : Assembly) (piece : Piece) :
    a.withoutRaw.step piece.withoutRaw = (a.step piece).withoutRaw := by
  cases piece with
  | text cs | blank cs | newline | silent => rfl
  | inclusion name => exact flush_push_withoutRaw a (.inclusion name)
  | variableTag name escaped =>
    cases escaped with
    | false => exact flush_push_withoutRaw a (.unescaped name)
    | true => exact flush_push_withoutRaw a (.escaped name)
  | openTag name inverted =>
    simp only [Piece.withoutRaw, step, openSection, flush_withoutRaw]
    simp [withoutRaw, Op.withoutRaw]
  | closeTag name raw =>
    have closed := closeSection_withoutRaw a.flush name raw
    rw [← flush_withoutRaw] at closed
    exact closed

end Assembly

theorem Program.ofPieces_withoutRaw (pieces : List Piece) :
    (ofPieces (pieces.map Piece.withoutRaw)).ops = (ofPieces pieces).ops.map Op.withoutRaw := by
  have run (a : Assembly) : (pieces.map Piece.withoutRaw).foldl Assembly.step a.withoutRaw =
      (pieces.foldl Assembly.step a).withoutRaw := by
    induction pieces generalizing a with
    | nil => rfl
    | cons piece pieces ih =>
      rw [List.map_cons, List.foldl_cons, List.foldl_cons, Assembly.step_withoutRaw, ih]
  have hempty : Assembly.empty.withoutRaw = Assembly.empty := by
    simp [Assembly.withoutRaw, Assembly.empty]
  have whole := run .empty
  rw [hempty] at whole
  rw [ofPieces, ofPieces, Assembly.ofPieces, Assembly.ofPieces, whole, Assembly.flush_withoutRaw]
  simp [Assembly.withoutRaw]

section Elsewhere

variable {template : List Char} {sections sections' left : List OpenSection}

/-- One step: elsewhere in another template, a tag does the same to sections of the same names. -/
theorem Tag.exists_piece_shift {t : Tag} {d : Shift} {piece : Piece}
    (h : (t.shift d).piece template sections = .ok (piece, left))
    (names : sections'.map (·.name) = sections.map (·.name)) (template' : List Char) (d' : Shift) :
    ∃ piece' left', (t.shift d').piece template' sections' = .ok (piece', left') ∧
      piece'.withoutRaw = piece.withoutRaw ∧ left'.map (·.name) = left.map (·.name) := by
  have hname (d : Shift) : (t.shift d).name = t.name := rfl
  have hsigil (d : Shift) : (t.shift d).sigil = t.sigil := rfl
  unfold Tag.piece at h ⊢
  simp only [hname, hsigil] at h ⊢
  cases hs : t.sigil with
  | sectionOpen | invertedOpen =>
    simp only [hs] at h ⊢
    split at h
    · cases h
    next hne =>
      cases h
      rw [if_neg hne]
      exact ⟨_, _, rfl, rfl, congrArg (t.name :: ·) names⟩
  | sectionClose =>
    simp only [hs] at h ⊢
    cases sections with
    | nil => cases h
    | cons innermost outer =>
      obtain ⟨innermost', outer', rfl, hinnermost, houter⟩ := List.map_eq_cons_iff.mp names
      simp only [hinnermost] at h ⊢
      split at h
      next heq =>
        cases h
        rw [if_pos heq]
        exact ⟨_, _, rfl, rfl, houter⟩
      next => cases h
  | _ =>
    simp only [hs] at h ⊢
    cases h
    exact ⟨_, _, rfl, rfl, names⟩

/-- Elsewhere in another template, items have the same pieces but for the sources of sections. -/
theorem Item.exists_pieces_shift {items : List Item} {d : Shift} {pieces : List Piece}
    (h : Item.pieces template sections (items.map (·.shift d)) = .ok (pieces, left))
    (names : sections'.map (·.name) = sections.map (·.name)) (template' : List Char) (d' : Shift) :
    ∃ pieces' left', Item.pieces template' sections' (items.map (·.shift d')) =
        .ok (pieces', left') ∧
      pieces'.map Piece.withoutRaw = pieces.map Piece.withoutRaw ∧
      left'.map (·.name) = left.map (·.name) := by
  induction items generalizing sections sections' pieces with
  | nil =>
    cases h
    exact ⟨[], sections', rfl, rfl, names⟩
  | cons item items ih =>
    cases item with
    | text cs =>
      obtain ⟨more, rfl, hitems⟩ := pieces_text_eq_ok_iff.mp h
      obtain ⟨more', left', hitems', hmore, hleft⟩ := ih hitems names
      refine ⟨_, left', pieces_text_eq_ok_iff.mpr ⟨more', rfl, hitems'⟩, ?_, hleft⟩
      rw [List.map_append, List.map_append, hmore]
    | tag t =>
      obtain ⟨piece, next, more, rfl, ht, hitems⟩ := pieces_tag_eq_ok_iff.mp h
      obtain ⟨piece', next', ht', hpiece, hnext⟩ := Tag.exists_piece_shift ht names template' d'
      obtain ⟨more', left', hitems', hmore, hleft⟩ := ih hitems hnext
      refine ⟨_, left', pieces_tag_eq_ok_iff.mpr ⟨piece', next', more', rfl, ht', hitems'⟩, ?_,
        hleft⟩
      rw [List.map_cons, List.map_cons, hpiece, hmore]

end Elsewhere

theorem Item.pieces_append_eq_ok_iff {template : List Char} {sections left : List OpenSection}
    {xs ys : List Item} {pieces : List Piece} :
    Item.pieces template sections (xs ++ ys) = .ok (pieces, left) ↔
      ∃ first mid others, pieces = first ++ others ∧
        Item.pieces template sections xs = .ok (first, mid) ∧
        Item.pieces template mid ys = .ok (others, left) := by
  rw [pieces_append]
  cases Item.pieces template sections xs with
  | error site => simp
  | ok found =>
    cases hys : Item.pieces template found.2 ys with
    | error site =>
      simp only [Except.map, hys, reduceCtorEq, false_iff]
      rintro ⟨_, _, _, -, hfirst, hothers⟩
      cases hfirst
      rw [hys] at hothers
      cases hothers
    | ok later =>
      simp only [Except.map, hys, Except.ok.injEq, Prod.mk.injEq]
      constructor
      · rintro ⟨rfl, rfl⟩
        exact ⟨found.1, found.2, later.1, rfl, rfl, hys⟩
      · rintro ⟨_, _, _, rfl, rfl, hothers⟩
        rw [hys] at hothers
        cases hothers
        exact ⟨rfl, rfl⟩

namespace WholeLines

variable {tags tags' : Delimiters} {xs ys : List Char} {pieces : List Piece}

/-- What a template has behind whole lines depends on those by the sections left open only. -/
theorem pieces_append_iff (h : WholeLines tags xs tags') {left : List OpenSection} :
    Item.pieces (xs ++ ys) [] (scan (xs ++ ys) tags).items = .ok (pieces, left) ↔
      ∃ first sections others, pieces = first ++ others ∧
        Item.pieces xs [] (scan xs tags).items = .ok (first, sections) ∧
        Item.pieces (xs ++ ys) sections ((scan ys tags').items.map (·.shift (.over xs))) =
          .ok (others, left) := by
  obtain ⟨-, hitems, -⟩ := h.scan_append ys
  rw [hitems, Item.pieces_append_eq_ok_iff, Item.pieces_scan_extend]

theorem ofTemplate_append_iff (h : WholeLines tags xs tags') :
    Piece.ofTemplate (xs ++ ys) tags = .ok pieces ↔ (scan ys tags').fault = none ∧
      ∃ first sections others, pieces = first ++ others ∧
        Item.pieces xs [] (scan xs tags).items = .ok (first, sections) ∧
        Item.pieces (xs ++ ys) sections ((scan ys tags').items.map (·.shift (.over xs))) =
          .ok (others, []) := by
  obtain ⟨hfault, -, -⟩ := h.scan_append ys
  rw [Piece.ofTemplate_eq_ok_iff, hfault, Option.map_eq_none_iff, h.pieces_append_iff]

end WholeLines
end Mustache
