import Mustache.Proofs.Insertion

namespace Mustache

theorem Text.isWhiteSpace_of_isBlank {c : Char} (h : isBlank c) : isWhiteSpace c := by
  simp only [isBlank, Bool.or_eq_true, beq_iff_eq, or_assoc] at h
  rcases h with rfl | rfl | rfl | rfl | rfl <;> rfl

namespace Segment

theorem eq_blank_of_mem_ofText {cs : List Char} (h : ∀ c ∈ cs, Text.isBlank c) {s : Segment}
    (hs : s ∈ ofText cs) : ∃ bs, s = blank bs := by
  have blanks : ∀ c ∈ s.chars, Text.isBlank c := by
    intro c hc
    have hmem : c ∈ (ofText cs).flatMap chars := List.mem_flatMap_of_mem hs hc
    rw [flatMap_chars_ofText] at hmem
    exact h c hmem
  have pure := pure_ofText cs s hs
  cases s with
  | newline =>
    have hnewline := blanks '\n' (by simp [chars])
    cases hnewline
  | blank bs => exact ⟨bs, rfl⟩
  | text ts =>
    obtain ⟨hne, hsolid⟩ := pure
    obtain ⟨c, hc⟩ := List.exists_mem_of_ne_nil ts hne
    exact absurd (blanks c hc) (hsolid c hc).1

end Segment

namespace Piece

def IsBlank (p : Piece) : Prop :=
  ∃ cs, p = blank cs

theorem lines_of_newline_not_mem {pieces : List Piece} (h : newline ∉ pieces) :
    lines (pieces ++ [newline]) = [pieces ++ [newline]] := by
  induction pieces with
  | nil => rfl
  | cons p pieces ih =>
    obtain ⟨hp, hpieces⟩ := not_or.mp (mt List.mem_cons.mpr h)
    rw [List.cons_append]
    simp only [lines, if_neg (Ne.symm hp), ih hpieces]

/-- A line with a silent tag and white space besides is left with the tag. -/
theorem strip_silent_between {xs ys : List Piece} (hx : ∀ p ∈ xs, p.IsBlank)
    (hy : ∀ p ∈ ys, p.IsBlank) : strip (xs ++ silent :: (ys ++ [newline])) = [silent] := by
  have newline_not_mem {ps : List Piece} (h : ∀ p ∈ ps, p.IsBlank) : newline ∉ ps := by
    intro hmem
    obtain ⟨cs, hcs⟩ := h _ hmem
    cases hcs
  have none {ps : List Piece} (h : ∀ p ∈ ps, p.IsBlank) : ps.countP standsAlone = 0 := by
    rw [List.countP_eq_zero]
    intro p hp
    obtain ⟨cs, rfl⟩ := h p hp
    exact nofun
  have space {ps : List Piece} (h : ∀ p ∈ ps, p.IsBlank) : ∀ p ∈ ps, p.isSpace := by
    intro p hp
    obtain ⟨cs, rfl⟩ := h p hp
    rfl
  have hlines : lines (xs ++ silent :: ys ++ [newline]) = [xs ++ silent :: ys ++ [newline]] := by
    apply lines_of_newline_not_mem
    simp [newline_not_mem hx, newline_not_mem hy]
  have halone : isStandalone (xs ++ silent :: ys ++ [newline]) = true := by
    simp only [isStandalone, List.countP_append, List.countP_cons, List.countP_nil, none hx,
      none hy, List.all_append, List.all_cons, List.all_nil, Bool.and_eq_true, beq_iff_eq,
      List.all_eq_true, Bool.or_eq_true]
    refine ⟨rfl, ⟨?_, ?_, ?_⟩, ?_⟩
    · exact fun p hp => .inr (space hx p hp)
    · exact .inl rfl
    · exact fun p hp => .inr (space hy p hp)
    · exact ⟨.inr rfl, trivial⟩
  have hfilter : (xs ++ silent :: ys ++ [newline]).filter (!·.isSpace) = [silent] := by
    have gone {ps : List Piece} (h : ∀ p ∈ ps, p.IsBlank) : ps.filter (!·.isSpace) = [] := by
      rw [List.filter_eq_nil_iff]
      intro p hp
      simp [space h p hp]
    rw [List.filter_append, List.filter_append, List.filter_cons, gone hx, gone hy]
    rfl
  rw [← List.cons_append, ← List.append_assoc, strip, hlines, List.flatMap_singleton, stripLine,
    if_pos halone, hfilter]

end Piece

/-- A line with nothing but a comment, by the delimiters in effect. The text of the comment may have
newlines in it, but not the end of the comment. -/
structure CommentLine (tags : Delimiters) where
  indent : List Char
  comment : List Char
  trailing : List Char
  indent_blank : ∀ c ∈ indent, Text.isBlank c
  trailing_blank : ∀ c ∈ trailing, Text.isBlank c
  closes : ∀ before after,
    comment ++ tags.closing.chars = before ++ tags.closing.chars ++ after → after = []

namespace CommentLine

variable {tags : Delimiters}

def chars (line : CommentLine tags) : List Char :=
  line.indent ++ tags.opening.chars ++
    '!' :: (line.comment ++ tags.closing.chars ++ (line.trailing ++ ['\n']))

/-- The end of a comment is the only one if it is the first one. -/
theorem eq_nil_of_breakOn {needle cs : List Char}
    (h : Text.breakOn needle (cs ++ needle) = some (cs, [])) (before after : List Char)
    (ho : cs ++ needle = before ++ needle ++ after) : after = [] := by
  have hle := (Text.breakOn_eq_some_iff.mp h).least before after ho
  have hlength := congrArg List.length ho
  simp only [List.length_append] at hlength
  apply List.length_eq_zero_iff.mp
  omega

theorem scan_eq (line : CommentLine tags) :
    ∃ t : Tag, t.sigil = .comment ∧ scan line.chars tags =
      ⟨(if line.indent = [] then [] else [.text line.indent]) ++
        [.tag t, .text (line.trailing ++ ['\n'])], none⟩ := by
  let inner : List Char := '!' :: (line.comment ++ tags.closing.chars ++ (line.trailing ++ ['\n']))
  let c : Cursor := .start line.chars tags
  let d : Cursor := c.advance line.indent (tags.opening.chars ++ inner)
  have opens : Text.Leftmost c.tags.opening.chars c.rest line.indent inner :=
    Text.leftmost_behind_white tags.opening.nonempty tags.opening.solid
      (fun ch h => Text.isWhiteSpace_of_isBlank (line.indent_blank ch h)) inner
  have closes : Text.Leftmost tags.closing.chars (line.comment ++ tags.closing.chars)
      line.comment [] := by
    refine ⟨(List.append_nil _).symm, ?_⟩
    intro before after h
    have hnil := line.closes before after h
    rw [hnil, List.append_nil] at h
    rw [List.append_cancel_right h]
  have hb := Text.breakOn_eq_some_iff.mpr (closes.extend (line.trailing ++ ['\n']))
  let stop : Cursor := d.advance
    (tags.opening.chars ++ Sigil.comment.chars ++ line.comment ++ tags.closing.chars)
    (line.trailing ++ ['\n'])
  let t : Tag := ⟨.comment, line.comment, d.line, d.offset, stop.offset⟩
  have hread : d.readTag inner = .found (.tag t) stop :=
    (Cursor.readTag_eq_found_iff rfl).mpr
      ⟨line.comment, line.trailing ++ ['\n'], tags, hb, rfl, rfl, rfl⟩
  have absent : ¬stop.tags.opening.chars <:+: stop.rest := by
    apply Marker.not_infix_of_white
    intro ch hch
    rcases List.mem_append.mp hch with hch | hch
    · exact Text.isWhiteSpace_of_isBlank (line.trailing_blank ch hch)
    · rw [List.mem_singleton.mp hch]
      rfl
  have place : d = c.advance line.indent (c.tags.opening.chars ++ inner) := rfl
  obtain ⟨hstep, -⟩ := Cursor.scan_of_leftmost opens place
  have hstop : stop.scan = ⟨[.text (line.trailing ++ ['\n'])], none⟩ := by
    rw [Cursor.scan_of_absent absent, Cursor.map_item_gap, if_neg (by simp [stop, Cursor.advance])]
    rfl
  have hd : d.scan = ⟨[.tag t, .text (line.trailing ++ ['\n'])], none⟩ := by
    rw [Cursor.scan_of_found (hstep.trans hread), hstop]
  have hscan := Cursor.scan_eq_of_leftmost opens place
  rw [hd, Cursor.map_item_gap] at hscan
  exact ⟨t, rfl, hscan⟩

/-- The line has no tag but the comment, which is nothing to sections or delimiters. -/
theorem tags_eq (line : CommentLine tags) :
    ∃ t : Tag, t.sigil = .comment ∧ (scan line.chars tags).tags = [t] := by
  obtain ⟨t, ht, hscan⟩ := line.scan_eq
  refine ⟨t, ht, ?_⟩
  rw [hscan]
  by_cases hindent : line.indent = []
  · rw [if_pos hindent]
    rfl
  · rw [if_neg hindent]
    rfl

theorem wholeLines (line : CommentLine tags) : WholeLines tags line.chars tags := by
  obtain ⟨t, ht, htags⟩ := line.tags_eq
  obtain ⟨_, -, hscan⟩ := line.scan_eq
  have hchars : line.chars = line.indent ++ tags.opening.chars ++
      '!' :: (line.comment ++ tags.closing.chars ++ line.trailing) ++ ['\n'] := by simp [chars]
  have hafter : (Item.tag t).after tags = tags := by simp [Item.after, ht]
  refine ⟨?_, by rw [hscan], ?_⟩
  · rw [hchars]
    exact Text.endsLine_concat _
  · have hitems : (scan line.chars tags).items.filterMap Item.tag? = [t] := htags
    rw [Delimiters.atEnd, Item.foldl_after, hitems]
    exact hafter

theorem blank_of_ofText {cs : List Char} (h : ∀ c ∈ cs, Text.isBlank c) :
    ∀ p ∈ (Segment.ofText cs).map Piece.ofSegment, p.IsBlank := by
  intro p hp
  obtain ⟨s, hs, rfl⟩ := List.mem_map.mp hp
  obtain ⟨bs, rfl⟩ := Segment.eq_blank_of_mem_ofText h hs
  exact ⟨bs, rfl⟩

def pieces (line : CommentLine tags) : List Piece :=
  (Segment.ofText line.indent).map Piece.ofSegment ++
    .silent :: ((Segment.ofText line.trailing).map Piece.ofSegment ++ [.newline])

theorem strip_pieces (line : CommentLine tags) : Piece.strip line.pieces = [.silent] :=
  Piece.strip_silent_between (blank_of_ofText line.indent_blank)
    (blank_of_ofText line.trailing_blank)

theorem endsLine_pieces (line : CommentLine tags) (first : List Piece) :
    Piece.EndsLine (first ++ line.pieces) := by
  have hlast : (first ++ line.pieces).getLast? = some .newline := by
    rw [pieces, ← List.cons_append, ← List.append_assoc, ← List.append_assoc, List.getLast?_concat]
  intro piece hpiece
  rw [hlast] at hpiece
  exact (Option.some.inj hpiece).symm

/-- The line has its pieces wherever it stands, and no section is opened or closed by it. -/
theorem pieces_eq (line : CommentLine tags) (template : List Char) (sections : List OpenSection)
    (d : Shift) :
    Item.pieces template sections ((scan line.chars tags).items.map (·.shift d)) =
      .ok (line.pieces, sections) := by
  obtain ⟨t, ht, hscan⟩ := line.scan_eq
  have hsilent : (t.shift d).piece template sections = .ok (.silent, sections) := by
    have hsigil : (t.shift d).sigil = .comment := ht
    simp only [Tag.piece, hsigil]
  have htag : Item.pieces template sections [.tag (t.shift d), .text (line.trailing ++ ['\n'])] =
      .ok (.silent :: ((Segment.ofText line.trailing).map Piece.ofSegment ++ [.newline]),
        sections) := by
    simp only [Item.pieces, hsilent, Segment.ofText_concat_newline, List.map_append]
    simp [bind, Except.bind, pure, Except.pure, Piece.ofSegment]
  rw [hscan, pieces]
  by_cases hindent : line.indent = []
  · rw [if_pos hindent, hindent]
    exact htag
  · rw [if_neg hindent]
    exact Item.pieces_text_eq_ok_iff.mpr ⟨_, rfl, htag⟩

end CommentLine

section Insert

variable {tags tags' : Delimiters} {before after : List Char} {pieces : List Piece}

theorem WholeLines.pieces_insert_iff (h : WholeLines tags before tags')
    (line : CommentLine tags') {sections : List OpenSection} :
    Item.pieces (before ++ line.chars) [] (scan (before ++ line.chars) tags).items =
        .ok (pieces, sections) ↔
      ∃ first, pieces = first ++ line.pieces ∧
        Item.pieces before [] (scan before tags).items = .ok (first, sections) := by
  rw [h.pieces_append_iff]
  constructor
  · rintro ⟨first, mid, others, rfl, hbefore, hline⟩
    cases (line.pieces_eq _ _ _).symm.trans hline
    exact ⟨first, rfl, hbefore⟩
  · rintro ⟨first, rfl, hbefore⟩
    exact ⟨first, sections, line.pieces, rfl, hbefore, line.pieces_eq _ _ _⟩

/-- With the line inserted a template has the pieces of the line besides its own. -/
theorem WholeLines.ofTemplate_insert (h : WholeLines tags before tags') (line : CommentLine tags')
    (hpieces : Piece.ofTemplate (before ++ after) tags = .ok pieces) :
    ∃ first others others', pieces = first ++ others ∧ Piece.EndsLine first ∧
      Piece.ofTemplate (before ++ line.chars ++ after) tags =
        .ok (first ++ line.pieces ++ others') ∧
      others'.map Piece.withoutRaw = others.map Piece.withoutRaw := by
  obtain ⟨hfault, first, sections, others, rfl, hfirst, hothers⟩ :=
    h.ofTemplate_append_iff.mp hpieces
  obtain ⟨others', left, hothers', hraw, hleft⟩ := Item.exists_pieces_shift hothers rfl
    (before ++ line.chars ++ after) (.over (before ++ line.chars))
  obtain rfl := List.map_eq_nil_iff.mp hleft
  refine ⟨first, others, others', rfl, Piece.endsLine_of_pieces h.ends h.sound hfirst, ?_, hraw⟩
  have inserted := (h.pieces_insert_iff line).mpr ⟨first, rfl, hfirst⟩
  exact (h.append line.wholeLines).ofTemplate_append_iff.mpr
    ⟨hfault, _, sections, others', rfl, inserted, hothers'⟩

theorem WholeLines.ofTemplate_of_insert (h : WholeLines tags before tags')
    (line : CommentLine tags')
    (hpieces : Piece.ofTemplate (before ++ line.chars ++ after) tags = .ok pieces) :
    ∃ pieces', Piece.ofTemplate (before ++ after) tags = .ok pieces' := by
  obtain ⟨hfault, first, sections, others, -, hfirst, hothers⟩ :=
    (h.append line.wholeLines).ofTemplate_append_iff.mp hpieces
  obtain ⟨first, -, hfirst⟩ := (h.pieces_insert_iff line).mp hfirst
  obtain ⟨others', left, hothers', -, hleft⟩ := Item.exists_pieces_shift hothers rfl
    (before ++ after) (.over before)
  obtain rfl := List.map_eq_nil_iff.mp hleft
  exact ⟨_, h.ofTemplate_append_iff.mpr ⟨hfault, first, sections, others', rfl, hfirst, hothers'⟩⟩

/-- A silent tag leaves nothing in a program. -/
theorem Program.ofPieces_silent (first others : List Piece) :
    ofPieces (first ++ .silent :: others) = ofPieces (first ++ others) := by
  simp only [ofPieces, Assembly.ofPieces, List.foldl_append, List.foldl_cons, Assembly.step]

/-- A line that is left with a silent tag makes no difference to a program. -/
theorem Program.ofPieces_strip_insert {first inserted others others' : List Piece}
    (ends : Piece.EndsLine first) (ends' : Piece.EndsLine (first ++ inserted))
    (silent : Piece.strip inserted = [.silent])
    (hraw : others'.map Piece.withoutRaw = others.map Piece.withoutRaw) :
    (ofPieces (Piece.strip (first ++ inserted ++ others'))).ops.map Op.withoutRaw =
      (ofPieces (Piece.strip (first ++ others))).ops.map Op.withoutRaw := by
  have hstrip : (Piece.strip others').map Piece.withoutRaw =
      (Piece.strip others).map Piece.withoutRaw := by
    rw [← Piece.strip_withoutRaw, ← Piece.strip_withoutRaw, hraw]
  rw [Piece.strip_append ends', Piece.strip_append ends, Piece.strip_append ends, silent,
    List.append_assoc, List.singleton_append, ofPieces_silent, ← ofPieces_withoutRaw,
    ← ofPieces_withoutRaw, List.map_append, List.map_append, hstrip]

end Insert
end Mustache
