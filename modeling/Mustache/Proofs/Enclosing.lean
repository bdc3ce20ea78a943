import Mustache.Proofs.CommentLines

namespace Mustache

namespace Text

/-- Of two starts of a text one is the start of the other. -/
theorem exists_append_of_le {xs ys zs ws : List Char} (h : xs ++ ys = zs ++ ws)
    (hle : byteLength xs ≤ byteLength zs) : ∃ us, zs = xs ++ us ∧ ys = us ++ ws := by
  rcases List.append_eq_append_iff.mp h with ⟨us, hzs, hys⟩ | ⟨us, hxs, hws⟩
  · exact ⟨us, hzs, hys⟩
  · have hnil : us = [] := by
      by_contra hne
      have hpos := byteLength_pos hne
      rw [hxs, byteLength_append] at hle
      omega
    subst hnil
    exact ⟨[], by rw [hxs, List.append_nil, List.append_nil], hws.symm⟩

theorem slice_eq (xs zs : List Char) {cs ys : List Char} {start stop : Nat}
    (h : cs = xs ++ ys ++ zs)
    (hstart : start = byteLength xs) (hstop : stop = byteLength (xs ++ ys)) :
    slice start stop cs = ys := by
  rw [h, hstart, hstop, byteLength_append, slice_append]

variable {before after first body last : List Char}

/-- A part of a text is farther on when something is inserted before it. -/
theorem slice_insert_before (h : before ++ after = first ++ body ++ last)
    (hle : byteLength before ≤ byteLength first) (line : List Char) :
    slice (byteLength first + byteLength line) (byteLength (first ++ body) + byteLength line)
      (before ++ line ++ after) = body := by
  rw [List.append_assoc] at h
  obtain ⟨more, rfl, rfl⟩ := exists_append_of_le h hle
  refine slice_eq (before ++ line ++ more) last ?_ ?_ ?_
  · simp only [List.append_assoc]
  · simp only [byteLength_append]
    omega
  · simp only [byteLength_append]
    omega

/-- A part of a text goes on with what is inserted inside it. -/
theorem slice_insert_inside (h : before ++ after = first ++ body ++ last)
    (hle : byteLength first ≤ byteLength before)
    (hle' : byteLength before ≤ byteLength (first ++ body)) (line : List Char) :
    ∃ u v, body = u ++ v ∧ byteLength first + byteLength u = byteLength before ∧
      slice (byteLength first) (byteLength (first ++ body) + byteLength line)
        (before ++ line ++ after) = u ++ line ++ v := by
  obtain ⟨v, hv, rfl⟩ := exists_append_of_le h hle'
  have h' : first ++ body = before ++ v := hv
  obtain ⟨u, rfl, rfl⟩ := exists_append_of_le h' hle
  refine ⟨u, v, rfl, (byteLength_append first u).symm, ?_⟩
  refine slice_eq first last ?_ rfl ?_
  · simp only [List.append_assoc]
  · simp only [byteLength_append]
    omega

/-- A part of a text stays where it is when something is inserted behind it. -/
theorem slice_insert_behind (h : before ++ after = first ++ body ++ last)
    (hle : byteLength (first ++ body) ≤ byteLength before) (line : List Char) :
    slice (byteLength first) (byteLength (first ++ body)) (before ++ line ++ after) = body := by
  obtain ⟨more, rfl, rfl⟩ := exists_append_of_le h.symm hle
  refine slice_eq first (more ++ line ++ after) ?_ rfl rfl
  simp only [List.append_assoc]

end Text

/-- The tag, farther on if it starts at the given place or behind it. -/
def Tag.shiftFrom (offset : Nat) (d : Shift) (t : Tag) : Tag :=
  if offset ≤ t.span.start then t.shift d else t

theorem Tag.keeps_shiftFrom (offset : Nat) (d : Shift) : Keeps (shiftFrom offset d) := by
  intro t
  unfold shiftFrom
  split <;> exact ⟨rfl, rfl⟩

theorem Shift.over_append (xs ys : List Char) (t : Tag) :
    (t.shift (.over xs)).shift (.over ys) = t.shift (.over (xs ++ ys)) := by
  simp only [Tag.shift, Span.shift, Shift.over, Text.byteLength_append, List.count_append,
    Nat.add_assoc]

/-- Of a program the section at `i`, the source of its body and its two tags. -/
theorem Program.exists_section {template : List Char} {options : Options} {pieces : List Piece}
    (hpieces : Piece.ofTemplate template options.tags = .ok pieces) {i n : Nat} {name raw : String}
    {inverted : Bool}
    (hi : (ofPieces (options.kept pieces)).ops[i]? = some (.openSection name inverted n raw)) :
    ∃ s : Item.Section (scan template options.tags).items, s.opening.name = name ∧
      (s.before.filterMap Item.tag?).countP Tag.opens =
        ((ofPieces (options.kept pieces)).ops.take i).countP Op.isOpening ∧
      raw = String.ofList (Text.slice s.opening.span.stop s.closing.span.start template) := by
  obtain ⟨-, hitems⟩ := Piece.ofTemplate_eq_ok_iff.mp hpieces
  obtain ⟨xs, ys, zs, first, last, hsplit, closes, hops, rfl, -, hcount⟩ :=
    sectionFrom_ofPieces (Piece.closes_kept hpieces) hi
  obtain ⟨before, inside, rest, rfl, hbefore, hinside, -⟩ :=
    Piece.exists_split_of_kept rfl rfl hsplit
  have closes' : Piece.Closes [] inside := by
    rw [← Piece.closes_filter_iff id, hinside, Piece.closes_filter_iff id]
    exact closes
  obtain ⟨s, hname, -, hopens, hraw, -⟩ := Item.Section.exists_of_pieces hitems closes'
  refine ⟨s, hname, ?_, hraw⟩
  rw [hopens, hops, List.take_left, hcount, ← Piece.countP_isOpening_filter, hbefore,
    Piece.countP_isOpening_filter]

theorem Item.Section.opening_mem {items : List Item} (s : Item.Section items) :
    .tag s.opening ∈ items := by
  obtain ⟨before, opening, inside, closing, after, rfl, -, -, -, -⟩ := s
  simp

theorem Item.Section.closing_mem {items : List Item} (s : Item.Section items) :
    .tag s.closing ∈ items := by
  obtain ⟨before, opening, inside, closing, after, rfl, -, -, -, -⟩ := s
  simp

/-- The section is open at the given place: its first tag ends there or before, and the last one
starts there or behind. -/
def Item.Section.Encloses {items : List Item} (s : Item.Section items) (offset : Nat) : Prop :=
  s.opening.span.stop ≤ offset ∧ offset ≤ s.closing.span.start

theorem Scan.mem_tags {s : Scan} {t : Tag} : t ∈ s.tags ↔ .tag t ∈ s.items := by
  rw [tags, List.mem_filterMap]
  constructor
  · rintro ⟨item, hmem, hitem⟩
    cases item with
    | text cs => cases hitem
    | tag u =>
      cases hitem
      exact hmem
  · exact fun h => ⟨.tag t, h, rfl⟩

theorem Scan.stop_le_of_mem {template : List Char} {tags : Delimiters} {t : Tag}
    (h : t ∈ (scan template tags).tags) : t.span.stop ≤ Text.byteLength template := by
  obtain ⟨before, inside, after, htemplate, hspan⟩ := Item.within_of_scan (Scan.mem_tags.mp h)
  rw [hspan, htemplate, Text.byteLength_append (before ++ inside)]
  exact Nat.le_add_right _ _

section Insert

variable {tags tags' : Delimiters} {before : List Char}

/-- No tag stands on both sides of the end of whole lines. -/
theorem WholeLines.stop_le_of_start_lt (h : WholeLines tags before tags') {after : List Char}
    {t : Tag} (ht : t ∈ (scan (before ++ after) tags).tags)
    (hlt : t.span.start < Text.byteLength before) : t.span.stop ≤ Text.byteLength before := by
  obtain ⟨-, -, htags⟩ := h.scan_append after
  rw [htags] at ht
  rcases List.mem_append.mp ht with ht | ht
  · exact Scan.stop_le_of_mem ht
  · obtain ⟨u, -, rfl⟩ := List.mem_map.mp ht
    simp only [Tag.shift, Span.shift, Shift.over] at hlt
    omega

/-- With a comment inserted, the tags that open and close sections are those of the template, the
later ones farther on. -/
theorem WholeLines.nesting_insert (h : WholeLines tags before tags') (line : CommentLine tags')
    (after : List Char) :
    Tag.nesting (scan (before ++ line.chars ++ after) tags).tags =
      (Tag.nesting (scan (before ++ after) tags).tags).map
        (Tag.shiftFrom (Text.byteLength before) (.over line.chars)) := by
  obtain ⟨-, -, htags⟩ := h.scan_append after
  obtain ⟨-, -, htags'⟩ := (h.append line.wholeLines).scan_append after
  obtain ⟨-, -, hline⟩ := h.scan_append line.chars
  obtain ⟨t, ht, hcomment⟩ := line.tags_eq
  have hneutral : Tag.nesting [t.shift (.over before)] = [] := by
    have hsigil : (t.shift (.over before)).sigil = .comment := ht
    simp [Tag.nesting, Tag.opens, Tag.closes, hsigil]
  have hfirst : (scan before tags).tags.map
      (Tag.shiftFrom (Text.byteLength before) (.over line.chars)) = (scan before tags).tags := by
    conv_rhs => rw [← List.map_id (scan before tags).tags]
    refine List.map_congr_left fun u hu => ?_
    have hlt := Item.start_lt_stop_of_scan (Scan.mem_tags.mp hu)
    have hle := Scan.stop_le_of_mem hu
    have hnot : ¬Text.byteLength before ≤ u.span.start := by omega
    rw [Tag.shiftFrom, if_neg hnot, id]
  have hlater : ((scan after tags').tags.map (·.shift (.over before))).map
      (Tag.shiftFrom (Text.byteLength before) (.over line.chars)) =
        (scan after tags').tags.map (·.shift (.over (before ++ line.chars))) := by
    rw [List.map_map]
    refine List.map_congr_left fun u _ => ?_
    have hle : Text.byteLength before ≤ (u.shift (.over before)).span.start := Nat.le_add_left _ _
    rw [Function.comp_apply, Tag.shiftFrom, if_pos hle, Shift.over_append]
  rw [htags', hline, hcomment, htags, Tag.nesting_append, Tag.nesting_append,
    ← Tag.Keeps.nesting_map (Tag.keeps_shiftFrom _ _), List.map_append, hfirst, hlater,
    Tag.nesting_append, List.map_singleton, hneutral, List.append_nil]

/-- The source of a section goes on with the inserted line exactly if the line is inserted in it. -/
theorem WholeLines.raw_insert (h : WholeLines tags before tags') (line : CommentLine tags')
    {after : List Char} (sound : (scan (before ++ after) tags).fault = none)
    (s : Item.Section (scan (before ++ after) tags).items)
    (s' : Item.Section (scan (before ++ line.chars ++ after) tags).items)
    (same : (s'.before.filterMap Item.tag?).countP Tag.opens =
      (s.before.filterMap Item.tag?).countP Tag.opens) :
    let raw := Text.slice s.opening.span.stop s.closing.span.start (before ++ after)
    let raw' := Text.slice s'.opening.span.stop s'.closing.span.start
      (before ++ line.chars ++ after)
    (s.Encloses (Text.byteLength before) → ∃ u v, raw = u ++ v ∧ raw' = u ++ line.chars ++ v ∧
      s.opening.span.stop + Text.byteLength u = Text.byteLength before) ∧
    (¬s.Encloses (Text.byteLength before) → raw' = raw) := by
  intro raw raw'
  have keeps := Tag.keeps_shiftFrom (Text.byteLength before) (.over line.chars)
  have moved := s.pairs.map keeps (h.nesting_insert line after)
  rw [← same] at moved
  obtain ⟨hopening, hclosing⟩ := s'.pairs.unique moved
  obtain ⟨first, body, last, htemplate, hstart, hstop, -⟩ := s.scan_raw sound
  have hraw : raw = body := Text.slice_eq first last htemplate hstart hstop
  have hlto := Item.start_lt_stop_of_scan s.opening_mem
  have hltc := Item.start_lt_stop_of_scan s.closing_mem
  have hlength := Text.byteLength_append first body
  rw [hraw]
  by_cases ho : Text.byteLength before ≤ s.opening.span.start
  · -- Both tags are behind the line.
    have hc : Text.byteLength before ≤ s.closing.span.start := by omega
    have hle : Text.byteLength before ≤ Text.byteLength first := by omega
    refine ⟨fun hin => absurd hin.1 (by omega), fun _ => ?_⟩
    rw [← Text.slice_insert_before htemplate hle line.chars, ← hstart, ← hstop]
    rw [Tag.shiftFrom, if_pos ho] at hopening
    rw [Tag.shiftFrom, if_pos hc] at hclosing
    simp only [raw', hopening, hclosing]
    rfl
  have hlt := Nat.lt_of_not_le ho
  have hle := h.stop_le_of_start_lt (Scan.mem_tags.mpr s.opening_mem) hlt
  rw [Tag.shiftFrom, if_neg ho] at hopening
  by_cases hc : Text.byteLength before ≤ s.closing.span.start
  · -- The section is open where the line is inserted.
    rw [hstart] at hle
    have hle' : Text.byteLength before ≤ Text.byteLength (first ++ body) := by rwa [← hstop]
    obtain ⟨u, v, hbody, hlength, hslice⟩ := Text.slice_insert_inside htemplate hle hle' line.chars
    refine ⟨fun _ => ⟨u, v, hbody, ?_, ?_⟩, fun hout => absurd ⟨?_, hc⟩ hout⟩
    · rw [← hslice, ← hstart, ← hstop]
      rw [Tag.shiftFrom, if_pos hc] at hclosing
      simp only [raw', hopening, hclosing]
      rfl
    · rwa [hstart]
    · rwa [hstart]
  · -- Both tags are before the line.
    have hltc' := Nat.lt_of_not_le hc
    have hle' : Text.byteLength (first ++ body) ≤ Text.byteLength before := by omega
    refine ⟨fun hin => absurd hin.2 hc, fun _ => ?_⟩
    rw [← Text.slice_insert_behind htemplate hle' line.chars, ← hstart, ← hstop]
    rw [Tag.shiftFrom, if_neg hc] at hclosing
    simp only [raw', hopening, hclosing]

end Insert
end Mustache
