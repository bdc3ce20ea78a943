import Mustache.Proofs.Bodies
import Mustache.Proofs.Cutting
import Mustache.Render.Execute

namespace Mustache

namespace Piece

theorem Closes.of_segments {names : List String} {segments : List Segment} {rest : List Piece}
    (h : Closes names (segments.map ofSegment ++ rest)) : Closes names rest := by
  induction segments with
  | nil => exact h
  | cons segment segments ih => exact ih ((closes_cons_iff (isBound_ofSegment segment)).mp h)

/-- An end of a section is found behind the pieces of a text. -/
theorem exists_behind_segments {segments : List Segment} {found before rest : List Piece}
    {piece : Piece} (h : segments.map ofSegment ++ found = before ++ piece :: rest)
    (bound : piece.isBound) :
    ∃ more, before = segments.map ofSegment ++ more ∧ found = more ++ piece :: rest := by
  induction segments generalizing before with
  | nil => exact ⟨before, rfl, h⟩
  | cons segment segments ih =>
    cases before with
    | nil =>
      obtain ⟨rfl, -⟩ := List.cons.inj h
      rw [isBound_ofSegment] at bound
      cases bound
    | cons first before =>
      obtain ⟨rfl, hrest⟩ := List.cons.inj h
      obtain ⟨more, rfl, hfound⟩ := ih hrest
      exact ⟨more, rfl, hfound⟩

/-- The two ends of a section are found where other pieces are left out or put in. -/
theorem exists_split_of_filter {pieces before inside rest : List Piece} {first last : Piece}
    (hfirst : first.isBound) (hlast : last.isBound)
    (h : pieces.filter isBound = (before ++ first :: (inside ++ last :: rest)).filter isBound) :
    ∃ before' inside' rest', pieces = before' ++ first :: (inside' ++ last :: rest') ∧
      before'.filter isBound = before.filter isBound ∧
      inside'.filter isBound = inside.filter isBound := by
  rw [List.filter_append, List.filter_cons_of_pos hfirst, List.filter_append,
    List.filter_cons_of_pos hlast] at h
  obtain ⟨xs, ys, rfl, hxs, hys⟩ := List.filter_eq_append_iff.mp h
  obtain ⟨as, bs, rfl, has, -, hbs⟩ := List.filter_eq_cons_iff.mp hys
  obtain ⟨zs, ws, rfl, hzs, hws⟩ := List.filter_eq_append_iff.mp hbs
  obtain ⟨cs, ds, rfl, hcs, -, hds⟩ := List.filter_eq_cons_iff.mp hws
  have none {qs : List Piece} (hq : ∀ q ∈ qs, ¬q.isBound = true) : qs.filter isBound = [] :=
    List.filter_eq_nil_iff.mpr hq
  refine ⟨xs ++ as, zs ++ cs, ds, ?_, ?_, ?_⟩
  · simp only [List.append_assoc]
  · rw [List.filter_append, none has, List.append_nil, hxs]
  · rw [List.filter_append, none hcs, List.append_nil, hzs]

theorem filter_isBound_strip (pieces : List Piece) :
    (strip pieces).filter isBound = pieces.filter isBound := by
  have only (ps : List Piece) : ps.filter isBound = (ps.filter (!·.isSpace)).filter isBound := by
    rw [List.filter_filter]
    refine List.filter_congr fun p _ => ?_
    cases p <;> rfl
  rw [only, filter_strip, ← only]

/-- The two ends of a section among the pieces that count are there before white space is elided. -/
theorem exists_split_of_kept {options : Options} {pieces before inside rest : List Piece}
    {first last : Piece} (hfirst : first.isBound) (hlast : last.isBound)
    (h : options.kept pieces = before ++ first :: (inside ++ last :: rest)) :
    ∃ before' inside' rest', pieces = before' ++ first :: (inside' ++ last :: rest') ∧
      before'.filter isBound = before.filter isBound ∧
      inside'.filter isBound = inside.filter isBound ∧
      (options.preserveWhitespace → inside' = inside) := by
  unfold Options.kept at h
  split at h
  next hkeep => exact ⟨before, inside, rest, h, rfl, rfl, fun _ => rfl⟩
  next helide =>
    have hfilter := filter_isBound_strip pieces
    rw [h] at hfilter
    obtain ⟨before', inside', rest', hsplit, hbefore, hinside⟩ :=
      exists_split_of_filter hfirst hlast hfilter.symm
    exact ⟨before', inside', rest', hsplit, hbefore, hinside, fun hkeep => absurd hkeep helide⟩

theorem countP_isOpening_filter (pieces : List Piece) :
    (pieces.filter isBound).countP isOpening = pieces.countP isOpening := by
  rw [List.countP_filter]
  refine List.countP_congr fun p _ => ?_
  cases p <;> simp [isOpening, isBound]

end Piece

variable {template : List Char} {sections left : List OpenSection}

/-- What a tag that has a piece does: nothing to the open sections, or it opens one, or it closes
the innermost; and it does so whatever sections are open around. -/
theorem Tag.piece_cases {t : Tag} {piece : Piece}
    (h : t.piece template sections = .ok (piece, left)) :
    (t.opens = false ∧ piece.isBound = false ∧ left = sections ∧
      ∀ others, t.piece template others = .ok (piece, others)) ∨
    (t.opens ∧ piece = .openTag t.name (t.sigil = .invertedOpen) ∧ left = t.opened :: sections ∧
      ∀ others, t.piece template others = .ok (piece, t.opened :: others)) ∨
    (t.closes ∧ ∃ o, sections = o :: left ∧ t.name = o.name ∧
      piece = .closeTag t.name (String.ofList (Text.slice o.span.stop t.span.start template)) ∧
      ∀ others, t.piece template (o :: others) = .ok (piece, others)) := by
  unfold Tag.piece at h ⊢
  cases hsigil : t.sigil with
  | sectionOpen | invertedOpen =>
    simp only [hsigil] at h
    split at h
    · cases h
    next hname =>
      cases h
      refine .inr (.inl ⟨by simp [opens, hsigil], rfl, rfl, fun others => ?_⟩)
      simp only [if_neg hname]
      rfl
  | sectionClose =>
    simp only [hsigil] at h
    split at h
    · cases h
    next o outer =>
      split at h
      next hname =>
        cases h
        refine .inr (.inr ⟨by simp [closes, hsigil], o, rfl, hname.symm, rfl, fun others => ?_⟩)
        simp only [if_pos hname]
      · cases h
  | _ =>
    simp only [hsigil] at h
    cases h
    exact .inl ⟨by simp [opens, hsigil], rfl, rfl, fun _ => rfl⟩

/-- One step: a tag that closes no section but the innermost has the same piece without those
around. -/
theorem Tag.piece_of_closes {outer : List OpenSection} {t : Tag} {piece : Piece}
    {rest : List Piece} (h : t.piece template (sections ++ outer) = .ok (piece, left))
    (closes : Piece.Closes (sections.map (·.name)) (piece :: rest)) :
    ∃ sections', left = sections' ++ outer ∧
      t.piece template sections = .ok (piece, sections') ∧
      Piece.Closes (sections'.map (·.name)) rest := by
  generalize hn : sections.map (·.name) = names at closes
  rcases piece_cases h with
    ⟨-, bound, rfl, hall⟩ | ⟨-, rfl, rfl, hall⟩ | ⟨-, o, hsections, -, rfl, hall⟩
  · have closes' := (Piece.closes_cons_iff bound).mp closes
    rw [← hn] at closes'
    exact ⟨sections, rfl, hall _, closes'⟩
  · cases closes with
    | other bound => cases bound
    | openTag _ _ inside =>
      rw [← hn] at inside
      exact ⟨t.opened :: sections, rfl, hall _, inside⟩
  · cases closes with
    | other bound => cases bound
    | closeTag _ _ outside =>
      obtain ⟨innermost, sections, rfl, -, rfl⟩ := List.map_eq_cons_iff.mp hn
      obtain ⟨rfl, rfl⟩ := List.cons.inj hsections
      exact ⟨sections, rfl, hall _, outside⟩

namespace Item

variable {items : List Item}

theorem pieces_text_eq_ok_iff {cs : List Char} {pieces : List Piece} :
    Item.pieces template sections (.text cs :: items) = .ok (pieces, left) ↔
      ∃ more, pieces = (Segment.ofText cs).map Piece.ofSegment ++ more ∧
        Item.pieces template sections items = .ok (more, left) := by
  simp only [Item.pieces, bind, Except.bind, pure, Except.pure]
  cases Item.pieces template sections items with
  | error site => simp
  | ok found => simp [Prod.ext_iff, eq_comm]

theorem pieces_tag_eq_ok_iff {t : Tag} {pieces : List Piece} :
    Item.pieces template sections (.tag t :: items) = .ok (pieces, left) ↔
      ∃ piece next more, pieces = piece :: more ∧ t.piece template sections = .ok (piece, next) ∧
        Item.pieces template next items = .ok (more, left) := by
  constructor
  · intro h
    simp only [Item.pieces, bind, Except.bind] at h
    split at h
    · cases h
    next first ht =>
      split at h
      · cases h
      next found hfound =>
        cases h
        exact ⟨first.1, first.2, found.1, rfl, ht, hfound⟩
  · rintro ⟨piece, next, more, rfl, ht, hitems⟩
    simp only [Item.pieces, ht, bind, Except.bind, hitems]
    rfl

/-- An end of a section among the pieces comes from a tag. -/
theorem exists_tag_of_pieces {before rest : List Piece} {piece : Piece}
    (h : Item.pieces template sections items = .ok (before ++ piece :: rest, left))
    (bound : piece.isBound) :
    ∃ xs t ys mid next, items = xs ++ .tag t :: ys ∧
      Item.pieces template sections xs = .ok (before, mid) ∧
      t.piece template mid = .ok (piece, next) ∧
      Item.pieces template next ys = .ok (rest, left) := by
  induction items generalizing sections before with
  | nil =>
    have hnil := congrArg Prod.fst (Except.ok.inj h)
    simp at hnil
  | cons item items ih =>
    cases item with
    | text cs =>
      obtain ⟨found, hfound, hitems⟩ := pieces_text_eq_ok_iff.mp h
      obtain ⟨more, rfl, rfl⟩ := Piece.exists_behind_segments hfound.symm bound
      obtain ⟨xs, t, ys, mid, next, rfl, hxs, ht, hys⟩ := ih hitems
      exact ⟨.text cs :: xs, t, ys, mid, next, rfl, pieces_text_eq_ok_iff.mpr ⟨more, rfl, hxs⟩, ht,
        hys⟩
    | tag t =>
      obtain ⟨first, next, found, hfound, ht, hitems⟩ := pieces_tag_eq_ok_iff.mp h
      cases before with
      | nil =>
        obtain ⟨rfl, rfl⟩ := List.cons.inj hfound
        exact ⟨[], t, items, sections, next, rfl, rfl, ht, hitems⟩
      | cons _ before =>
        obtain ⟨rfl, rfl⟩ := List.cons.inj hfound
        obtain ⟨xs, u, ys, mid, next', rfl, hxs, hu, hys⟩ := ih hitems
        exact ⟨.tag t :: xs, u, ys, mid, next', rfl,
          pieces_tag_eq_ok_iff.mpr ⟨_, next, before, rfl, ht, hxs⟩, hu, hys⟩

/-- Items whose pieces close the innermost of the open sections leave those around as they were, and
have the same pieces without them. -/
theorem pieces_of_closes (sections : List OpenSection) {outer : List OpenSection}
    {pieces : List Piece}
    (h : Item.pieces template (sections ++ outer) items = .ok (pieces, left))
    (closes : Piece.Closes (sections.map (·.name)) pieces) :
    left = outer ∧ Item.pieces template sections items = .ok (pieces, []) := by
  induction items generalizing sections pieces with
  | nil =>
    cases h
    generalize hn : sections.map (·.name) = names at closes
    cases closes
    obtain rfl := List.map_eq_nil_iff.mp hn
    exact ⟨rfl, rfl⟩
  | cons item items ih =>
    cases item with
    | text cs =>
      obtain ⟨more, rfl, hitems⟩ := pieces_text_eq_ok_iff.mp h
      obtain ⟨hleft, halone⟩ := ih sections hitems closes.of_segments
      exact ⟨hleft, pieces_text_eq_ok_iff.mpr ⟨more, rfl, halone⟩⟩
    | tag t =>
      obtain ⟨piece, next, more, rfl, ht, hitems⟩ := pieces_tag_eq_ok_iff.mp h
      obtain ⟨sections', rfl, ht', closes'⟩ := Tag.piece_of_closes ht closes
      obtain ⟨hleft, halone⟩ := ih sections' hitems closes'
      exact ⟨hleft, pieces_tag_eq_ok_iff.mpr ⟨piece, sections', more, rfl, ht', halone⟩⟩

theorem countP_opens_of_pieces {pieces : List Piece}
    (h : Item.pieces template sections items = .ok (pieces, left)) :
    (items.filterMap Item.tag?).countP Tag.opens = pieces.countP Piece.isOpening := by
  induction items generalizing sections pieces with
  | nil =>
    cases h
    rfl
  | cons item items ih =>
    cases item with
    | text cs =>
      obtain ⟨more, rfl, hitems⟩ := pieces_text_eq_ok_iff.mp h
      have hnone : ((Segment.ofText cs).map Piece.ofSegment).countP Piece.isOpening = 0 := by
        rw [List.countP_map, List.countP_eq_zero]
        intro segment _
        cases segment <;> simp [Piece.ofSegment, Piece.isOpening]
      rw [List.filterMap_cons_none rfl, List.countP_append, hnone, Nat.zero_add, ih hitems]
    | tag t =>
      obtain ⟨piece, next, more, rfl, ht, hitems⟩ := pieces_tag_eq_ok_iff.mp h
      have hsame : t.opens = piece.isOpening := by
        rcases Tag.piece_cases ht with
          ⟨ho, bound, -⟩ | ⟨ho, rfl, -⟩ | ⟨hc, o, -, -, rfl, -⟩
        · rw [ho]
          cases piece <;> first | rfl | cases bound
        · exact ho
        · exact Tag.opens_eq_false_of_closes hc
      rw [List.filterMap_cons_some (show (Item.tag t).tag? = some t from rfl), List.countP_cons,
        List.countP_cons, ih hitems, hsame]

theorem balanced_of_pieces {pieces : List Piece}
    (h : Item.pieces template [] items = .ok (pieces, [])) :
    Tag.Balanced (Tag.nesting (items.filterMap Item.tag?)) := by
  have hopen := Item.map_pieces template [] items
  rw [h] at hopen
  exact (Tag.balanced_iff_openAfter (Tag.named_of_openAfter hopen.symm)).mpr hopen.symm

end Item

/-- The two tags of a section among some items, with whole sections in between. -/
structure Item.Section (items : List Item) where
  before : List Item
  opening : Tag
  inside : List Item
  closing : Tag
  after : List Item
  split : items = before ++ .tag opening :: (inside ++ .tag closing :: after)
  opens : opening.opens
  closes : closing.closes
  same_name : closing.name = opening.name
  balanced : Tag.Balanced (Tag.nesting (inside.filterMap Item.tag?))

namespace Item.Section

variable {items : List Item}

/-- The delimiters in effect right after the opening tag. -/
def tags (s : Item.Section items) (tags : Delimiters) : Delimiters :=
  (s.before ++ [Item.tag s.opening]).foldl Item.after tags

/-- The two ends of a section among the pieces come from the two tags of one among the items. -/
theorem exists_of_pieces {before inside rest : List Piece} {name raw : String} {inverted : Bool}
    (h : Item.pieces template [] items =
      .ok (before ++ .openTag name inverted :: (inside ++ .closeTag name raw :: rest), left))
    (closes : Piece.Closes [] inside) :
    ∃ s : Item.Section items, s.opening.name = name ∧
      (s.opening.sigil = .invertedOpen ↔ inverted) ∧
      (s.before.filterMap Item.tag?).countP Tag.opens = before.countP Piece.isOpening ∧
      raw = String.ofList (Text.slice s.opening.span.stop s.closing.span.start template) ∧
      Item.pieces template [] s.inside = .ok (inside, []) := by
  obtain ⟨xs, o, ys, mid, next, rfl, hxs, ho, hys⟩ := exists_tag_of_pieces h rfl
  obtain ⟨zs, c, ws, mid', next', rfl, hzs, hc, -⟩ := exists_tag_of_pieces hys rfl
  rcases Tag.piece_cases ho with ⟨-, bound, -⟩ | ⟨hopens, hpiece, rfl, -⟩ | ⟨-, _, -, -, hpiece, -⟩
  · cases bound
  · obtain ⟨rfl, hinside⟩ := pieces_of_closes [] hzs closes
    rcases Tag.piece_cases hc with
      ⟨-, bound, -⟩ | ⟨-, hpiece', -⟩ | ⟨hcloses, _, hsections, hname, hpiece', -⟩
    · cases bound
    · cases hpiece'
    · obtain ⟨rfl, -⟩ := List.cons.inj hsections
      cases hpiece'
      have hopened : o.opened.name = o.name := rfl
      have hsame : c.name = o.name := hname
      obtain ⟨hnamed, hinverted⟩ := Piece.openTag.inj hpiece
      refine ⟨⟨xs, o, zs, c, ws, rfl, hopens, hcloses, hsame, balanced_of_pieces hinside⟩, ?_, ?_,
        countP_opens_of_pieces hxs, rfl, hinside⟩
      · exact hsame.symm
      · simp [hinverted]
  · cases hpiece

/-- The text between the two tags, scanned with the delimiters behind the first of them, has the
items that are found there in the whole template. -/
theorem scan_raw {tags : Delimiters} (sound : (scan template tags).fault = none)
    (s : Item.Section (scan template tags).items) :
    ∃ before raw after, template = before ++ raw ++ after ∧
      s.opening.span.stop = Text.byteLength before ∧
      s.closing.span.start = Text.byteLength (before ++ raw) ∧
      (scan raw (s.tags tags)).fault = none ∧
      s.inside = (scan raw (s.tags tags)).items.map (·.shift (.over before)) := by
  obtain ⟨xs, spelled, start, hstart, hplace, hopening, -, hbehind⟩ :=
    Cursor.exists_cut (.start template tags) sound s.split
  have hitems : start.scan.items = s.inside ++ .tag s.closing :: s.after := by rw [hbehind]
  have hsound : start.scan.fault = none := by rw [hbehind]
  obtain ⟨raw, spelled', stop, hstop, -, hclosing, hinside, -⟩ := start.exists_cut hsound hitems
  have htemplate : template = xs ++ spelled ++ start.rest := hstart
  have hoffset : start.offset = Text.byteLength (xs ++ spelled) := by
    rw [hplace]
    exact Nat.zero_add _
  have hshift : start.withRest raw =
      (Cursor.start raw (s.tags tags)).shift (.over (xs ++ spelled)) := by
    rw [hplace]
    simp only [Cursor.withRest, Cursor.advance, Cursor.start, Cursor.shift, Shift.over,
      Item.Section.tags, Nat.zero_add, Nat.add_comm 1]
  rw [hshift, Cursor.shift_scan] at hinside
  obtain ⟨hmap, hfault⟩ := Scan.mk.inj hinside
  refine ⟨xs ++ spelled, raw, spelled' ++ stop.rest, ?_, ?_, ?_, ?_, hmap.symm⟩
  · rw [htemplate, hstop]
    simp only [List.append_assoc]
  · rw [hopening, hoffset]
  · rw [hclosing, Text.byteLength_append _ raw, ← hoffset]
  · exact Option.map_eq_none_iff.mp hfault

/-- The text between the two tags of a section has, alone, the pieces that it has in the section. -/
theorem ofTemplate_raw {tags : Delimiters} {inside : List Piece}
    (sound : (scan template tags).fault = none) (s : Item.Section (scan template tags).items)
    (hpieces : Item.pieces template [] s.inside = .ok (inside, [])) :
    ∃ before raw after, template = before ++ raw ++ after ∧
      s.opening.span.stop = Text.byteLength before ∧
      s.closing.span.start = Text.byteLength (before ++ raw) ∧
      Piece.ofTemplate raw (s.tags tags) = .ok inside := by
  obtain ⟨before, raw, after, rfl, hstart, hstop, hfault, hinside⟩ := s.scan_raw sound
  refine ⟨before, raw, after, rfl, hstart, hstop, Piece.ofTemplate_eq_ok_iff.mpr ⟨hfault, ?_⟩⟩
  have hshift := Item.pieces_shift before (raw ++ after) [] (scan raw (s.tags tags)).items
  have hextend := Item.pieces_scan_extend raw (s.tags tags) after
  rw [← hinside, hextend, ← List.append_assoc, List.map_nil, hpieces] at hshift
  cases halone : Item.pieces raw [] (scan raw (s.tags tags)).items with
  | error site =>
    rw [halone] at hshift
    cases hshift
  | ok found =>
    rw [halone] at hshift
    obtain ⟨found, left⟩ := found
    obtain ⟨rfl, hleft⟩ := Prod.mk.inj (Except.ok.inj hshift)
    rw [List.map_eq_nil_iff.mp hleft.symm]

end Item.Section

theorem Op.body_drop (first : List Op) (op : Op) (inside rest : List Op) :
    body inside.length ((first ++ op :: (inside ++ rest)).drop (first.length + 1)) = inside := by
  have hdrop : (first ++ op :: (inside ++ rest)).drop (first.length + 1) = inside ++ rest := by
    rw [List.drop_append, List.drop_of_length_le (by omega), Nat.add_sub_cancel_left]
    rfl
  rw [hdrop, body, body?, List.length_append, if_pos (by omega), List.take_left]
  rfl

/-- A section of a program has the source of its body: what stands in the template between the two
tags that it comes from. With white space preserved, that source is compiled to the body itself, by
the delimiters in effect behind the opening tag. -/
theorem raw_text_is_body (text : String) (options : Options) {program : Program}
    (compiles : parse text options = .ok program) {i n : Nat} {name raw : String} {inverted : Bool}
    (hi : program.ops[i]? = some (.openSection name inverted n raw)) :
    ∃ s : Item.Section (scan text.toList options.tags).items,
      s.opening.name = name ∧ (s.opening.sigil = .invertedOpen ↔ inverted) ∧
      (s.before.filterMap Item.tag?).countP Tag.opens =
        (program.ops.take i).countP Op.isOpening ∧
      (∃ before after, text.toList = before ++ raw.toList ++ after ∧
        s.opening.span.stop = Text.byteLength before ∧
        s.closing.span.start = Text.byteLength (before ++ raw.toList)) ∧
      (options.preserveWhitespace → ∀ options' : Options, options'.preserveWhitespace →
        options'.tags = s.tags options.tags →
          parse raw options' = .ok ⟨Op.body n (program.ops.drop (i + 1))⟩) := by
  obtain ⟨pieces, hpieces, rfl⟩ := exists_pieces_of_parse compiles
  obtain ⟨sound, hitems⟩ := Piece.ofTemplate_eq_ok_iff.mp hpieces
  obtain ⟨xs, ys, zs, first, last, hsplit, closes, hops, rfl, hn, hcount⟩ :=
    Program.sectionFrom_ofPieces (Piece.closes_kept hpieces) hi
  obtain ⟨before, inside, rest, rfl, hbefore, hinside, hsame⟩ :=
    Piece.exists_split_of_kept rfl rfl hsplit
  have closes' : Piece.Closes [] inside := by
    rw [← Piece.closes_filter_iff id, hinside, Piece.closes_filter_iff id]
    exact closes
  obtain ⟨s, hname, hinverted, hopens, hraw, hbody⟩ :=
    Item.Section.exists_of_pieces hitems closes'
  obtain ⟨left, source, right, htext, hstart, hstop, halone⟩ := s.ofTemplate_raw sound hbody
  have hsource : raw = String.ofList source := by
    rw [hraw, hstart, hstop, htext, Text.byteLength_append, Text.slice_append]
  refine ⟨s, hname, hinverted, ?_, ?_, ?_⟩
  · rw [hopens, hops, List.take_left, hcount, ← Piece.countP_isOpening_filter, hbefore,
      Piece.countP_isOpening_filter]
  · rw [hsource, String.toList_ofList]
    exact ⟨left, right, htext, hstart, hstop⟩
  · intro hkeep options' hkeep' htags
    have hkept : options'.kept inside = ys := by rw [Options.kept, if_pos hkeep', hsame hkeep]
    have hinner : Piece.ofTemplate raw.toList options'.tags = .ok inside := by
      rw [hsource, String.toList_ofList, htags, halone]
    have hops' := Op.body_drop first (.openSection name inverted n raw) (Program.ofPieces ys).ops
      (.closeSection name :: last)
    rw [hn] at hops'
    rw [parse_of_ok hinner, hkept, hops, hops']

/-- A section behind a switch of delimiters, with another switch and another section in it. -/
theorem raw_text_between_switches :
    let text := "é{{=| |=}}|#a| x|={{ }}=|{{#b}} {{y}}{{/b}}\n{{/a}}"
    let raw := " x|={{ }}=|{{#b}} {{y}}{{/b}}\n"
    let body : List Op := [.literal " x", .openSection "b" false 2 " {{y}}", .literal " ",
      .escaped "y", .closeSection "b", .literal "\n"]
    parse text { preserveWhitespace := true } =
        .ok ⟨.literal "é" :: .openSection "a" false 6 raw :: (body ++ [.closeSection "a"])⟩ ∧
      ∃ s : Item.Section (scan text.toList .standard).items, s.opening.name = "a" ∧
        ∀ options : Options, options.preserveWhitespace → options.tags = s.tags .standard →
          parse raw options = .ok ⟨body⟩ := by
  intro text raw body
  have compiles : parse text { preserveWhitespace := true } =
      .ok ⟨.literal "é" :: .openSection "a" false 6 raw :: (body ++ [.closeSection "a"])⟩ := by
    rw [parse_eq_ok_iff]
    decide +kernel
  obtain ⟨s, hname, -, -, -, hbody⟩ :=
    raw_text_is_body text { preserveWhitespace := true } compiles (i := 1) rfl
  exact ⟨compiles, s, hname, hbody rfl⟩

end Mustache
