import Mustache.Proofs.Seams
import Mustache.Program.Parse

namespace Mustache

namespace Text

theorem takeBytes_append_of_le {n : Nat} {xs : List Char} (h : n ≤ byteLength xs)
    (ys : List Char) : takeBytes n (xs ++ ys) = takeBytes n xs := by
  induction xs generalizing n with
  | nil =>
    obtain rfl := Nat.le_zero.mp h
    rw [takeBytes_zero, takeBytes_zero]
  | cons c xs ih =>
    cases n with
    | zero => rw [takeBytes_zero, takeBytes_zero]
    | succ n =>
      rw [byteLength] at h
      have hrest := ih (n := n + 1 - c.utf8Size) (by omega)
      rw [List.cons_append, takeBytes, takeBytes, hrest]

/-- A part of a text stays what it is when the text goes on. -/
theorem slice_extend {xs ys : List Char} {stop : Nat} (h : stop ≤ byteLength (xs ++ ys))
    (more : List Char) :
    slice (byteLength xs) stop (xs ++ ys ++ more) = slice (byteLength xs) stop (xs ++ ys) := by
  have hle : stop - byteLength xs ≤ byteLength ys := by
    rw [byteLength_append] at h
    omega
  rw [slice, slice, List.append_assoc, dropBytes_byteLength, dropBytes_byteLength,
    takeBytes_append_of_le hle]

end Text

/-- The span is that of some characters of the template. -/
def Span.Within (template : List Char) (s : Span) : Prop :=
  ∃ before inside after, template = before ++ inside ++ after ∧
    s = ⟨Text.byteLength before, Text.byteLength (before ++ inside)⟩

theorem Item.within_of_scan {template : List Char} {tags : Delimiters} {t : Tag}
    (h : .tag t ∈ (scan template tags).items) : t.span.Within template := by
  obtain ⟨placed, hitems, reads⟩ := (Cursor.start template tags).exists_reads_scan
  obtain ⟨left, hrest, -, -⟩ := reads.lossless
  rw [scan, hitems] at h
  obtain ⟨p, hp, hitem⟩ := List.mem_map.mp h
  have hplace : template = [] ++ placed.flatMap Placed.spelling ++ left := hrest
  have consecutive := reads.consecutive
  obtain ⟨-, before, after, htemplate, hstart⟩ := consecutive.place hplace rfl hp
  refine ⟨before, p.spelling, after, htemplate, ?_⟩
  rw [reads.span_eq hp hitem, Text.byteLength_append, hstart]
  rfl

theorem Tag.piece_extend {template : List Char} {t : Tag} {sections : List OpenSection}
    (within : t.span.Within template) (opened : ∀ s ∈ sections, s.span.Within template)
    (more : List Char) :
    t.piece (template ++ more) sections = t.piece template sections := by
  unfold piece
  cases t.sigil with
  | sectionClose =>
    cases sections with
    | nil => rfl
    | cons innermost outer =>
      obtain ⟨before, inside, after, htemplate, hspan⟩ := within
      obtain ⟨before', inside', after', htemplate', hspan'⟩ := opened innermost (by simp)
      have hraw : Text.slice innermost.span.stop t.span.start (template ++ more) =
          Text.slice innermost.span.stop t.span.start template := by
        have hle : Text.byteLength before ≤ Text.byteLength (before' ++ inside' ++ after') := by
          rw [← htemplate', htemplate]
          simp only [Text.byteLength_append]
          omega
        rw [hspan, hspan', htemplate', Text.slice_extend hle]
      simp only [hraw]
  | _ => rfl

/-- The sections that are open after a tag were open before, or the tag has opened them. -/
theorem Tag.span_of_piece {template : List Char} {t : Tag} {sections next : List OpenSection}
    {piece : Piece} (h : t.piece template sections = .ok (piece, next)) :
    ∀ s ∈ next, s ∈ sections ∨ s.span = t.span := by
  have same : sections = next → ∀ s ∈ next, s ∈ sections ∨ s.span = t.span := by
    rintro rfl s hs
    exact .inl hs
  unfold Tag.piece at h
  split at h
  case h_3 | h_4 =>
    split at h
    · cases h
    · cases h
      intro s hs
      rcases List.mem_cons.mp hs with rfl | hs
      · exact .inr rfl
      · exact .inl hs
  case h_5 =>
    split at h
    · cases h
    · split at h
      · cases h
        exact fun s hs => .inl (List.mem_cons_of_mem _ hs)
      · cases h
  all_goals
    cases h
    exact same rfl

/-- Items of a template have the same pieces when the template goes on. -/
theorem Item.pieces_extend {template : List Char} {items : List Item}
    {sections : List OpenSection} (within : ∀ t, .tag t ∈ items → t.span.Within template)
    (opened : ∀ s ∈ sections, s.span.Within template) (more : List Char) :
    Item.pieces (template ++ more) sections items = Item.pieces template sections items := by
  induction items generalizing sections with
  | nil => rfl
  | cons item items ih =>
    have within' : ∀ t, .tag t ∈ items → t.span.Within template :=
      fun t ht => within t (List.mem_cons_of_mem _ ht)
    cases item with
    | text cs => simp only [Item.pieces, ih within' opened]
    | tag t =>
      have here := within t List.mem_cons_self
      simp only [Item.pieces, t.piece_extend here opened more]
      cases hpiece : t.piece template sections with
      | error site => rfl
      | ok found =>
        obtain ⟨piece, next⟩ := found
        have opened' : ∀ s ∈ next, s.span.Within template := by
          intro s hs
          rcases Tag.span_of_piece hpiece s hs with hs | hs
          · exact opened s hs
          · rwa [hs]
        simp only [bind, Except.bind, ih within' opened']

/-- The items that are scanned in a template stand in it, so that they have the same pieces when it
goes on. -/
theorem Item.pieces_scan_extend (template : List Char) (tags : Delimiters) (more : List Char) :
    Item.pieces (template ++ more) [] (scan template tags).items =
      Item.pieces template [] (scan template tags).items :=
  pieces_extend (fun _ ht => within_of_scan ht) (by simp) more

theorem Item.pieces_append (template : List Char) (sections : List OpenSection)
    (xs ys : List Item) :
    Item.pieces template sections (xs ++ ys) =
      match Item.pieces template sections xs with
      | .error site => .error site
      | .ok (pieces, next) =>
        (Item.pieces template next ys).map fun found => (pieces ++ found.1, found.2) := by
  induction xs generalizing sections with
  | nil =>
    rw [List.nil_append]
    simp only [Item.pieces]
    cases Item.pieces template sections ys <;> rfl
  | cons item xs ih =>
    cases item with
    | text cs =>
      rw [List.cons_append]
      simp only [Item.pieces, ih]
      cases Item.pieces template sections xs with
      | error site => rfl
      | ok found =>
        simp only [bind, Except.bind, pure, Except.pure]
        cases Item.pieces template found.2 ys with
        | error site => rfl
        | ok later => simp [Except.map]
    | tag t =>
      rw [List.cons_append]
      simp only [Item.pieces]
      cases t.piece template sections with
      | error site => rfl
      | ok first =>
        simp only [bind, Except.bind, ih]
        cases Item.pieces template first.2 xs with
        | error site => rfl
        | ok found =>
          simp only [pure, Except.pure]
          cases Item.pieces template found.2 ys <;> rfl

/-- The delimiters that are in effect at the end of a template. -/
def Delimiters.atEnd (template : List Char) (tags : Delimiters) : Delimiters :=
  (scan template tags).items.foldl Item.after tags

/-- Only tags change the delimiters. -/
theorem Item.foldl_after (tags : Delimiters) (items : List Item) :
    items.foldl Item.after tags =
      (items.filterMap Item.tag?).foldl (fun tags t => (Item.tag t).after tags) tags := by
  induction items generalizing tags with
  | nil => rfl
  | cons item items ih =>
    cases item with
    | text cs => exact ih tags
    | tag t => exact ih ((Item.tag t).after tags)

/-- A text of whole lines in which all tags can be read, with the delimiters in effect before it and
behind it. -/
structure WholeLines (tags : Delimiters) (text : List Char) (tags' : Delimiters) : Prop where
  ends : Text.EndsLine text
  sound : (scan text tags).fault = none
  atEnd : tags.atEnd text = tags'

namespace WholeLines

variable {tags tags' tags'' : Delimiters} {xs ys : List Char}

theorem past_eq (h : WholeLines tags xs tags') (ys : List Char) :
    (Cursor.start xs tags).past ys = (Cursor.start ys tags').shift (.over xs) := by
  have hatEnd : (Cursor.start xs tags).scan.items.foldl Item.after tags = tags' := h.atEnd
  simp only [Cursor.past, Cursor.advance, Cursor.start, Cursor.shift, Shift.over] at hatEnd ⊢
  rw [hatEnd]

/-- Behind whole lines a text is scanned as it is alone, farther on. -/
theorem scan_append (h : WholeLines tags xs tags') (ys : List Char) :
    (scan (xs ++ ys) tags).fault = (scan ys tags').fault.map (·.shift (.over xs)) ∧
    Item.SamePieces (scan (xs ++ ys) tags).items
      ((scan xs tags).items ++ (scan ys tags').items.map (·.shift (.over xs))) ∧
    (scan (xs ++ ys) tags).tags =
      (scan xs tags).tags ++ (scan ys tags').tags.map (·.shift (.over xs)) := by
  obtain ⟨hfault, hitems, htags⟩ := Cursor.scan_extend (.start xs tags) h.sound h.ends ys
  have hwhole : (Cursor.start xs tags).extend ys = .start (xs ++ ys) tags := rfl
  rw [hwhole, h.past_eq, Cursor.shift_scan] at hfault hitems htags
  refine ⟨hfault, hitems, htags.trans (congrArg _ ?_)⟩
  simp only [Scan.tags, Scan.shift, List.filterMap_map, List.map_filterMap]
  refine List.filterMap_congr fun item _ => ?_
  cases item <;> rfl

theorem append (hx : WholeLines tags xs tags') (hy : WholeLines tags' ys tags'') :
    WholeLines tags (xs ++ ys) tags'' := by
  obtain ⟨hfault, -, htags⟩ := hx.scan_append ys
  have shifted (tags : Delimiters) (ts : List Tag) (d : Shift) :
      (ts.map (·.shift d)).foldl (fun tags t => (Item.tag t).after tags) tags =
        ts.foldl (fun tags t => (Item.tag t).after tags) tags := List.foldl_map
  have first := hx.atEnd
  have second := hy.atEnd
  simp only [Delimiters.atEnd, Item.foldl_after] at first second
  refine ⟨hx.ends.append hy.ends, ?_, ?_⟩
  · rw [hfault, hy.sound]
    rfl
  · have hwhole : (scan (xs ++ ys) tags).items.filterMap Item.tag? = _ := htags
    rw [Delimiters.atEnd, Item.foldl_after, hwhole, List.foldl_append, Scan.tags, first, shifted]
    exact second

end WholeLines

namespace Piece

variable {template : List Char} {tags : Delimiters} {pieces : List Piece}

theorem ofTemplate_eq_ok_iff : ofTemplate template tags = .ok pieces ↔
    (scan template tags).fault = none ∧
      Item.pieces template [] (scan template tags).items = .ok (pieces, []) := by
  constructor
  · intro h
    simp only [ofTemplate, bind, Except.bind] at h
    split at h
    · cases h
    next found hf =>
      split at h
      · cases h
      next hfault hleft =>
        cases h
        refine ⟨hfault, ?_⟩
        rw [hf, ← hleft]
      · cases h
  · rintro ⟨hfault, hpieces⟩
    simp only [ofTemplate, hpieces, bind, Except.bind, hfault]
    rfl

/-- Behind a template that ends its last line and has set its delimiters back, another one has the
same pieces or the same fault as alone, farther on. -/
theorem ofTemplate_append (ends : Text.EndsLine template)
    (h : ofTemplate template tags = .ok pieces) (restored : tags.atEnd template = tags)
    (more : List Char) :
    ofTemplate (template ++ more) tags =
      match ofTemplate more tags with
      | .error site => .error (site.shift (.over template))
      | .ok others => .ok (pieces ++ others) := by
  obtain ⟨hfault, hpieces⟩ := ofTemplate_eq_ok_iff.mp h
  have whole : WholeLines tags template tags := ⟨ends, hfault, restored⟩
  obtain ⟨hfaults, hitems, -⟩ := whole.scan_append more
  have hfirst : Item.pieces (template ++ more) [] (scan template tags).items =
      .ok (pieces, []) := (Item.pieces_scan_extend template tags more).trans hpieces
  have hsecond : Item.pieces (template ++ more) [] ((scan more tags).items.map
      (·.shift (.over template))) =
        (Shift.over template).result (Item.pieces more [] (scan more tags).items) :=
    Item.pieces_shift template more [] _
  have hall : Item.pieces (template ++ more) [] (scan (template ++ more) tags).items =
      ((Shift.over template).result (Item.pieces more [] (scan more tags).items)).map
        fun found => (pieces ++ found.1, found.2) := by
    have hwhole := Item.pieces_append (template ++ more) [] (scan template tags).items
      ((scan more tags).items.map (·.shift (.over template)))
    simp only [hfirst, hsecond] at hwhole
    exact (hitems _ _).trans hwhole
  simp only [ofTemplate, hall, hfaults, bind, Except.bind]
  cases Item.pieces more [] (scan more tags).items with
  | error site => rfl
  | ok found =>
    obtain ⟨others, sections⟩ := found
    cases (scan more tags).fault with
    | some site => rfl
    | none => cases sections <;> rfl

/-- Pieces up to the end of a line. -/
def EndsLine (pieces : List Piece) : Prop :=
  ∀ piece ∈ pieces.getLast?, piece = newline

theorem endsLine_of_pieces (ends : Text.EndsLine template)
    (sound : (scan template tags).fault = none) {whole : List Char}
    {sections left : List OpenSection}
    (h : Item.pieces whole sections (scan template tags).items = .ok (pieces, left)) :
    EndsLine pieces := by
  rcases List.eq_nil_or_concat template with rfl | ⟨init, c, hc⟩
  · have hnil : (scan [] tags).items = [] := by
      rw [scan, Cursor.scan_of_ended rfl]
    rw [hnil] at h
    cases h
    simp [EndsLine]
  · rw [List.concat_eq_append] at hc
    obtain rfl : c = '\n' := ends c (by rw [hc, List.getLast?_concat]; rfl)
    obtain ⟨items, cs, hitems⟩ := Cursor.exists_last_text (.start template tags) sound hc
    have hlast := Item.pieces_append whole sections items [.text (cs ++ ['\n'])]
    rw [show items ++ [.text (cs ++ ['\n'])] = (scan template tags).items from hitems.symm,
      h] at hlast
    split at hlast
    · cases hlast
    next first next _ =>
      obtain ⟨rfl, -⟩ := Prod.mk.inj (Except.ok.inj hlast)
      intro piece hpiece
      simp only [List.append_nil, List.getLast?_append, List.getLast?_map,
        Segment.getLast?_ofText_newline] at hpiece
      cases hpiece
      rfl

theorem endsLine_ofTemplate (ends : Text.EndsLine template)
    (h : ofTemplate template tags = .ok pieces) : EndsLine pieces := by
  obtain ⟨sound, hpieces⟩ := ofTemplate_eq_ok_iff.mp h
  exact endsLine_of_pieces ends sound hpieces

theorem lines_append {first : List Piece} (h : EndsLine first) (others : List Piece) :
    lines (first ++ others) = lines first ++ lines others := by
  induction first with
  | nil => rfl
  | cons piece first ih =>
    by_cases hfirst : first = []
    · subst hfirst
      obtain rfl := h piece rfl
      rfl
    · have hrest := ih fun p hp => h p (by rw [List.getLast?_cons, hp]; rfl)
      have hne : lines first ≠ [] := by
        intro hnil
        have := flatten_lines first
        rw [hnil] at this
        exact hfirst this.symm
      obtain ⟨line, rest, hlines⟩ := List.exists_cons_of_ne_nil hne
      rw [List.cons_append]
      simp only [lines, hrest, hlines]
      split <;> rfl

theorem strip_append {first : List Piece} (h : EndsLine first) (others : List Piece) :
    strip (first ++ others) = strip first ++ strip others := by
  rw [strip, lines_append h, List.flatMap_append]
  rfl

theorem kept_append {first : List Piece} (h : EndsLine first) (options : Options)
    (others : List Piece) :
    options.kept (first ++ others) = options.kept first ++ options.kept others := by
  unfold Options.kept
  split
  · rfl
  · exact strip_append h others

end Piece
end Mustache
