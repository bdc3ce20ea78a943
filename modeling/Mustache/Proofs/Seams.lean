import Mustache.Proofs.Shifting

namespace Mustache

namespace Text

/-- A text that is empty or ends its last line. -/
def EndsLine (cs : List Char) : Prop :=
  ∀ c ∈ cs.getLast?, c = '\n'

variable {needle xs ys before after : List Char}

theorem EndsLine.of_append (h : EndsLine (xs ++ ys)) : EndsLine ys := by
  intro c hc
  refine h c ?_
  rw [List.getLast?_append, hc]
  rfl

theorem EndsLine.append (hx : EndsLine xs) (hy : EndsLine ys) : EndsLine (xs ++ ys) := by
  intro c hc
  rw [List.getLast?_append, Option.mem_def, Option.or_eq_some_iff] at hc
  rcases hc with hc | ⟨-, hc⟩
  · exact hy c hc
  · exact hx c hc

theorem endsLine_concat (cs : List Char) : EndsLine (cs ++ ['\n']) := by
  intro c hc
  rw [List.getLast?_concat] at hc
  exact (Option.some.inj hc).symm

/-- A leftmost occurrence stays leftmost when the text goes on. -/
theorem Leftmost.extend (h : Leftmost needle xs before after) (more : List Char) :
    Leftmost needle (xs ++ more) before (after ++ more) := by
  refine ⟨by rw [h.occurs]; simp only [List.append_assoc], ?_⟩
  intro b a ho
  by_contra hlt
  have hle : (b ++ needle).length ≤ xs.length := by
    have := congrArg List.length h.occurs
    simp only [List.length_append] at this ⊢
    omega
  obtain ⟨rest, hrest⟩ :=
    List.prefix_of_prefix_length_le ⟨a, ho.symm⟩ (List.prefix_append xs more) hle
  have := h.least b rest hrest.symm
  omega

theorem breakOn_extend (h : breakOn needle xs = some (before, after)) (more : List Char) :
    breakOn needle (xs ++ more) = some (before, after ++ more) :=
  breakOn_eq_some_iff.mpr ((breakOn_eq_some_iff.mp h).extend more)

/-- A word cannot lie across the end of a line. -/
theorem occurs_append_cases (solid : ∀ c ∈ needle, isWhiteSpace c = false)
    (ends : EndsLine xs) (h : xs ++ ys = before ++ needle ++ after) :
    (∃ rest, xs = before ++ needle ++ rest) ∨
      ∃ rest, before = xs ++ rest ∧ ys = rest ++ needle ++ after := by
  rw [List.append_assoc] at h
  rcases List.append_eq_append_iff.mp h with ⟨rest, hbefore, hys⟩ | ⟨inside, hxs, hneedle⟩
  · exact .inr ⟨rest, hbefore, by rw [hys, List.append_assoc]⟩
  rcases List.append_eq_append_iff.mp hneedle with ⟨rest, hinside, _⟩ | ⟨rest, hinside, hys⟩
  · exact .inl ⟨rest, by rw [hxs, hinside, List.append_assoc]⟩
  rcases List.eq_nil_or_concat inside with rfl | ⟨init, c, rfl⟩
  · refine .inr ⟨[], ?_, ?_⟩
    · rw [hxs, List.append_nil, List.append_nil]
    · rw [hys, hinside, List.nil_append, List.nil_append]
  · obtain rfl : c = '\n' := ends c (by simp [hxs])
    have hsolid := solid '\n' (by simp [hinside])
    cases hsolid

theorem not_infix_append (solid : ∀ c ∈ needle, isWhiteSpace c = false)
    (ends : EndsLine xs) (hxs : ¬needle <:+: xs) (hys : ¬needle <:+: ys) :
    ¬needle <:+: xs ++ ys := by
  rintro ⟨b, a, h⟩
  rcases occurs_append_cases solid ends h.symm with ⟨rest, hrest⟩ | ⟨rest, _, hrest⟩
  · exact hxs ⟨b, rest, hrest.symm⟩
  · exact hys ⟨rest, a, hrest.symm⟩

theorem Leftmost.behind (h : Leftmost needle ys before after)
    (solid : ∀ c ∈ needle, isWhiteSpace c = false) (ends : EndsLine xs)
    (absent : ¬needle <:+: xs) : Leftmost needle (xs ++ ys) (xs ++ before) after := by
  refine ⟨by rw [h.occurs]; simp only [List.append_assoc], ?_⟩
  intro b a ho
  rcases occurs_append_cases solid ends ho with ⟨rest, hrest⟩ | ⟨rest, rfl, hrest⟩
  · exact absurd ⟨b, rest, hrest.symm⟩ absent
  · have := h.least rest a hrest
    simp only [List.length_append]
    omega

/-- A needle that stands behind white space has no occurrence that starts in that. -/
theorem leftmost_behind_white (nonempty : needle ≠ [])
    (solid : ∀ c ∈ needle, isWhiteSpace c = false) (white : ∀ c ∈ before, isWhiteSpace c)
    (after : List Char) : Leftmost needle (before ++ needle ++ after) before after := by
  refine ⟨rfl, ?_⟩
  intro b a ho
  by_contra hlt
  rw [List.append_assoc, List.append_assoc] at ho
  rcases List.append_eq_append_iff.mp ho with ⟨more, rfl, -⟩ | ⟨more, rfl, hrest⟩
  · simp only [List.length_append] at hlt
    omega
  cases more with
  | nil => simp at hlt
  | cons c more =>
    obtain ⟨first, needle, rfl⟩ := List.exists_cons_of_ne_nil nonempty
    obtain ⟨rfl, -⟩ := List.cons.inj hrest
    have hwhite := white first (by simp)
    rw [solid first (by simp)] at hwhite
    cases hwhite

end Text

theorem Marker.not_infix_of_white {m : Marker} {cs : List Char}
    (white : ∀ c ∈ cs, Text.isWhiteSpace c) : ¬m.chars <:+: cs := by
  intro hwithin
  obtain ⟨c, hc⟩ := List.exists_mem_of_ne_nil _ m.nonempty
  have hwhite := white c (hwithin.subset hc)
  rw [m.solid c hc] at hwhite
  cases hwhite

namespace Segment

theorem attach_append (c : Char) {segments : List Segment} (h : segments ≠ [])
    (others : List Segment) : attach c (segments ++ others) = attach c segments ++ others := by
  obtain ⟨segment, segments, rfl⟩ := List.exists_cons_of_ne_nil h
  unfold attach
  split
  · rfl
  · split
    · cases segment <;> rfl
    · cases segment <;> rfl

theorem ofText_ne_nil {cs : List Char} (h : cs ≠ []) : ofText cs ≠ [] := by
  intro hnil
  have := flatMap_chars_ofText cs
  rw [hnil] at this
  exact h this.symm

/-- A line break is a segment of its own, so the segments of the lines can be found apart. -/
theorem ofText_append {xs : List Char} (h : Text.EndsLine xs) (ys : List Char) :
    ofText (xs ++ ys) = ofText xs ++ ofText ys := by
  induction xs with
  | nil => rfl
  | cons c xs ih =>
    by_cases hxs : xs = []
    · subst hxs
      obtain rfl := h c rfl
      rfl
    · have hrest := ih fun d hd => h d (by rw [List.getLast?_cons, hd]; rfl)
      have hunfold (cs : List Char) : ofText (c :: cs) = attach c (ofText cs) := rfl
      rw [List.cons_append, hunfold, hunfold, hrest, attach_append c (ofText_ne_nil hxs)]

theorem ofText_concat_newline (cs : List Char) :
    ofText (cs ++ ['\n']) = ofText cs ++ [newline] := by
  have hunfold (c : Char) (cs : List Char) : ofText (c :: cs) = attach c (ofText cs) := rfl
  induction cs with
  | nil => rfl
  | cons c cs ih =>
    rw [List.cons_append, hunfold, hunfold, ih]
    by_cases hcs : ofText cs = []
    · rw [hcs, List.nil_append]
      unfold attach
      split
      · rfl
      · split <;> rfl
    · exact attach_append c hcs [newline]

theorem getLast?_ofText_newline (cs : List Char) :
    (ofText (cs ++ ['\n'])).getLast? = some newline := by
  rw [ofText_concat_newline, List.getLast?_concat]

end Segment

theorem Sigil.split_extend {inner : List Char} (hne : inner ≠ []) (more : List Char) :
    split (inner ++ more) = ((split inner).1, (split inner).2 ++ more) := by
  obtain ⟨c, cs, rfl⟩ := List.exists_cons_of_ne_nil hne
  rw [List.cons_append]
  unfold split
  split <;> simp_all

/-- What ends a tag ends in a character of the closing marker. -/
theorem Sigil.solid_ending (sigil : Sigil) (closing : Marker) :
    ∃ init c, sigil.ending closing = init ++ [c] ∧ Text.isWhiteSpace c = false := by
  have hlast : closing.chars.dropLast ++ [closing.chars.getLast closing.nonempty] =
      closing.chars := List.dropLast_concat_getLast closing.nonempty
  have hsolid := closing.solid _ (List.getLast_mem closing.nonempty)
  unfold ending
  split
  · exact ⟨'=' :: closing.chars.dropLast, _, by rw [List.cons_append, hlast], hsolid⟩
  · exact ⟨'}' :: closing.chars.dropLast, _, by rw [List.cons_append, hlast], hsolid⟩
  · exact ⟨closing.chars.dropLast, _, hlast.symm, hsolid⟩

/-- The delimiters in effect after an item. -/
def Item.after (tags : Delimiters) : Item → Delimiters
  | text _ => tags
  | tag t => if t.sigil = .delimiterSwitch then (Delimiters.ofSwitch? t.source).getD tags else tags

/-- Items that come to the same pieces, and the same fault, in any template and any section. -/
def Item.SamePieces (xs ys : List Item) : Prop :=
  ∀ template sections, Item.pieces template sections xs = Item.pieces template sections ys

theorem Item.SamePieces.cons {xs ys : List Item} (h : SamePieces xs ys) (item : Item) :
    SamePieces (item :: xs) (item :: ys) := by
  intro template sections
  cases item with
  | text cs => simp only [Item.pieces, h template]
  | tag t => simp only [Item.pieces, h template]

theorem Item.SamePieces.append {xs ys : List Item} (h : SamePieces xs ys) (before : List Item) :
    SamePieces (before ++ xs) (before ++ ys) := by
  induction before with
  | nil => exact h
  | cons item before ih => exact ih.cons item

/-- A text can be cut after a line break. -/
theorem Item.samePieces_text {xs : List Char} (h : Text.EndsLine xs) (ys : List Char)
    (items : List Item) :
    SamePieces (.text (xs ++ ys) :: items) (.text xs :: .text ys :: items) := by
  intro template sections
  simp only [Item.pieces, Segment.ofText_append h, List.map_append]
  cases Item.pieces template sections items with
  | error site => rfl
  | ok found => simp [bind, Except.bind, pure, Except.pure]

namespace Cursor

variable {c next : Cursor} {t : Tag} {inner before passed : List Char}

/-- The same place with more text to come. -/
def extend (c : Cursor) (more : List Char) : Cursor :=
  { c with rest := c.rest ++ more }

/-- The place behind all that is left, where more text starts. -/
def past (c : Cursor) (more : List Char) : Cursor :=
  { c.advance c.rest more with tags := c.scan.items.foldl Item.after c.tags }

/-- A scan comes to a tag, behind some text or none, and goes on at `next`, whatever is to come. -/
structure Meets (c : Cursor) (before passed : List Char) (t : Tag) (next : Cursor) : Prop where
  rest : c.rest = before ++ passed ++ next.rest
  place : next =
    { c.advance (before ++ passed) next.rest with tags := (Item.tag t).after c.tags }
  solid : ∃ init ch, passed = init ++ [ch] ∧ Text.isWhiteSpace ch = false
  scan (more : List Char) : (c.extend more).scan =
    ⟨(c.gap before).map Placed.item ++ .tag t :: (next.extend more).scan.items,
      (next.extend more).scan.fault⟩

@[simp] theorem extend_nil (c : Cursor) : c.extend [] = c := by
  simp [extend]

theorem Meets.scan_eq (h : c.Meets before passed t next) :
    c.scan = ⟨(c.gap before).map Placed.item ++ .tag t :: next.scan.items, next.scan.fault⟩ := by
  have := h.scan []
  rwa [extend_nil, extend_nil] at this

theorem Meets.shorter (h : c.Meets before passed t next) : next.rest.length < c.rest.length := by
  obtain ⟨init, ch, hpassed, -⟩ := h.solid
  rw [h.rest, hpassed]
  simp only [List.length_append, List.length_singleton]
  omega

theorem map_item_gap (c : Cursor) (before : List Char) :
    (c.gap before).map Placed.item = if before = [] then [] else [.text before] := by
  unfold gap
  split <;> rfl

theorem foldl_after_gap (c : Cursor) (before : List Char) (tags : Delimiters) :
    ((c.gap before).map Placed.item).foldl Item.after tags = tags := by
  rw [map_item_gap]
  split <;> rfl

theorem filterMap_tag?_gap (c : Cursor) (before : List Char) :
    ((c.gap before).map Placed.item).filterMap Item.tag? = [] := by
  rw [map_item_gap]
  split <;> rfl

/-- A text does not change the delimiters, so that the tag decides what is in effect behind it. -/
theorem Meets.past_eq (h : c.Meets before passed t next) (more : List Char) :
    c.past more = next.past more := by
  have hoffset : next.offset = c.offset + Text.byteLength (before ++ passed) := by
    rw [h.place]
    rfl
  have hline : next.line = c.line + (before ++ passed).count '\n' := by
    rw [h.place]
    rfl
  have htags : next.tags = (Item.tag t).after c.tags := by rw [h.place]
  have hafter : c.scan.items.foldl Item.after c.tags =
      next.scan.items.foldl Item.after next.tags := by
    rw [h.scan_eq, List.foldl_append, foldl_after_gap, htags]
    rfl
  simp only [past, advance, hafter, hoffset, hline, h.rest, Text.byteLength_append,
    List.count_append, Nat.add_assoc]

/-- When a tag is read, what is known of it, and where its reading ends. -/
theorem readTag_eq_found_iff {item : Item} {sigil : Sigil} {body : List Char}
    (hsplit : Sigil.split inner = (sigil, body)) :
    c.readTag inner = .found item next ↔ ∃ source after tags,
      Text.breakOn (sigil.ending c.tags.closing) body = some (source, after) ∧
      (if sigil = .delimiterSwitch then Delimiters.ofSwitch? source = some tags
        else tags = c.tags) ∧
      let place := c.advance
        (c.tags.opening.chars ++ sigil.chars ++ source ++ sigil.ending c.tags.closing) after
      item = .tag ⟨sigil, source, c.line, c.offset, place.offset⟩ ∧ next = { place with tags } := by
  simp only [readTag, hsplit]
  cases Text.breakOn (sigil.ending c.tags.closing) body with
  | none => simp
  | some found =>
    obtain ⟨source, after⟩ := found
    by_cases hswitch : sigil = .delimiterSwitch
    · cases htags : Delimiters.ofSwitch? source with
      | none => simp [hswitch, htags]
      | some tags => simp [hswitch, htags, eq_comm]
    · have hstays (passed rest : List Char) :
          { c.advance passed rest with tags := c.tags } = c.advance passed rest := rfl
      simp [hswitch, hstays, eq_comm]

/-- What a tag takes up, which does not end in white space. -/
theorem takes_of_readTag {item : Item} (hrest : c.rest = c.tags.opening.chars ++ inner)
    (h : c.readTag inner = .found item next) :
    ∃ t passed, item = .tag t ∧ c.rest = passed ++ next.rest ∧
      next = { c.advance passed next.rest with tags := (Item.tag t).after c.tags } ∧
      ∃ init ch, passed = init ++ [ch] ∧ Text.isWhiteSpace ch = false := by
  obtain ⟨sigil, body, hsplit⟩ : ∃ sigil body, Sigil.split inner = (sigil, body) := ⟨_, _, rfl⟩
  have hinner := Sigil.chars_split inner
  rw [hsplit] at hinner
  obtain ⟨source, after, tags, hb, htags, rfl, rfl⟩ := (readTag_eq_found_iff hsplit).mp h
  obtain ⟨init, ch, hending, hsolid⟩ := sigil.solid_ending c.tags.closing
  refine ⟨_, c.tags.opening.chars ++ sigil.chars ++ source ++ sigil.ending c.tags.closing, rfl,
    ?_, ?_, c.tags.opening.chars ++ sigil.chars ++ source ++ init, ch, ?_, hsolid⟩
  · rw [hrest, ← hinner, Text.breakOn_eq_some hb]
    simp only [advance, List.append_assoc]
  · unfold Item.after
    split at htags
    next hswitch =>
      simp only [if_pos hswitch, htags]
      rfl
    next hswitch =>
      simp only [if_neg hswitch, htags]
      rfl
  · rw [hending, List.append_assoc _ init]

theorem readTag_extend {item : Item} (h : c.readTag inner = .found item next)
    (more : List Char) :
    (c.extend more).readTag (inner ++ more) = .found item (next.extend more) := by
  obtain ⟨sigil, body, hsplit⟩ : ∃ sigil body, Sigil.split inner = (sigil, body) := ⟨_, _, rfl⟩
  obtain ⟨source, after, tags, hb, htags, rfl, rfl⟩ := (readTag_eq_found_iff hsplit).mp h
  have hne : inner ≠ [] := by
    -- Something ends the tag, so there is something behind its opening marker.
    rintro rfl
    cases hsplit
    obtain ⟨init, ch, hending, -⟩ := Sigil.bare.solid_ending c.tags.closing
    have hnil := Text.breakOn_eq_some hb
    rw [hending] at hnil
    simp at hnil
  have hsplit' := Sigil.split_extend hne more
  rw [hsplit] at hsplit'
  exact (readTag_eq_found_iff hsplit').mpr
    ⟨source, after ++ more, tags, Text.breakOn_extend hb more, htags, rfl, rfl⟩

theorem scan_eq_of_leftmost (opens : Text.Leftmost c.tags.opening.chars c.rest before inner)
    {d : Cursor} (hd : d = c.advance before (c.tags.opening.chars ++ inner)) :
    c.scan = ⟨(c.gap before).map Placed.item ++ d.scan.items, d.scan.fault⟩ := by
  obtain ⟨-, hfault, hitems⟩ := scan_of_leftmost opens hd
  rw [Scan.mk.injEq, hitems, map_item_gap]
  refine ⟨?_, hfault⟩
  split <;> rfl

/-- A tag that is read behind a text is met there. -/
theorem meets_of_readTag (opens : Text.Leftmost c.tags.opening.chars c.rest before inner)
    (h : (c.advance before (c.tags.opening.chars ++ inner)).readTag inner = .found (.tag t) next) :
    ∃ passed, c.Meets before passed t next := by
  let d := c.advance before (c.tags.opening.chars ++ inner)
  have hread : d.readTag inner = .found (.tag t) next := h
  have hrest : d.rest = d.tags.opening.chars ++ inner := rfl
  obtain ⟨u, passed, hu, hpassed, hnext, hsolid⟩ := takes_of_readTag hrest hread
  cases hu
  refine ⟨passed, ?_, ?_, hsolid, ?_⟩
  · have hafter : c.tags.opening.chars ++ inner = passed ++ next.rest := hpassed
    rw [opens.occurs, List.append_assoc, List.append_assoc, hafter]
  · rw [hnext]
    simp only [d, advance, Text.byteLength_append, List.count_append, Nat.add_assoc]
  · intro more
    have opens' : Text.Leftmost (c.extend more).tags.opening.chars (c.extend more).rest before
        (inner ++ more) := opens.extend more
    have place : d.extend more = (c.extend more).advance before
        ((c.extend more).tags.opening.chars ++ (inner ++ more)) := by
      simp only [d, extend, advance, List.append_assoc]
    obtain ⟨hstep', -, -⟩ := scan_of_leftmost opens' place
    have hfound := scan_of_found (hstep'.trans (readTag_extend hread more))
    rw [scan_eq_of_leftmost opens' place, hfound]
    rfl

/-- A scan without a fault either reads a tag behind some text or takes all that is left to be
text. -/
theorem absent_or_readTag (sound : c.scan.fault = none) :
    ¬c.tags.opening.chars <:+: c.rest ∨ ∃ before inner t next,
      Text.Leftmost c.tags.opening.chars c.rest before inner ∧
      (c.advance before (c.tags.opening.chars ++ inner)).readTag inner = .found (.tag t) next := by
  by_cases hopen : c.tags.opening.chars <:+: c.rest
  · obtain ⟨⟨before, inner⟩, hb⟩ := Option.ne_none_iff_exists'.mp
      (fun none => Text.breakOn_eq_none_iff.mp none hopen)
    have opens := Text.breakOn_eq_some_iff.mp hb
    obtain ⟨hstep, hfault, _⟩ := scan_of_leftmost opens rfl
    rcases reads_of_readTag opens with ⟨site, hread, _⟩ | ⟨t, next, hread, _⟩
    · rw [hfault, scan_of_failed (hstep.trans hread)] at sound
      cases sound
    · exact .inr ⟨before, inner, t, next, opens, hread⟩
  · exact .inl hopen

theorem absent_or_meets (sound : c.scan.fault = none) :
    ¬c.tags.opening.chars <:+: c.rest ∨ ∃ before passed t next, c.Meets before passed t next := by
  rcases absent_or_readTag sound with absent | ⟨before, inner, t, next, opens, hread⟩
  · exact .inl absent
  · obtain ⟨passed, meets⟩ := meets_of_readTag opens hread
    exact .inr ⟨before, passed, t, next, meets⟩

/-- A gap can be cut after a line break. -/
theorem samePieces_gap (c d e : Cursor) {xs : List Char} (ends : Text.EndsLine xs)
    (ys : List Char) (items : List Item) :
    Item.SamePieces ((c.gap (xs ++ ys)).map Placed.item ++ items)
      ((d.gap xs).map Placed.item ++ ((e.gap ys).map Placed.item ++ items)) := by
  simp only [map_item_gap]
  by_cases hxs : xs = []
  · subst hxs
    exact fun _ _ => rfl
  rw [if_neg (List.append_ne_nil_of_left_ne_nil hxs ys), if_neg hxs]
  split
  next hys =>
    rw [hys, List.append_nil]
    exact fun _ _ => rfl
  next => exact Item.samePieces_text ends ys items

/-- Text up to a line break goes on in the first gap of the text to come. -/
theorem exists_gap_of_absent (absent : ¬c.tags.opening.chars <:+: c.rest)
    (ends : Text.EndsLine c.rest) (more : List Char) :
    ∃ before items fault,
      (c.extend more).scan =
        ⟨((c.extend more).gap (c.rest ++ before)).map Placed.item ++ items, fault⟩ ∧
      (c.past more).scan = ⟨((c.past more).gap before).map Placed.item ++ items, fault⟩ := by
  have solid := c.tags.opening.solid
  have hitems : c.scan.items = (c.gap c.rest).map Placed.item := by rw [scan_of_absent absent]
  have htags : (c.past more).tags = c.tags := by
    simp only [past, hitems, foldl_after_gap]
  by_cases hopen : c.tags.opening.chars <:+: more
  · obtain ⟨⟨before, inner⟩, hb⟩ := Option.ne_none_iff_exists'.mp
      (fun none => Text.breakOn_eq_none_iff.mp none hopen)
    have opens := Text.breakOn_eq_some_iff.mp hb
    have opens' :
        Text.Leftmost (c.past more).tags.opening.chars (c.past more).rest before inner := by
      rw [htags]
      exact opens
    have opens'' : Text.Leftmost (c.extend more).tags.opening.chars (c.extend more).rest
        (c.rest ++ before) inner := opens.behind solid ends absent
    have same : (c.past more).advance before ((c.past more).tags.opening.chars ++ inner) =
        (c.extend more).advance (c.rest ++ before)
          ((c.extend more).tags.opening.chars ++ inner) := by
      simp only [advance, Text.byteLength_append, List.count_append, ← Nat.add_assoc, htags]
      rfl
    exact ⟨before, _, _, scan_eq_of_leftmost opens'' same, scan_eq_of_leftmost opens' rfl⟩
  · have absent' : ¬(c.past more).tags.opening.chars <:+: (c.past more).rest := by
      rw [htags]
      exact hopen
    have absent'' : ¬(c.extend more).tags.opening.chars <:+: (c.extend more).rest :=
      Text.not_infix_append solid ends absent hopen
    refine ⟨more, [], none, ?_, ?_⟩
    · rw [scan_of_absent absent'', List.append_nil]
      rfl
    · rw [scan_of_absent absent', List.append_nil]
      rfl

/-- Text up to a line break and the text to come are scanned together as they are apart. -/
theorem scan_extend_of_absent (absent : ¬c.tags.opening.chars <:+: c.rest)
    (ends : Text.EndsLine c.rest) (more : List Char) :
    (c.extend more).scan.fault = (c.past more).scan.fault ∧
      Item.SamePieces (c.extend more).scan.items (c.scan.items ++ (c.past more).scan.items) ∧
      (c.extend more).scan.tags = c.scan.tags ++ (c.past more).scan.tags := by
  obtain ⟨before, items, fault, hscan, hpast⟩ := exists_gap_of_absent absent ends more
  rw [hscan, hpast, scan_of_absent absent]
  refine ⟨rfl, samePieces_gap _ _ _ ends before _, ?_⟩
  simp only [Scan.tags, List.filterMap_append, filterMap_tag?_gap, List.nil_append]

/-- The scan of a text that goes on after a line break is the scan of the text and then, from where
that ends, the one of what follows. -/
theorem scan_extend (c : Cursor) (sound : c.scan.fault = none)
    (ends : Text.EndsLine c.rest) (more : List Char) :
    (c.extend more).scan.fault = (c.past more).scan.fault ∧
      Item.SamePieces (c.extend more).scan.items (c.scan.items ++ (c.past more).scan.items) ∧
      (c.extend more).scan.tags = c.scan.tags ++ (c.past more).scan.tags := by
  rcases absent_or_meets sound with absent | ⟨before, passed, t, next, meets⟩
  · exact scan_extend_of_absent absent ends more
  · have sound' : next.scan.fault = none := by rwa [meets.scan_eq] at sound
    have ends' : Text.EndsLine next.rest := (meets.rest ▸ ends).of_append
    have shorter := meets.shorter
    obtain ⟨hfault, hitems, htags⟩ := scan_extend next sound' ends' more
    rw [meets.scan more, meets.scan_eq, meets.past_eq more]
    refine ⟨hfault, ?_, ?_⟩
    · rw [List.append_assoc]
      exact (hitems.cons (.tag t)).append _
    · simp only [Scan.tags] at htags
      simp only [Scan.tags, List.filterMap_append, filterMap_tag?_gap, List.nil_append,
        List.filterMap_cons, Item.tag?, List.cons_append, htags]
termination_by c.rest.length

/-- Where a scan without a fault comes to the end of a line, the last item is text. -/
theorem exists_last_text (c : Cursor) (sound : c.scan.fault = none) {init : List Char}
    (hrest : c.rest = init ++ ['\n']) :
    ∃ items cs, c.scan.items = items ++ [.text (cs ++ ['\n'])] := by
  rcases absent_or_meets sound with absent | ⟨before, passed, t, next, meets⟩
  · refine ⟨[], init, ?_⟩
    rw [scan_of_absent absent, map_item_gap, hrest, if_neg (by simp)]
    rfl
  · obtain ⟨_, ch, rfl, hsolid⟩ := meets.solid
    have hlast := congrArg List.getLast? (meets.rest.symm.trans hrest)
    rcases List.eq_nil_or_concat next.rest with hnil | ⟨init', last, hnext⟩
    · -- A tag at the end would end in white space.
      simp only [hnil, List.append_nil, ← List.append_assoc, List.getLast?_concat,
        Option.some.injEq] at hlast
      rw [hlast] at hsolid
      cases hsolid
    · rw [List.concat_eq_append] at hnext
      rw [hnext, ← List.append_assoc, List.getLast?_concat, List.getLast?_concat] at hlast
      cases hlast
      have sound' : next.scan.fault = none := by rwa [meets.scan_eq] at sound
      have shorter := meets.shorter
      obtain ⟨items, cs, hitems⟩ := exists_last_text next sound' hnext
      refine ⟨(c.gap before).map Placed.item ++ .tag t :: items, cs, ?_⟩
      rw [meets.scan_eq, hitems, List.append_assoc]
      rfl
termination_by c.rest.length

end Cursor
end Mustache
