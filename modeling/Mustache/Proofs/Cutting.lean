import Mustache.Proofs.Seams

namespace Mustache

namespace Text

variable {needle cs before after : List Char}

/-- A leftmost occurrence stays leftmost when the text is cut behind it. -/
theorem Leftmost.cut {more : List Char} (h : Leftmost needle (cs ++ more) before (after ++ more)) :
    Leftmost needle cs before after := by
  have occurs : cs = before ++ needle ++ after := by
    have hcs := h.occurs
    rw [← List.append_assoc] at hcs
    exact List.append_cancel_right hcs
  refine ⟨occurs, ?_⟩
  intro b a ho
  have ho' : cs ++ more = b ++ needle ++ (a ++ more) := by rw [ho, List.append_assoc]
  exact h.least b (a ++ more) ho'

theorem Leftmost.absent_before (h : Leftmost needle cs before after) (nonempty : needle ≠ []) :
    ¬needle <:+: before := by
  rintro ⟨b, a, hb⟩
  have hpos := List.length_pos_iff.mpr nonempty
  have ho : cs = b ++ needle ++ (a ++ (needle ++ after)) := by
    rw [h.occurs, ← hb]
    simp only [List.append_assoc]
  have hle := h.least b _ ho
  have hlength := congrArg List.length hb
  simp only [List.length_append] at hlength
  omega

end Text

namespace Cursor

variable {c next : Cursor} {t : Tag} {inner before passed : List Char}

/-- The same place with another text to come. -/
def withRest (c : Cursor) (text : List Char) : Cursor :=
  { c with rest := text }

/-- A tag is read as it is when the text ends behind it. -/
theorem readTag_cut (h : c.readTag inner = .found (.tag t) next) :
    t.span = ⟨c.offset, next.offset⟩ ∧ ∃ within, inner = within ++ next.rest ∧
      (c.withRest (c.tags.opening.chars ++ within)).readTag within =
        .found (.tag t) (next.withRest []) := by
  obtain ⟨sigil, body, hsplit⟩ : ∃ sigil body, Sigil.split inner = (sigil, body) := ⟨_, _, rfl⟩
  obtain ⟨source, after, tags, hb, htags, ht, rfl⟩ := (readTag_eq_found_iff hsplit).mp h
  cases ht
  let within := sigil.chars ++ source ++ sigil.ending c.tags.closing
  have closes := Text.breakOn_eq_some_iff.mp hb
  have hinner : inner = within ++ after := by
    have hchars := Sigil.chars_split inner
    rw [hsplit] at hchars
    rw [← hchars, closes.occurs]
    simp only [within, List.append_assoc]
  have hne : within ≠ [] := by
    obtain ⟨init, ch, hending, -⟩ := sigil.solid_ending c.tags.closing
    simp only [within, hending]
    simp
  have hsplit' : Sigil.split within = (sigil, source ++ sigil.ending c.tags.closing) := by
    have hextend := Sigil.split_extend hne after
    rw [← hinner, hsplit, closes.occurs] at hextend
    obtain ⟨hsigil, hbody⟩ := Prod.mk.inj hextend
    have hcut := List.append_cancel_right hbody
    exact Prod.ext hsigil.symm hcut.symm
  have closes' : Text.Leftmost (sigil.ending c.tags.closing)
      (source ++ sigil.ending c.tags.closing) source [] := by
    have hbody := closes
    rw [closes.occurs] at hbody
    exact hbody.cut
  have hb' := Text.breakOn_eq_some_iff.mpr closes'
  refine ⟨rfl, within, hinner, ?_⟩
  exact (readTag_eq_found_iff hsplit').mpr ⟨source, [], tags, hb', htags, rfl, rfl⟩

/-- A scan without a fault meets a tag, also when the text ends behind it, or no tag at all. -/
theorem absent_or_meets_cut (sound : c.scan.fault = none) :
    ¬c.tags.opening.chars <:+: c.rest ∨ ∃ before passed t next, c.Meets before passed t next ∧
      (c.withRest (before ++ passed)).Meets before passed t (next.withRest []) ∧
      ¬c.tags.opening.chars <:+: before ∧
      t.span = ⟨c.offset + Text.byteLength before, next.offset⟩ := by
  rcases absent_or_readTag sound with absent | ⟨before, inner, t, next, opens, hread⟩
  · exact .inl absent
  obtain ⟨passed, meets⟩ := meets_of_readTag opens hread
  obtain ⟨hspan, within, hinner, hread'⟩ := readTag_cut hread
  have absent := opens.absent_before c.tags.opening.nonempty
  have hpassed : passed = c.tags.opening.chars ++ within := by
    have hrest := meets.rest.symm.trans opens.occurs
    rw [hinner, List.append_assoc, List.append_assoc, ← List.append_assoc _ within] at hrest
    exact List.append_cancel_right (List.append_cancel_left hrest)
  have opens' : Text.Leftmost c.tags.opening.chars (before ++ passed) before within := by
    have hcut := opens
    rw [meets.rest, hinner] at hcut
    exact hcut.cut
  obtain ⟨passed', meets'⟩ := meets_of_readTag (c := c.withRest (before ++ passed)) opens' hread'
  have hsame : passed' = passed := by
    have hrest : before ++ passed = before ++ passed' ++ [] := meets'.rest
    rw [List.append_nil] at hrest
    exact (List.append_cancel_left hrest).symm
  rw [hsame] at meets'
  exact .inr ⟨before, passed, t, next, meets, meets', absent, hspan⟩

/-- The first tag of a scan that comes behind some text is at the start of what follows it. -/
theorem split_gap {xs ys zs : List Item} {u : Tag}
    (h : (c.gap before).map Placed.item ++ .tag u :: zs = xs ++ .tag t :: ys) :
    ∃ more, xs = (c.gap before).map Placed.item ++ more ∧ .tag u :: zs = more ++ .tag t :: ys := by
  rcases List.append_eq_append_iff.mp h with ⟨more, hxs, hrest⟩ | ⟨more, hgap, hrest⟩
  · exact ⟨more, hxs, hrest⟩
  · cases more with
    | nil =>
      rw [List.append_nil] at hgap
      exact ⟨[], by rw [hgap, List.append_nil], hrest.symm⟩
    | cons first more =>
      obtain ⟨rfl, -⟩ := List.cons.inj hrest
      have hmem : .tag t ∈ (c.gap before).map Placed.item := by simp [hgap]
      rw [map_item_gap] at hmem
      split at hmem <;> simp at hmem

/-- Before a tag a scan finds what it finds when the text ends there, and behind the tag it goes on
as a scan that starts there. -/
theorem exists_cut (c : Cursor) (sound : c.scan.fault = none) {xs ys : List Item} {t : Tag}
    (h : c.scan.items = xs ++ .tag t :: ys) :
    ∃ (passed spelled : List Char) (next : Cursor), c.rest = passed ++ spelled ++ next.rest ∧
      next = { c.advance (passed ++ spelled) next.rest with
        tags := (xs ++ [Item.tag t]).foldl Item.after c.tags } ∧
      t.span = ⟨c.offset + Text.byteLength passed, next.offset⟩ ∧
      (c.withRest passed).scan = ⟨xs, none⟩ ∧ next.scan = ⟨ys, none⟩ := by
  rcases absent_or_meets_cut sound with
    absent | ⟨before, spelled, u, next, meets, meets', hbefore, hspan⟩
  · have hitems := congrArg Scan.items (scan_of_absent absent)
    rw [h, map_item_gap] at hitems
    split at hitems <;> cases xs <;> simp at hitems
  have hscan := meets.scan_eq
  have sound' : next.scan.fault = none := by rwa [hscan] at sound
  rw [hscan] at h
  obtain ⟨more, rfl, hrest⟩ := split_gap h
  cases more with
  | nil =>
    obtain ⟨hu, rfl⟩ := List.cons.inj hrest
    cases hu
    have plain := scan_of_absent (c := c.withRest before) hbefore
    refine ⟨before, spelled, next, meets.rest, ?_, hspan, ?_, ?_⟩
    · rw [List.append_nil, List.foldl_append, foldl_after_gap]
      exact meets.place
    · rw [plain, List.append_nil]
      rfl
    · rw [← sound']
  | cons first more =>
    obtain ⟨rfl, hitems⟩ := List.cons.inj hrest
    have shorter := meets.shorter
    obtain ⟨passed, spelled', last, hlast, hplace, hspan', hcut, hafter⟩ :=
      exists_cut next sound' hitems
    have hoffset : next.offset = c.offset + Text.byteLength (before ++ spelled) := by
      rw [meets.place]
      rfl
    have hline : next.line = c.line + (before ++ spelled).count '\n' := by
      rw [meets.place]
      rfl
    have htags : next.tags = (Item.tag u).after c.tags := by rw [meets.place]
    refine ⟨before ++ spelled ++ passed, spelled', last, ?_, ?_, ?_, ?_, hafter⟩
    · rw [meets.rest, hlast]
      simp only [List.append_assoc]
    · rw [hplace]
      simp only [advance, hoffset, hline, htags, List.foldl_append, foldl_after_gap,
        List.foldl_cons, Text.byteLength_append, List.count_append, Nat.add_assoc]
    · rw [hspan', hoffset]
      simp only [Text.byteLength_append, Nat.add_assoc]
    · have hover : (c.withRest (before ++ spelled)).extend passed =
          c.withRest (before ++ spelled ++ passed) := rfl
      have hnext : (next.withRest []).extend passed = next.withRest passed := rfl
      have hmore := meets'.scan passed
      rw [hover, hnext, hcut] at hmore
      rw [hmore]
      rfl
termination_by c.rest.length

end Cursor
end Mustache
