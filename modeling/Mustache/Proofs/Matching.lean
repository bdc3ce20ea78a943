import Mustache.Proofs.RawText

namespace Mustache

namespace Tag

variable {o c o' c' : Tag} {tags tags' xs ys xs' ys' : List Tag} {k : Nat}

/-- The two tags of the section that is opened after `k` others. -/
def Pairs (tags : List Tag) (k : Nat) (o c : Tag) : Prop :=
  ∃ before inside after, nesting tags = before ++ o :: (inside ++ c :: after) ∧ o.opens ∧
    c.closes ∧ before.countP opens = k ∧ Balanced inside

theorem closes_eq_false_of_opens (h : o.opens) : o.closes = false := by
  cases hc : o.closes with
  | false => rfl
  | true =>
    rw [opens_eq_false_of_closes hc] at h
    cases h

theorem countP_opens_nesting (tags : List Tag) :
    (nesting tags).countP opens = tags.countP opens := by
  rw [nesting, List.countP_filter]
  refine List.countP_congr fun t _ => ?_
  cases t.opens <;> simp

theorem countP_cons_of_opens (h : o.opens) (xs : List Tag) :
    (o :: xs).countP opens = xs.countP opens + 1 ∧ (o :: xs).countP closes = xs.countP closes := by
  have hnot : ¬o.closes = true := by rw [closes_eq_false_of_opens h]; exact nofun
  exact ⟨List.countP_cons_of_pos h, List.countP_cons_of_neg hnot⟩

theorem countP_cons_of_closes (h : c.closes) (xs : List Tag) :
    (c :: xs).countP opens = xs.countP opens ∧ (c :: xs).countP closes = xs.countP closes + 1 := by
  have hnot : ¬c.opens = true := by rw [opens_eq_false_of_closes h]; exact nofun
  exact ⟨List.countP_cons_of_neg hnot, List.countP_cons_of_pos h⟩

/-- At no point of a balanced word there are more sections closed than opened. -/
theorem Balanced.countP_closes (h : Balanced xs) :
    xs.countP closes = xs.countP opens ∧
      ∀ first, first <+: xs → first.countP closes ≤ first.countP opens := by
  induction h with
  | nil =>
    refine ⟨rfl, fun first hfirst => ?_⟩
    rw [List.prefix_nil.mp hfirst]
    exact Nat.le_refl _
  | @wrap o c inner rest ho hc _ _ _ ihinner ihrest =>
    obtain ⟨hinner, leinner⟩ := ihinner
    obtain ⟨hrest, lerest⟩ := ihrest
    constructor
    · rw [List.cons_append, (countP_cons_of_opens ho _).1, (countP_cons_of_opens ho _).2,
        List.countP_append, List.countP_append, (countP_cons_of_closes hc _).1,
        (countP_cons_of_closes hc _).2]
      omega
    · rintro first ⟨more, hmore⟩
      cases first with
      | nil => exact Nat.le_refl _
      | cons t first =>
        have hbehind : first ++ more = inner ++ c :: rest := (List.cons.inj hmore).2
        obtain rfl : t = o := (List.cons.inj hmore).1
        rw [(countP_cons_of_opens ho _).1, (countP_cons_of_opens ho _).2]
        -- The prefix ends in the section that is opened first, or behind it.
        rcases List.append_eq_append_iff.mp hbehind with ⟨left, hleft, -⟩ | ⟨beyond, rfl, hrest'⟩
        · have hle := leinner first ⟨left, hleft.symm⟩
          omega
        · rw [List.countP_append, List.countP_append]
          cases beyond with
          | nil => simp only [List.countP_nil]; omega
          | cons t beyond =>
            obtain ⟨rfl, rfl⟩ := List.cons.inj hrest'
            have hle := lerest beyond (List.prefix_append beyond more)
            rw [(countP_cons_of_closes hc _).1, (countP_cons_of_closes hc _).2]
            omega

/-- A balanced word ends before a tag that closes a section around it. -/
theorem Balanced.not_closed (h : Balanced xs) (closes : c.closes) (ys : List Tag) :
    ¬Balanced (xs ++ c :: ys) := by
  intro h'
  obtain ⟨heq, -⟩ := h.countP_closes
  have hprefix : xs ++ [c] <+: xs ++ c :: ys := ⟨ys, by simp⟩
  have hle := h'.countP_closes.2 _ hprefix
  rw [List.countP_append, List.countP_append, (countP_cons_of_closes closes []).1,
    (countP_cons_of_closes closes []).2] at hle
  simp only [List.countP_nil] at hle
  omega

/-- An opening tag is found by the number of those before it. -/
theorem eq_of_countP_opens (ho : o.opens) (ho' : o'.opens) (h : xs ++ o :: ys = xs' ++ o' :: ys')
    (hcount : xs.countP opens = xs'.countP opens) : xs = xs' ∧ o = o' ∧ ys = ys' := by
  rcases List.append_eq_append_iff.mp h with ⟨more, rfl, hrest⟩ | ⟨more, rfl, hrest⟩
  · cases more with
    | nil =>
      obtain ⟨rfl, rfl⟩ := List.cons.inj hrest
      exact ⟨(List.append_nil xs).symm, rfl, rfl⟩
    | cons t more =>
      obtain ⟨rfl, -⟩ := List.cons.inj hrest
      rw [List.countP_append, (countP_cons_of_opens ho more).1] at hcount
      omega
  · cases more with
    | nil =>
      obtain ⟨rfl, rfl⟩ := List.cons.inj hrest
      exact ⟨List.append_nil xs', rfl, rfl⟩
    | cons t more =>
      obtain ⟨rfl, -⟩ := List.cons.inj hrest
      rw [List.countP_append, (countP_cons_of_opens ho' more).1] at hcount
      omega

/-- The tag that closes a section is found by what it encloses. -/
theorem eq_of_balanced (hc : c.closes) (hc' : c'.closes) (h : xs ++ c :: ys = xs' ++ c' :: ys')
    (balanced : Balanced xs) (balanced' : Balanced xs') : c = c' := by
  rcases List.append_eq_append_iff.mp h with ⟨more, rfl, hrest⟩ | ⟨more, rfl, hrest⟩
  · cases more with
    | nil => exact (List.cons.inj hrest).1
    | cons t more =>
      obtain ⟨rfl, -⟩ := List.cons.inj hrest
      exact absurd balanced' (balanced.not_closed hc more)
  · cases more with
    | nil => exact (List.cons.inj hrest).1.symm
    | cons t more =>
      obtain ⟨rfl, -⟩ := List.cons.inj hrest
      exact absurd balanced (balanced'.not_closed hc' more)

theorem Pairs.unique (h : Pairs tags k o c) (h' : Pairs tags k o' c') : o = o' ∧ c = c' := by
  obtain ⟨before, inside, after, htags, ho, hc, hcount, balanced⟩ := h
  obtain ⟨before', inside', after', htags', ho', hc', hcount', balanced'⟩ := h'
  obtain ⟨-, rfl, hrest⟩ :=
    eq_of_countP_opens ho ho' (htags.symm.trans htags') (hcount.trans hcount'.symm)
  exact ⟨rfl, eq_of_balanced hc hc' hrest balanced balanced'⟩

/-- A change of tags that leaves what they are for and their names. -/
def Keeps (f : Tag → Tag) : Prop :=
  ∀ t, (f t).sigil = t.sigil ∧ (f t).source = t.source

variable {f : Tag → Tag}

theorem Keeps.opens_eq (hf : Keeps f) (t : Tag) : (f t).opens = t.opens := by
  rw [opens, opens, (hf t).1]

theorem Keeps.closes_eq (hf : Keeps f) (t : Tag) : (f t).closes = t.closes := by
  rw [closes, closes, (hf t).1]

theorem Keeps.name_eq (hf : Keeps f) (t : Tag) : (f t).name = t.name := by
  rw [name, name, (hf t).2]

theorem Keeps.nesting_map (hf : Keeps f) (tags : List Tag) :
    nesting (tags.map f) = (nesting tags).map f := by
  rw [nesting, nesting, List.filter_map]
  simp only [Function.comp_def, hf.opens_eq, hf.closes_eq]

theorem Balanced.map (hf : Keeps f) (h : Balanced xs) : Balanced (xs.map f) := by
  induction h with
  | nil => exact .nil
  | @wrap o c inner rest ho hc hname _ _ ihinner ihrest =>
    have ho' : (f o).opens := (hf.opens_eq o).trans ho
    have hc' : (f c).closes := (hf.closes_eq c).trans hc
    have hname' : (f c).name = (f o).name := by rw [hf.name_eq, hf.name_eq, hname]
    have whole := Balanced.wrap ho' hc' hname' ihinner ihrest
    simpa only [List.map_append, List.map_cons] using whole

/-- Sections have the same tags, wherever those have gone. -/
theorem Pairs.map (h : Pairs tags k o c) (hf : Keeps f)
    (htags : nesting tags' = (nesting tags).map f) : Pairs tags' k (f o) (f c) := by
  obtain ⟨before, inside, after, hsplit, ho, hc, hcount, balanced⟩ := h
  refine ⟨before.map f, inside.map f, after.map f, ?_, (hf.opens_eq o).trans ho,
    (hf.closes_eq c).trans hc, ?_, balanced.map hf⟩
  · rw [htags, hsplit]
    simp only [List.map_append, List.map_cons]
  · rw [List.countP_map, ← hcount]
    exact List.countP_congr fun t _ => by rw [Function.comp_apply, hf.opens_eq]

end Tag

theorem Item.Section.pairs {items : List Item} (s : Item.Section items) :
    Tag.Pairs (items.filterMap Item.tag?) ((s.before.filterMap Item.tag?).countP Tag.opens)
      s.opening s.closing := by
  have hopening : Tag.nesting [s.opening] = [s.opening] := by simp [Tag.nesting, s.opens]
  have hclosing : Tag.nesting [s.closing] = [s.closing] := by simp [Tag.nesting, s.closes]
  have hsplit : items.filterMap Item.tag? = s.before.filterMap Item.tag? ++ ([s.opening] ++
      (s.inside.filterMap Item.tag? ++ ([s.closing] ++ s.after.filterMap Item.tag?))) := by
    have h := congrArg (List.filterMap Item.tag?) s.split
    rw [h, List.filterMap_append, List.filterMap_cons, List.filterMap_append, List.filterMap_cons]
    rfl
  refine ⟨_, _, Tag.nesting (s.after.filterMap Item.tag?), ?_, s.opens, s.closes,
    Tag.countP_opens_nesting _, s.balanced⟩
  rw [hsplit]
  simp only [Tag.nesting_append, hopening, hclosing]
  rfl

theorem Placed.start_lt_stop (p : Placed) {t : Tag} (h : p.item = .tag t) : p.start < p.stop := by
  have hpos := Text.byteLength_pos p.tags.opening.nonempty
  simp only [stop, spelling, h, Text.byteLength_append]
  omega

theorem Item.start_lt_stop_of_scan {template : List Char} {tags : Delimiters} {t : Tag}
    (h : .tag t ∈ (scan template tags).items) : t.span.start < t.span.stop := by
  obtain ⟨placed, hitems, reads⟩ := (Cursor.start template tags).exists_reads_scan
  rw [scan, hitems] at h
  obtain ⟨p, hp, hitem⟩ := List.mem_map.mp h
  rw [reads.span_eq hp hitem]
  exact p.start_lt_stop hitem

end Mustache
