import Mustache.Proofs.Concatenation
import Mustache.Proofs.Cutting
import Mustache.Proofs.Locating

namespace Mustache

namespace Cursor

variable {c d next : Cursor} {item : Item} {items : List Item} {t : Tag} {cs w v : List Char}

/-- A text is found up to the end of the template or to the next tag. -/
theorem step_eq_text (h : c.step = .found (.text cs) next) :
    cs ≠ [] ∧ ¬c.tags.opening.chars <:+: cs ∧ next = c.advance cs next.rest ∧
      (next.rest = [] ∨ ∃ inner, Text.Leftmost c.tags.opening.chars c.rest cs inner ∧
        next.rest = c.tags.opening.chars ++ inner) := by
  unfold step at h
  split at h
  · cases h
  next hne =>
    split at h
    next hb =>
      cases h
      exact ⟨hne, Text.breakOn_eq_none_iff.mp hb, rfl, .inl rfl⟩
    next inner hb =>
      obtain ⟨t, hitem, -⟩ := finds_of_readTag (Text.breakOn_eq_some hb) h
      cases hitem
    next before inner hbefore hb =>
      cases h
      have opens := Text.breakOn_eq_some_iff.mp hb
      have absent := opens.absent_before c.tags.opening.nonempty
      exact ⟨hbefore, absent, rfl, .inr ⟨inner, opens, rfl⟩⟩

/-- No text is found right behind a text. -/
theorem step_behind_text (h : c.step = .found (.text cs) next) {cs' : List Char} {next' : Cursor} :
    next.step ≠ .found (.text cs') next' := by
  intro h'
  obtain ⟨-, -, hadvance, hrest⟩ := step_eq_text h
  have htags : next.tags = c.tags := by rw [hadvance]; rfl
  unfold step at h'
  rcases hrest with hrest | ⟨inner, -, hrest⟩
  · rw [if_pos hrest] at h'
    cases h'
  · rw [hrest, htags, Text.breakOn_append, ← hrest] at h'
    split at h'
    · cases h'
    · have hopening : next.rest = next.tags.opening.chars ++ inner := by rw [hrest, htags]
      obtain ⟨t, hitem, -⟩ := finds_of_readTag hopening h'
      cases hitem

/-- A tag is found whatever follows it. -/
theorem step_withRest_of_tag (h : c.step = .found (.tag t) next) :
    ∃ passed, c.rest = passed ++ next.rest ∧ c.tags.opening.chars <+: passed ∧
      ∀ more, (c.withRest (passed ++ more)).step = .found (.tag t) (next.withRest more) := by
  rcases step_eq_found h with ⟨cs, hitem, -⟩ | ⟨inner, hrest, hread⟩
  · cases hitem
  obtain ⟨-, within, hinner, hread'⟩ := readTag_cut hread
  refine ⟨c.tags.opening.chars ++ within, ?_, List.prefix_append _ _, fun more => ?_⟩
  · rw [hrest, hinner, List.append_assoc]
  · let here := c.withRest (c.tags.opening.chars ++ within ++ more)
    have hmore : here.readTag (within ++ more) = .found (.tag t) (next.withRest more) :=
      readTag_extend hread' more
    have opens : Text.Leftmost here.tags.opening.chars here.rest [] (within ++ more) :=
      ⟨List.append_assoc _ _ _, fun _ _ _ => Nat.zero_le _⟩
    have same : here = here.advance [] (here.tags.opening.chars ++ (within ++ more)) := by
      simp only [here, withRest, advance, List.append_assoc]
      rfl
    obtain ⟨hstep, -⟩ := scan_of_leftmost opens same
    exact hstep.trans hmore

theorem step_of_leftmost {inner : List Char}
    (opens : Text.Leftmost c.tags.opening.chars c.rest cs inner) (hcs : cs ≠ []) :
    c.step = .found (.text cs) (c.advance cs (c.tags.opening.chars ++ inner)) := by
  have hne : c.rest ≠ [] := by
    rw [opens.occurs, List.append_assoc]
    exact List.append_ne_nil_of_left_ne_nil hcs _
  obtain ⟨ch, cs, rfl⟩ := List.exists_cons_of_ne_nil hcs
  rw [step, if_neg hne, Text.breakOn_eq_some_iff.mpr opens]

/-- A text with which a scan ends takes all that is left, with no tag to come. -/
theorem rest_of_scan_text (h : c.scan = ⟨[.text cs], none⟩) :
    ¬c.tags.opening.chars <:+: c.rest ∧ c.rest = cs := by
  have sound : c.scan.fault = none := by rw [h]
  have absent : ¬c.tags.opening.chars <:+: c.rest := by
    rcases absent_or_meets sound with absent | ⟨text, passed, t, behind, meets⟩
    · exact absent
    · have hitems := meets.scan_eq
      rw [h, map_item_gap] at hitems
      split at hitems <;> cases hitems
  refine ⟨absent, ?_⟩
  have hitems := congrArg Scan.items h
  rw [scan_of_absent absent, map_item_gap] at hitems
  split at hitems
  · cases hitems
  · exact Item.text.inj (List.singleton_inj.mp hitems)

/-- A text up to a line break goes on with what follows, up to the next tag. -/
theorem step_extend_of_absent (absent : ¬c.tags.opening.chars <:+: c.rest)
    (ends : Text.EndsLine c.rest) (hne : c.rest ≠ []) (more : List Char) :
    ∃ v next, (c.extend more).step = .found (.text (c.rest ++ v)) next ∧ more = v ++ next.rest := by
  have hne' : c.rest ++ more ≠ [] := List.append_ne_nil_of_left_ne_nil hne more
  by_cases hopen : c.tags.opening.chars <:+: more
  · obtain ⟨⟨v, inner⟩, hb⟩ := Option.ne_none_iff_exists'.mp
      (fun none => Text.breakOn_eq_none_iff.mp none hopen)
    have opens := Text.breakOn_eq_some_iff.mp hb
    have hne'' : c.rest ++ v ≠ [] := List.append_ne_nil_of_left_ne_nil hne v
    refine ⟨v, _, step_of_leftmost (c := c.extend more)
      (opens.behind c.tags.opening.solid ends absent) hne'', ?_⟩
    rw [opens.occurs, List.append_assoc]
    rfl
  · have hnone := Text.breakOn_eq_none_iff.mpr
      (Text.not_infix_append c.tags.opening.solid ends absent hopen)
    refine ⟨more, (c.extend more).advance (c.rest ++ more) [], ?_, (List.append_nil _).symm⟩
    rw [step, if_neg (show (c.extend more).rest ≠ [] from hne'),
      show Text.breakOn (c.extend more).tags.opening.chars (c.extend more).rest = none from hnone]
    rfl

/-- A text is found up to the next tag whatever follows the start of that. -/
theorem step_withRest_of_text (h : c.step = .found (.text cs) next) {pre more : List Char}
    (hrest : next.rest = c.tags.opening.chars ++ pre ++ more) :
    (c.withRest (cs ++ (c.tags.opening.chars ++ pre))).step =
      .found (.text cs) (next.withRest (c.tags.opening.chars ++ pre)) := by
  obtain ⟨hcs, -, hadvance, hnext⟩ := step_eq_text h
  let here := c.withRest (cs ++ (c.tags.opening.chars ++ pre))
  have opens : Text.Leftmost here.tags.opening.chars here.rest cs pre := by
    rcases hnext with hnil | ⟨inner, opens, hinner⟩
    · rw [hnil, List.append_assoc] at hrest
      have hempty := (List.append_eq_nil_iff.mp hrest.symm).1
      exact absurd hempty c.tags.opening.nonempty
    · rw [hinner, List.append_assoc] at hrest
      have hpre : inner = pre ++ more := List.append_cancel_left hrest
      rw [opens.occurs, hpre] at opens
      have further : Text.Leftmost c.tags.opening.chars (here.rest ++ more) cs (pre ++ more) := by
        simpa only [here, withRest, List.append_assoc] using opens
      exact further.cut
  have found := step_of_leftmost opens hcs
  rw [hadvance]
  exact found

/-- A scan comes to a text by way of the same items, also when the template goes on. -/
theorem Passes.extend (h : c.Passes items d) (found : d.step = .found (.text cs) next)
    (more : List Char) : (c.extend more).Passes items (d.extend more) := by
  induction h with
  | here c => exact .here _
  | @step c n d item items hstep passes ih =>
    refine .step ?_ (ih found)
    cases item with
    | tag t =>
      obtain ⟨passed, hrest, -, hmore⟩ := step_withRest_of_tag hstep
      have hextend : c.extend more = c.withRest (passed ++ (n.rest ++ more)) := by
        rw [Cursor.extend, hrest, List.append_assoc]
        rfl
      rw [hextend]
      exact hmore _
    | text cs' =>
      obtain ⟨hcs, -, hadvance, hrest⟩ := step_eq_text hstep
      rcases hrest with hnil | ⟨inner, opens, hinner⟩
      · -- Behind the last text nothing is found any more.
        have hended : n.step = .ended := by rw [Cursor.step, if_pos hnil]
        cases passes with
        | here =>
          rw [hended] at found
          cases found
        | step hother =>
          rw [hended] at hother
          cases hother
      · have hfound := step_of_leftmost (c := c.extend more) (opens.extend more) hcs
        rw [hinner] at hadvance
        rw [hadvance]
        simp only [Cursor.extend, advance, List.append_assoc] at hfound ⊢
        exact hfound

/-- Between a text and another one there is a tag, right behind the first. -/
theorem Passes.head?_eq_tag (h : next.Passes items d) (behind : c.step = .found (.text cs) next)
    {last : Cursor} (found : d.step = .found (.text w) last) :
    ∃ t, items.head? = some (.tag t) := by
  cases h with
  | here => exact absurd found (step_behind_text behind)
  | @step _ _ _ item _ first _ =>
    cases item with
    | text cs' => exact absurd first (step_behind_text behind)
    | tag t => exact ⟨t, rfl⟩

/-- A scan comes to a point by way of the same items, also when the template ends in the text that
is found there. -/
theorem Passes.cut (h : c.Passes items d) (found : d.step = .found (.text (w ++ v)) next)
    (hw : w ≠ []) :
    ∃ passed, c.rest = passed ++ d.rest ∧
      (c.withRest (passed ++ w)).scan = ⟨items ++ [.text w], none⟩ ∧
      ∀ t, items.head? = some (.tag t) → c.tags.opening.chars <+: passed := by
  induction h with
  | here c =>
    obtain ⟨-, absent, -⟩ := step_eq_text found
    have absent' : ¬c.tags.opening.chars <:+: w :=
      fun hin => absent (hin.trans (List.prefix_append w v).isInfix)
    refine ⟨[], rfl, ?_, nofun⟩
    have hscan := scan_of_absent (c := c.withRest w) absent'
    rw [map_item_gap, show (c.withRest w).rest = w from rfl, if_neg hw] at hscan
    exact hscan
  | @step c n d item items hstep passes ih =>
    obtain ⟨passed, hrest, hscan, hhead⟩ := ih found
    cases item with
    | tag t =>
      obtain ⟨spelled, hspelled, opening, hmore⟩ := step_withRest_of_tag hstep
      refine ⟨spelled ++ passed, ?_, ?_, fun _ _ => opening.trans (List.prefix_append _ _)⟩
      · rw [hspelled, hrest, List.append_assoc]
      · rw [List.append_assoc, scan_of_found (hmore _), hscan]
        rfl
    | text cs =>
      -- The tag behind the text is still there, so that the text still ends where it did.
      obtain ⟨t, ht⟩ := passes.head?_eq_tag hstep found
      have htags : n.tags = c.tags := by
        obtain ⟨-, -, hadvance, -⟩ := step_eq_text hstep
        rw [hadvance]
        rfl
      have opening : c.tags.opening.chars <+: passed := htags ▸ hhead t ht
      obtain ⟨pre, rfl⟩ := opening
      obtain ⟨htext, -⟩ := advance_of_step hstep
      have hnext : n.rest = c.tags.opening.chars ++ (pre ++ w) ++ (v ++ next.rest) := by
        have hd : d.rest = w ++ v ++ next.rest := (advance_of_step found).1
        rw [hrest, hd]
        simp only [List.append_assoc]
      have hcut := scan_of_found (step_withRest_of_text hstep hnext)
      refine ⟨cs ++ (c.tags.opening.chars ++ pre), ?_, ?_, nofun⟩
      · rw [htext, hrest, List.append_assoc cs]
        rfl
      · rw [List.append_assoc] at hscan
        rw [List.append_assoc, List.append_assoc, hcut, hscan]
        rfl

end Cursor

/-- A place in a template where a line starts, with the delimiters in effect there: the start of the
template, or a place right behind a newline in a text. A newline in a tag starts no line. -/
inductive LineStart (template : List Char) (tags : Delimiters) :
    List Char → List Char → Delimiters → Prop where
  | first : LineStart template tags [] template tags
  | newline {items : List Item} {c next : Cursor} {passed u v : List Char}
      (passes : (Cursor.start template tags).Passes items c) (place : template = passed ++ c.rest)
      (found : c.step = .found (.text (u ++ '\n' :: v)) next) :
      LineStart template tags (passed ++ u ++ ['\n']) (v ++ next.rest) c.tags

namespace LineStart

variable {template before after : List Char} {tags tags' : Delimiters}

theorem template_eq (h : LineStart template tags before after tags') :
    template = before ++ after := by
  cases h with
  | first => rfl
  | @newline items c next passed u v passes place found =>
    obtain ⟨hrest, -⟩ := Cursor.advance_of_step found
    have htext : c.rest = u ++ '\n' :: v ++ next.rest := hrest
    rw [place, htext]
    simp

/-- Whatever follows, what stands before the start of a line can be read, and its lines are
whole. -/
theorem wholeLines (h : LineStart template tags before after tags') :
    WholeLines tags before tags' := by
  cases h with
  | first =>
    have hscan : scan [] tags = ⟨[], none⟩ := Cursor.scan_of_ended rfl
    refine ⟨nofun, by rw [hscan], ?_⟩
    rw [Delimiters.atEnd, hscan]
    rfl
  | @newline items c next passed u v passes place found =>
    have found' : c.step = .found (.text (u ++ ['\n'] ++ v)) next := by simpa using found
    obtain ⟨passed', hrest, hscan, -⟩ := passes.cut found' (by simp)
    obtain rfl : passed = passed' := List.append_cancel_right (place.symm.trans hrest)
    have hbefore : scan (passed ++ u ++ ['\n']) tags = ⟨items ++ [.text (u ++ ['\n'])], none⟩ := by
      rw [List.append_assoc]
      exact hscan
    refine ⟨Text.endsLine_concat _, by rw [hbefore], ?_⟩
    rw [Delimiters.atEnd, hbefore, List.foldl_append, passes.tags_eq]
    rfl

/-- A line starts right behind whole lines. -/
theorem of_wholeLines (h : WholeLines tags before tags') (after : List Char) :
    LineStart (before ++ after) tags before after tags' := by
  obtain ⟨ends, sound, rfl⟩ := h
  rcases List.eq_nil_or_concat before with rfl | ⟨init, ch, hinit⟩
  · have hscan : scan [] tags = ⟨[], none⟩ := Cursor.scan_of_ended rfl
    rw [Delimiters.atEnd, hscan]
    exact .first
  rw [List.concat_eq_append] at hinit
  obtain rfl : ch = '\n' := ends ch (by rw [hinit, List.getLast?_concat]; rfl)
  let c : Cursor := .start before tags
  obtain ⟨items, cs, hitems⟩ := c.exists_last_text sound hinit
  obtain ⟨d, next, passes, found⟩ := c.exists_passes_of_items hitems
  have hlast : d.scan = ⟨[.text (cs ++ ['\n'])], none⟩ := by
    have hscan := passes.scan_eq
    have hfault : d.scan.fault = none := by rw [← sound, scan, hscan]
    rw [hscan] at hitems
    rw [← hfault, ← List.append_cancel_left hitems]
  obtain ⟨absent, hrest⟩ := Cursor.rest_of_scan_text hlast
  obtain ⟨passed, -, stands⟩ := passes.stands (Cursor.stands_start before tags)
  have hbefore : before = passed ++ cs ++ ['\n'] := by
    have hplace := stands.rest
    rwa [hrest, List.nil_append, ← List.append_assoc] at hplace
  have place : before ++ after = passed ++ (d.extend after).rest := by
    rw [hbefore, Cursor.extend, hrest]
    simp only [List.append_assoc]
  have hatEnd : tags.atEnd before = (d.extend after).tags := by
    have hscan : (scan before tags).items = items ++ [.text (cs ++ ['\n'])] := hitems
    rw [Delimiters.atEnd, hscan, List.foldl_append]
    exact passes.tags_eq.symm
  obtain ⟨v, next', found', hafter⟩ := d.step_extend_of_absent absent
    (hrest ▸ Text.endsLine_concat cs) (by simp [hrest]) after
  rw [hrest, List.append_assoc] at found'
  have starts : LineStart (before ++ after) tags (passed ++ cs ++ ['\n']) (v ++ next'.rest)
      (d.extend after).tags := .newline (passes.extend found after) place found'
  rwa [← hafter, ← hbefore, ← hatEnd] at starts

end LineStart

/-- Lines start right behind whole lines and nowhere else. -/
theorem lineStart_iff {template before after : List Char} {tags tags' : Delimiters} :
    LineStart template tags before after tags' ↔
      template = before ++ after ∧ WholeLines tags before tags' := by
  constructor
  · exact fun h => ⟨h.template_eq, h.wholeLines⟩
  · rintro ⟨rfl, h⟩
    exact .of_wholeLines h after

end Mustache
