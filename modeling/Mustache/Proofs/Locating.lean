import Mathlib.Algebra.GroupWithZero.Nat
import Mustache.Proofs.Seams

namespace Mustache

theorem Text.count_newline_of_solid {cs : List Char} (h : ∀ c ∈ cs, isWhiteSpace c = false) :
    cs.count '\n' = 0 := by
  rw [List.count_eq_zero]
  intro hmem
  have hsolid := h '\n' hmem
  cases hsolid

theorem Sigil.count_newline_chars (sigil : Sigil) : sigil.chars.count '\n' = 0 := by
  cases sigil <;> rfl

theorem Sigil.count_newline_ending (sigil : Sigil) (closing : Marker) :
    (sigil.ending closing).count '\n' = 0 := by
  have hclosing := Text.count_newline_of_solid closing.solid
  cases sigil <;> simpa [ending] using hclosing

/-- The newlines in what an item says itself, apart from its delimiters and its sigil. -/
def Item.breaks : Item → Nat
  | text cs => cs.count '\n'
  | tag t => t.source.count '\n'

/-- No delimiter and no sigil has a newline in it. -/
theorem Placed.count_newline_spelling (p : Placed) : p.spelling.count '\n' = p.item.breaks := by
  obtain ⟨start, tags, item⟩ := p
  cases item with
  | text cs => rfl
  | tag t =>
    have hopening := Text.count_newline_of_solid tags.opening.solid
    have hchars := t.sigil.count_newline_chars
    have hending := t.sigil.count_newline_ending tags.closing
    simp only [spelling, Item.breaks, List.count_append]
    omega

namespace Cursor

variable {c next last : Cursor} {item : Item} {items : List Item} {t : Tag} {inner : List Char}
  {site : FaultSite}

/-- The items on the way from one point of a scan to another. -/
inductive Passes : Cursor → List Item → Cursor → Prop where
  | here (c : Cursor) : Passes c [] c
  | step {c next last : Cursor} {item : Item} {items : List Item}
      (found : c.step = .found item next) (others : Passes next items last) :
      Passes c (item :: items) last

/-- How a point lies in a template of which `before` has been passed. -/
structure Stands (c : Cursor) (template before : List Char) : Prop where
  rest : template = before ++ c.rest
  offset : c.offset = Text.byteLength before
  line : c.line = before.count '\n' + 1

theorem stands_start (template : List Char) (tags : Delimiters) :
    (start template tags).Stands template [] :=
  ⟨rfl, rfl, rfl⟩

/-- A tag that is read stands right behind the point, and the scan goes on right behind the tag. -/
theorem finds_of_readTag (hrest : c.rest = c.tags.opening.chars ++ inner)
    (h : c.readTag inner = .found item next) :
    ∃ t, item = .tag t ∧ c.Finds [] t next.rest ∧
      next = { c.advance (c.tagHere t).spelling next.rest with tags := item.after c.tags } := by
  have starts := Sigil.starts_split inner
  obtain ⟨sigil, body, hsplit⟩ : ∃ sigil body, Sigil.split inner = (sigil, body) := ⟨_, _, rfl⟩
  rw [hsplit] at starts
  obtain ⟨source, after, tags, hb, htags, rfl, rfl⟩ := (readTag_eq_found_iff hsplit).mp h
  have opens : Text.Leftmost c.tags.opening.chars c.rest [] inner :=
    ⟨hrest, fun _ _ _ => Nat.zero_le _⟩
  have closes := Text.breakOn_eq_some_iff.mp hb
  have hafter : tags = (Item.tag ⟨sigil, source, c.line, c.offset, c.offset + Text.byteLength
      (c.tags.opening.chars ++ sigil.chars ++ source ++ sigil.ending c.tags.closing)⟩).after
        c.tags := by
    unfold Item.after
    split at htags
    next hswitch => simp only [if_pos hswitch, htags, Option.getD_some]
    next hswitch => simp only [if_neg hswitch, htags]
  have ends := sigil.ends_ending c.tags.closing
  exact ⟨_, rfl, ⟨⟨inner, body, _, opens, starts, ends, closes⟩, rfl, rfl, rfl⟩,
    by rw [hafter]; rfl⟩

/-- Why a tag cannot be read: its ending is missing, or it is a switch without a word in it. -/
theorem failed_of_readTag (hrest : c.rest = c.tags.opening.chars ++ inner)
    (h : c.readTag inner = .failed site) :
    (∃ sigil body ending, Sigil.Starts sigil inner body ∧ sigil.Ends c.tags.closing ending ∧
      ¬ending <:+: body ∧ site = ⟨.unclosedTag c.tags.opening.text, c.line, c.offset,
        c.offset + Text.byteLength c.rest⟩) ∨
    ∃ t after, c.Finds [] t after ∧ t.sigil = .delimiterSwitch ∧
      (∀ ch ∈ t.source, Text.isWhiteSpace ch) ∧
      site = ⟨.invalidDelimiters (String.ofList t.source), t.line, t.span⟩ := by
  have starts := Sigil.starts_split inner
  have ends := (Sigil.split inner).1.ends_ending c.tags.closing
  have opens : Text.Leftmost c.tags.opening.chars c.rest [] inner :=
    ⟨hrest, fun _ _ _ => Nat.zero_le _⟩
  simp only [readTag] at h
  split at h
  next hb =>
    cases h
    exact .inl ⟨_, _, _, starts, ends, Text.breakOn_eq_none_iff.mp hb, rfl⟩
  next source after hb =>
    have closes := Text.breakOn_eq_some_iff.mp hb
    split at h
    next hswitch =>
      split at h
      next hnone =>
        cases h
        have blank := Delimiters.ofSwitch?_eq_none_iff.mp hnone
        exact .inr ⟨⟨_, source, c.line, _⟩, after,
          ⟨⟨inner, _, _, opens, starts, ends, closes⟩, rfl, rfl, rfl⟩, hswitch, blank, rfl⟩
      next => cases h
    next => cases h

theorem step_eq_found (h : c.step = .found item next) :
    (∃ cs, item = .text cs ∧ cs ≠ [] ∧ c.rest = cs ++ next.rest ∧
      next = c.advance cs next.rest) ∨
    ∃ inner, c.rest = c.tags.opening.chars ++ inner ∧ c.readTag inner = .found item next := by
  unfold step at h
  split at h
  · cases h
  next hne =>
    split at h
    next =>
      cases h
      exact .inl ⟨c.rest, rfl, hne, (List.append_nil _).symm, rfl⟩
    next inner hb => exact .inr ⟨inner, Text.breakOn_eq_some hb, h⟩
    next before inner hbefore hb =>
      cases h
      have hrest := Text.breakOn_eq_some hb
      rw [List.append_assoc] at hrest
      exact .inl ⟨before, rfl, hbefore, hrest, rfl⟩

theorem finds_of_step (h : c.step = .found (.tag t) next) :
    c.Finds [] t next.rest ∧
      next = { c.advance (c.tagHere t).spelling next.rest with
        tags := (Item.tag t).after c.tags } := by
  rcases step_eq_found h with ⟨cs, hitem, -⟩ | ⟨inner, hrest, hread⟩
  · cases hitem
  · obtain ⟨u, hitem, finds, hnext⟩ := finds_of_readTag hrest hread
    cases hitem
    exact ⟨finds, hnext⟩

/-- One step: what an item spells is passed, and the delimiters are what the item makes them. -/
theorem advance_of_step (h : c.step = .found item next) :
    let here : Placed := ⟨c.offset, c.tags, item⟩
    c.rest = here.spelling ++ next.rest ∧
      next = { c.advance here.spelling next.rest with tags := item.after c.tags } := by
  rcases step_eq_found h with ⟨cs, rfl, -, hrest, hnext⟩ | ⟨inner, hrest, hread⟩
  · exact ⟨hrest, hnext⟩
  · obtain ⟨t, rfl, finds, hnext⟩ := finds_of_readTag hrest hread
    have hspelled := finds.rest_eq
    rw [List.nil_append] at hspelled
    exact ⟨hspelled, hnext⟩

theorem step_eq_failed (h : c.step = .failed site) :
    ∃ inner, c.rest = c.tags.opening.chars ++ inner ∧ c.readTag inner = .failed site := by
  unfold step at h
  split at h
  · cases h
  · split at h
    next => cases h
    next inner hb => exact ⟨inner, Text.breakOn_eq_some hb, h⟩
    next => cases h

theorem Stands.step {template before : List Char} (stands : c.Stands template before)
    (h : c.step = .found item next) :
    ∃ passed, passed.count '\n' = item.breaks ∧ next.Stands template (before ++ passed) := by
  obtain ⟨hrest, hnext⟩ := advance_of_step h
  let here : Placed := ⟨c.offset, c.tags, item⟩
  have htemplate : template = before ++ here.spelling ++ next.rest := by
    rw [stands.rest, hrest, List.append_assoc]
  have hoffset : next.offset = c.offset + Text.byteLength here.spelling := by rw [hnext]; rfl
  have hline : next.line = c.line + here.spelling.count '\n' := by rw [hnext]; rfl
  refine ⟨here.spelling, here.count_newline_spelling, htemplate, ?_, ?_⟩
  · rw [hoffset, stands.offset, Text.byteLength_append]
  · rw [hline, stands.line, List.count_append]
    omega

namespace Passes

/-- The run of a scan: at every point it comes to, the offset is that of the text passed, and the
line is one more than the newlines in it, which all stand in texts and in the sources of tags. -/
theorem stands (h : c.Passes items last) {template before : List Char}
    (start : c.Stands template before) :
    ∃ passed, passed.count '\n' = (items.map Item.breaks).sum ∧
      last.Stands template (before ++ passed) := by
  induction h generalizing before with
  | here c => exact ⟨[], rfl, by rwa [List.append_nil]⟩
  | step found _ ih =>
    obtain ⟨first, hfirst, next⟩ := start.step found
    obtain ⟨passed, hpassed, last⟩ := ih next
    refine ⟨first ++ passed, ?_, by rwa [← List.append_assoc]⟩
    rw [List.count_append, hfirst, hpassed, List.map_cons, List.sum_cons]

theorem tags_eq (h : c.Passes items last) : last.tags = items.foldl Item.after c.tags := by
  induction h with
  | here c => rfl
  | step found _ ih =>
    have htags := congrArg Cursor.tags (advance_of_step found).2
    rw [ih, htags]
    rfl

theorem scan_eq (h : c.Passes items last) :
    c.scan = ⟨items ++ last.scan.items, last.scan.fault⟩ := by
  induction h with
  | here c => rfl
  | step found _ ih =>
    rw [scan_of_found found, ih]
    rfl

end Passes

/-- Every item of a scan is found at a point that the scan comes to. -/
theorem exists_passes_of_items (c : Cursor) {before after : List Item}
    (h : c.scan.items = before ++ item :: after) :
    ∃ d next, c.Passes before d ∧ d.step = .found item next := by
  induction before generalizing c with
  | nil =>
    cases hstep : c.step with
    | ended =>
      rw [scan_of_ended hstep] at h
      cases h
    | failed site =>
      rw [scan_of_failed hstep] at h
      cases h
    | found first next =>
      rw [scan_of_found hstep] at h
      cases h
      exact ⟨c, next, .here c, hstep⟩
  | cons first before ih =>
    cases hstep : c.step with
    | ended =>
      rw [scan_of_ended hstep] at h
      cases h
    | failed site =>
      rw [scan_of_failed hstep] at h
      cases h
    | found found next =>
      rw [scan_of_found hstep, List.cons_append, List.cons.injEq] at h
      obtain ⟨rfl, hitems⟩ := h
      obtain ⟨d, behind, passes, hd⟩ := ih next hitems
      exact ⟨d, behind, .step hstep passes, hd⟩

/-- The fault of a scan is where it comes to after all its items. -/
theorem exists_passes_of_fault (c : Cursor) (h : c.scan.fault = some site) :
    ∃ d, c.Passes c.scan.items d ∧ d.step = .failed site := by
  cases hstep : c.step with
  | ended =>
    rw [scan_of_ended hstep] at h
    cases h
  | failed found =>
    rw [scan_of_failed hstep] at h ⊢
    cases h
    exact ⟨c, .here c, hstep⟩
  | found item next =>
    have shorter := step_shorter hstep
    rw [scan_of_found hstep] at h ⊢
    obtain ⟨d, passes, hd⟩ := exists_passes_of_fault next h
    exact ⟨d, .step hstep passes, hd⟩
termination_by c.rest.length

theorem exists_passes_of_tags (c : Cursor) {before after : List Tag}
    (h : c.scan.tags = before ++ t :: after) :
    ∃ passed d next, c.Passes passed d ∧ passed.filterMap Item.tag? = before ∧
      d.step = .found (.tag t) next := by
  obtain ⟨front, back, hitems, hfront, hback⟩ := List.filterMap_eq_append_iff.mp h
  obtain ⟨texts, item, behind, rfl, htexts, hitem, -⟩ := List.filterMap_eq_cons_iff.mp hback
  have hnone : texts.filterMap Item.tag? = [] := List.filterMap_eq_nil_iff.mpr htexts
  cases item with
  | text cs => cases hitem
  | tag u =>
    cases hitem
    rw [← List.append_assoc] at hitems
    obtain ⟨d, next, passes, hd⟩ := exists_passes_of_items c hitems
    refine ⟨front ++ texts, d, next, passes, ?_, hd⟩
    rw [List.filterMap_append, hfront, hnone, List.append_nil]

/-- The text that a fault is about, right behind a point of a scan, where `passed` are the tags
before it and `all` the tags of the whole scan. -/
inductive Blames (c : Cursor) (passed all : List Tag) : Fault → List Char → List Char → Prop where
  /-- The ending that the sigil asks for is missing, so that the tag has no end but that of the
  template. -/
  | unclosedTag {sigil : Sigil} {inner body ending : List Char}
      (opens : c.rest = c.tags.opening.chars ++ inner) (starts : sigil.Starts inner body)
      (ends : sigil.Ends c.tags.closing ending) (absent : ¬ending <:+: body) :
      Blames c passed all (.unclosedTag c.tags.opening.text) c.rest []
  | invalidDelimiters {t : Tag} {after : List Char} (finds : c.Finds [] t after)
      (switch : t.sigil = .delimiterSwitch) (blank : ∀ ch ∈ t.source, Text.isWhiteSpace ch) :
      Blames c passed all (.invalidDelimiters (String.ofList t.source)) (c.tagHere t).spelling after
  /-- An opening tag without a name, or a closing tag that does not fit. -/
  | offence {t : Tag} {after : List Char} {fault : Fault} (finds : c.Finds [] t after)
      (offence : t.Offence passed ⟨fault, t.line, t.span⟩) :
      Blames c passed all fault (c.tagHere t).spelling after
  /-- The tag that opened the section, not the place where its end is missed. -/
  | unclosedSection {t : Tag} {after : List Char} (finds : c.Finds [] t after)
      (innermost : Tag.Innermost t all) :
      Blames c passed all (.unclosedSection t.name) (c.tagHere t).spelling after

theorem Blames.rest_eq {passed all : List Tag} {fault : Fault} {spelled after : List Char}
    (h : c.Blames passed all fault spelled after) : c.rest = spelled ++ after := by
  cases h with
  | unclosedTag => exact (List.append_nil _).symm
  | invalidDelimiters finds | offence finds | unclosedSection finds =>
    simpa using finds.rest_eq

theorem Blames.opening_prefix {passed all : List Tag} {fault : Fault} {spelled after : List Char}
    (h : c.Blames passed all fault spelled after) : c.tags.opening.chars <+: spelled := by
  cases h with
  | unclosedTag opens =>
    rw [opens]
    exact List.prefix_append _ _
  | invalidDelimiters finds | offence finds | unclosedSection finds =>
    simp only [tagHere, Placed.spelling, List.append_assoc]
    exact List.prefix_append _ _

/-- A tag that is found at a point has the line of the point and the bytes from there on. -/
theorem Finds.place {after : List Char} (h : c.Finds [] t after) :
    t.line = c.line ∧
      t.span = ⟨c.offset, c.offset + Text.byteLength (c.tagHere t).spelling⟩ := by
  have hline : t.line = c.line := h.line
  have hstart : t.span.start = c.offset := h.start
  have hstop : t.span.stop = t.span.start + Text.byteLength (c.tagHere t).spelling := h.stop
  rw [hstart] at hstop
  refine ⟨hline, ?_⟩
  rw [← hstop, ← hstart]

end Cursor

theorem Tag.Offence.line_eq {before : List Tag} {t : Tag} {site : FaultSite}
    (h : t.Offence before site) : site.line = t.line := by
  cases h <;> rfl

/-- Whatever a template is refused for, it is about a tag at a point that its scan comes to. -/
theorem Scan.exists_blamed {c : Cursor} {site : FaultSite} (h : c.scan.verdict = .error site) :
    ∃ passed d spelled after, c.Passes passed d ∧
      d.Blames (passed.filterMap Item.tag?) c.scan.tags site.fault spelled after ∧
      site.line = d.line ∧ site.span = ⟨d.offset, d.offset + Text.byteLength spelled⟩ := by
  rcases verdict_error h with ⟨offence, -⟩ | ⟨-, o, innermost, rfl⟩
  · rcases offence_cases offence with fault | ⟨before, t, after, place, offence⟩
    · obtain ⟨d, passes, hd⟩ := c.exists_passes_of_fault fault
      obtain ⟨inner, hrest, hread⟩ := Cursor.step_eq_failed hd
      rcases Cursor.failed_of_readTag hrest hread with
        ⟨sigil, body, ending, starts, ends, absent, rfl⟩ | ⟨t, after, finds, switch, blank, rfl⟩
      · exact ⟨_, d, d.rest, [], passes, .unclosedTag hrest starts ends absent, rfl, rfl⟩
      · obtain ⟨hline, hspan⟩ := finds.place
        exact ⟨_, d, _, after, passes, .invalidDelimiters finds switch blank, hline, hspan⟩
    · obtain ⟨passed, d, next, passes, rfl, hd⟩ := c.exists_passes_of_tags place
      obtain ⟨finds, -⟩ := Cursor.finds_of_step hd
      obtain ⟨hline, hspan⟩ := finds.place
      have hoffence : t.Offence (passed.filterMap Item.tag?) ⟨site.fault, t.line, t.span⟩ := by
        rw [← offence.line_eq, ← offence.span_eq]
        exact offence
      rw [← offence.line_eq] at hline
      rw [← offence.span_eq] at hspan
      exact ⟨passed, d, _, _, passes, .offence finds hoffence, hline, hspan⟩
  · have hmem : o ∈ c.scan.tags := by
      obtain ⟨-, before, inner, hnesting, -⟩ := innermost
      have hword : o ∈ Tag.nesting c.scan.tags := by simp [hnesting]
      exact (List.mem_filter.mp hword).1
    obtain ⟨before, after, place⟩ := List.append_of_mem hmem
    obtain ⟨passed, d, next, passes, -, hd⟩ := c.exists_passes_of_tags place
    obtain ⟨finds, -⟩ := Cursor.finds_of_step hd
    obtain ⟨hline, hspan⟩ := finds.place
    exact ⟨passed, d, _, _, passes, .unclosedSection finds innermost, hline, hspan⟩

end Mustache
