import Mustache.Program.Parse
import Mustache.Proofs.Nesting
import Mustache.Proofs.Trimming

namespace Mustache

def Item.tag? : Item → Option Tag
  | .text _ => none
  | .tag t => some t

/-- A tag that is at fault, given the tags before it. -/
inductive Tag.Offence (before : List Tag) (t : Tag) : FaultSite → Prop where
  | unnamed (opens : t.opens) (name : t.name = "") :
      Offence before t ⟨.emptySectionName, t.line, t.span⟩
  /-- A closing tag where all sections are closed. -/
  | stray (closes : t.closes) (balanced : Balanced (nesting before)) :
      Offence before t ⟨.unmatchedClose t.name none, t.line, t.span⟩
  /-- A closing tag for another section than the innermost. -/
  | mismatch {o : Tag} (closes : t.closes) (innermost : Innermost o before) (ne : o.name ≠ t.name) :
      Offence before t ⟨.unmatchedClose t.name (some o.name), t.line, t.span⟩

namespace Scan

def tags (s : Scan) : List Tag :=
  s.items.filterMap Item.tag?

/-- Where tags start, the one that could not be read included. -/
def starts (s : Scan) : List Nat :=
  s.tags.map (·.span.start) ++ (s.fault.map (·.span.start)).toList

inductive Offence (s : Scan) : FaultSite → Prop where
  | unclosedTag {opening : String} {line : Nat} {span : Span}
      (fault : s.fault = some ⟨.unclosedTag opening, line, span⟩) :
      Offence s ⟨.unclosedTag opening, line, span⟩
  | invalidDelimiters {tag : String} {line : Nat} {span : Span}
      (fault : s.fault = some ⟨.invalidDelimiters tag, line, span⟩) :
      Offence s ⟨.invalidDelimiters tag, line, span⟩
  | tag {before after : List Tag} {t : Tag} {site : FaultSite}
      (place : s.tags = before ++ t :: after) (offence : t.Offence before site) : Offence s site

/-- An offence in front of all others in the template. -/
def FirstOffence (s : Scan) (site : FaultSite) : Prop :=
  s.Offence site ∧ ∀ other, s.Offence other → other = site ∨ site.span.start < other.span.start

def verdict (s : Scan) : Except FaultSite Unit :=
  match Tag.openAfter [] s.tags with
  | .error site => .error site
  | .ok sections =>
    match s.fault, sections with
    | some site, _ => .error site
    | none, [] => .ok ()
    | none, innermost :: _ =>
      .error ⟨.unclosedSection innermost.name, innermost.line, innermost.span⟩

end Scan

namespace Text

theorem byteLength_pos {cs : List Char} (h : cs ≠ []) : 0 < byteLength cs := by
  cases cs with
  | nil => contradiction
  | cons c cs =>
    have := c.utf8Size_pos
    simp only [byteLength]
    omega

end Text

namespace Cursor

theorem readTag_failed {c : Cursor} {inner : List Char} {site : FaultSite}
    (h : c.readTag inner = .failed site) :
    site.span.start = c.offset ∧ ((∃ opening, site.fault = .unclosedTag opening) ∨
      ∃ tag, site.fault = .invalidDelimiters tag) := by
  simp only [readTag] at h
  split at h
  · cases h
    exact ⟨rfl, .inl ⟨_, rfl⟩⟩
  · split at h
    · split at h
      · cases h
        exact ⟨rfl, .inr ⟨_, rfl⟩⟩
      · cases h
    · cases h

theorem readTag_found {c next : Cursor} {inner : List Char} {item : Item}
    (h : c.readTag inner = .found item next) :
    c.offset < next.offset ∧ ∀ t, item.tag? = some t → t.span.start = c.offset := by
  have hopen := Text.byteLength_pos c.tags.opening.nonempty
  simp only [readTag] at h
  split at h
  · cases h
  · split at h
    · split at h
      · cases h
      · cases h
        simp only [advance, Text.byteLength_append, Item.tag?, Option.some.injEq]
        exact ⟨by omega, fun t ht => ht ▸ rfl⟩
    · cases h
      simp only [advance, Text.byteLength_append, Item.tag?, Option.some.injEq]
      exact ⟨by omega, fun t ht => ht ▸ rfl⟩

theorem step_failed {c : Cursor} {site : FaultSite} (h : c.step = .failed site) :
    site.span.start = c.offset ∧ ((∃ opening, site.fault = .unclosedTag opening) ∨
      ∃ tag, site.fault = .invalidDelimiters tag) := by
  unfold step at h
  split at h
  · cases h
  · split at h
    · cases h
    · exact readTag_failed h
    · cases h

/-- Every item takes up some of the template, and a tag starts where it was looked for. -/
theorem step_found {c next : Cursor} {item : Item} (h : c.step = .found item next) :
    c.offset < next.offset ∧ ∀ t, item.tag? = some t → t.span.start = c.offset := by
  unfold step at h
  split at h
  · cases h
  next hne =>
    split at h
    · cases h
      have := Text.byteLength_pos hne
      simp only [advance, Item.tag?]
      exact ⟨by omega, by simp⟩
    · exact readTag_found h
    next before inner hbefore _ =>
      cases h
      have := Text.byteLength_pos hbefore
      simp only [advance, Item.tag?]
      exact ⟨by omega, by simp⟩

theorem fault_of_scan {c : Cursor} {site : FaultSite} (h : c.scan.fault = some site) :
    (∃ opening, site.fault = .unclosedTag opening) ∨
      ∃ tag, site.fault = .invalidDelimiters tag := by
  fun_induction Cursor.scan c with
  | case1 c _ => cases h
  | case2 c found hf =>
    cases h
    exact (step_failed hf).2
  | case3 c item next _ _ later ih => exact ih h

/-- The tags come in the order in which they start. -/
theorem starts_scan (c : Cursor) :
    (∀ n ∈ c.scan.starts, c.offset ≤ n) ∧ c.scan.starts.Pairwise (· < ·) := by
  fun_induction Cursor.scan c with
  | case1 c _ => simp [Scan.starts, Scan.tags]
  | case2 c site hf => simp [Scan.starts, Scan.tags, (step_failed hf).1]
  | case3 c item next hf _ later ih =>
    obtain ⟨hlt, htag⟩ := step_found hf
    obtain ⟨above, sorted⟩ := ih
    cases item with
    | text cs =>
      have same : Scan.starts { later with items := .text cs :: later.items } = later.starts := rfl
      rw [same]
      exact ⟨fun n hn => by have := above n hn; omega, sorted⟩
    | tag t =>
      have more : Scan.starts { later with items := .tag t :: later.items } =
          t.span.start :: later.starts := rfl
      rw [more, htag t rfl]
      have after : ∀ n ∈ later.starts, c.offset < n := by
        intro n hn
        have := above n hn
        omega
      refine ⟨?_, List.pairwise_cons.mpr ⟨after, sorted⟩⟩
      intro n hn
      rcases List.mem_cons.mp hn with rfl | hn
      · exact Nat.le_refl _
      · exact Nat.le_of_lt (after n hn)

end Cursor

namespace Tag

theorem name_eq_iff (t : Tag) (name : String) :
    t.name = name ↔ Text.Trimmed t.source name.toList := by
  rw [← Text.trim_eq_iff, Tag.name]
  constructor
  · rintro rfl
    exact String.toList_ofList.symm
  · intro h
    rw [h, String.ofList_toList]

theorem map_piece (template : List Char) (sections : List OpenSection) (t : Tag) :
    (t.piece template sections).map (·.2) = t.follow sections := by
  unfold piece follow
  cases h : t.sigil with
  | sectionClose =>
    simp only [opens, closes, h]
    split
    · rfl
    · simp only [reduceCtorEq, decide_false, Bool.or_self, Bool.false_eq_true, if_false,
        decide_true, if_true]
      split <;> rfl
  | sectionOpen | invertedOpen =>
    simp only [opens, h]
    split <;> rfl
  | _ => simp [opens, closes, h, Except.map]

end Tag

theorem Item.map_pieces (template : List Char) (sections : List OpenSection) (items : List Item) :
    (Item.pieces template sections items).map (·.2) =
      Tag.openAfter sections (items.filterMap Item.tag?) := by
  induction items generalizing sections with
  | nil => rfl
  | cons item items ih =>
    cases item with
    | text cs =>
      rw [List.filterMap_cons_none rfl, ← ih]
      simp only [Item.pieces, bind, Except.bind]
      cases Item.pieces template sections items <;> rfl
    | tag t =>
      rw [List.filterMap_cons_some (show (Item.tag t).tag? = some t from rfl), Tag.openAfter,
        ← Tag.map_piece template]
      simp only [Item.pieces, bind, Except.bind]
      cases t.piece template sections with
      | error site => rfl
      | ok found =>
        simp only [Except.map, ← ih]
        cases Item.pieces template found.2 items <;> rfl

theorem Piece.map_ofTemplate (template : List Char) (tags : Delimiters) :
    (Piece.ofTemplate template tags).map (fun _ => ()) = (scan template tags).verdict := by
  unfold Piece.ofTemplate Scan.verdict Scan.tags
  rw [← Item.map_pieces template]
  simp only [bind, Except.bind]
  cases Item.pieces template [] (scan template tags).items with
  | error site => rfl
  | ok found =>
    simp only [Except.map]
    cases (scan template tags).fault with
    | some site => rfl
    | none => cases found.2 <;> rfl

namespace Tag

/-- A tag is at fault exactly if it cannot be followed. -/
theorem offence_iff_follow {before : List Tag} {sections : List OpenSection}
    (h : openAfter [] before = .ok sections) (t : Tag) (site : FaultSite) :
    t.Offence before site ↔ t.follow sections = .error site := by
  have named := named_of_openAfter h
  constructor
  · rintro (⟨opens, name⟩ | ⟨closes, balanced⟩ | ⟨closes, innermost, ne⟩)
    · simp [follow, opens, name]
    · have hopens : t.opens = false := opens_eq_false_of_closes closes
      rw [(balanced_iff_openAfter named).mp balanced] at h
      cases h
      simp [follow, hopens, closes, unmatched]
    · have hopens : t.opens = false := opens_eq_false_of_closes closes
      obtain ⟨outer, rfl⟩ := openAfter_of_innermost h innermost
      simp [follow, hopens, closes, unmatched, opened, ne]
  · intro ht
    unfold follow at ht
    split at ht
    next opens =>
      split at ht
      next name => cases ht; exact .unnamed opens name
      next => cases ht
    · split at ht
      next closes =>
        cases sections with
        | nil =>
          cases ht
          exact .stray closes ((balanced_iff_openAfter named).mpr h)
        | cons s outer =>
          simp only at ht
          obtain ⟨o, innermost, rfl⟩ := innermost_of_openAfter h
          split at ht
          · cases ht
          next ne => cases ht; exact .mismatch closes innermost ne
      next => cases ht

theorem exists_of_openAfter_error {tags : List Tag} {site : FaultSite}
    (h : openAfter [] tags = .error site) :
    ∃ before t after sections, tags = before ++ t :: after ∧
      openAfter [] before = .ok sections ∧ t.follow sections = .error site := by
  generalize [] = sections at h
  induction tags generalizing sections with
  | nil => cases h
  | cons u us ih =>
    rw [openAfter] at h
    split at h
    next hu =>
      cases h
      exact ⟨[], u, us, sections, rfl, rfl, hu⟩
    next next hu =>
      obtain ⟨before, t, after, left, rfl, hbefore, ht⟩ := ih next h
      exact ⟨u :: before, t, after, left, rfl, by rw [openAfter, hu]; exact hbefore, ht⟩

theorem Offence.span_eq {before : List Tag} {t : Tag} {site : FaultSite}
    (h : t.Offence before site) : site.span = t.span := by
  cases h <;> rfl

theorem not_offence_of_openAfter {before after : List Tag} {t : Tag} {left : List OpenSection}
    (h : openAfter [] (before ++ t :: after) = .ok left) (site : FaultSite) :
    ¬t.Offence before site := by
  intro offence
  rw [openAfter_append] at h
  split at h
  · cases h
  next sections hb =>
    rw [openAfter, (offence_iff_follow hb t site).mp offence] at h
    cases h

end Tag

namespace Scan

theorem offence_cases {s : Scan} {site : FaultSite} (h : s.Offence site) :
    s.fault = some site ∨
      ∃ before t after, s.tags = before ++ t :: after ∧ Tag.Offence before t site := by
  cases h with
  | unclosedTag fault | invalidDelimiters fault => exact .inl fault
  | tag place offence => exact .inr ⟨_, _, _, place, offence⟩

theorem offence_of_fault {c : Cursor} {site : FaultSite} (h : c.scan.fault = some site) :
    c.scan.Offence site := by
  obtain ⟨fault, line, span⟩ := site
  obtain ⟨opening, he⟩ | ⟨tag, he⟩ := Cursor.fault_of_scan h
  · cases he
    exact .unclosedTag h
  · cases he
    exact .invalidDelimiters h

theorem firstOffence_of_follow {s : Scan} (sorted : s.starts.Pairwise (· < ·))
    {before after : List Tag} {t : Tag} {sections : List OpenSection} {site : FaultSite}
    (place : s.tags = before ++ t :: after) (hb : Tag.openAfter [] before = .ok sections)
    (ht : t.follow sections = .error site) : s.FirstOffence site := by
  have offence := (Tag.offence_iff_follow hb t site).mpr ht
  refine ⟨.tag place offence, ?_⟩
  intro other hother
  rw [offence.span_eq]
  obtain ⟨among, _, across⟩ := List.pairwise_append.mp sorted
  obtain fault | ⟨before', u, after', place', offence'⟩ := offence_cases hother
  · right
    exact across _ (by simp [place]) _ (by simp [fault])
  · rw [place'] at place
    obtain ⟨m, rfl, hm⟩ | ⟨m, rfl, hm⟩ := List.append_eq_append_iff.mp place
    · cases m with
      | nil =>
        cases hm
        rw [List.append_nil] at hb
        have := (Tag.offence_iff_follow hb t other).mp offence'
        exact .inl (Except.error.inj (this.symm.trans ht))
      | cons v m =>
        cases hm
        exact absurd offence' (Tag.not_offence_of_openAfter hb other)
    · cases m with
      | nil =>
        cases hm
        rw [List.append_nil] at offence'
        have := (Tag.offence_iff_follow hb t other).mp offence'
        exact .inl (Except.error.inj (this.symm.trans ht))
      | cons v m =>
        cases hm
        right
        rw [offence'.span_eq]
        rw [place'] at among
        simp only [List.map_append, List.map_cons, List.append_assoc, List.cons_append] at among
        have later := (List.pairwise_append.mp among).2.1
        exact (List.pairwise_cons.mp later).1 _ (by simp)

theorem verdict_eq_ok_iff (s : Scan) :
    s.verdict = .ok () ↔ s.fault = none ∧ (∀ t ∈ s.tags, t.opens → t.name ≠ "") ∧
      Tag.Balanced (Tag.nesting s.tags) := by
  constructor
  · intro h
    unfold verdict at h
    split at h
    · cases h
    next sections hs =>
      split at h
      · cases h
      next hf =>
        have named := Tag.named_of_openAfter hs
        exact ⟨hf, named, (Tag.balanced_iff_openAfter named).mpr hs⟩
      · cases h
  · rintro ⟨hf, named, balanced⟩
    simp [verdict, (Tag.balanced_iff_openAfter named).mp balanced, hf]

/-- A verdict against a template names the first offence or, if there is none, the innermost section
that is left open. -/
theorem verdict_error {c : Cursor} {site : FaultSite} (h : c.scan.verdict = .error site) :
    c.scan.FirstOffence site ∨ (∀ other, ¬c.scan.Offence other) ∧
      ∃ o, Tag.Innermost o c.scan.tags ∧
        site = ⟨.unclosedSection o.name, o.line, o.span⟩ := by
  unfold verdict at h
  split at h
  next first hs =>
    cases h
    obtain ⟨before, t, after, sections, place, hb, ht⟩ := Tag.exists_of_openAfter_error hs
    exact .inl (firstOffence_of_follow (Cursor.starts_scan c).2 place hb ht)
  next sections hs =>
    have only {other : FaultSite} (offence : c.scan.Offence other) :
        c.scan.fault = some other := by
      obtain fault | ⟨before, t, after, place, bad⟩ := offence_cases offence
      · exact fault
      · rw [place] at hs
        exact absurd bad (Tag.not_offence_of_openAfter hs other)
    split at h
    next hf =>
      cases h
      refine .inl ⟨offence_of_fault hf, fun other offence => .inl ?_⟩
      exact Option.some.inj ((only offence).symm.trans hf)
    · cases h
    next innermost outer hf =>
      cases h
      obtain ⟨o, ho, rfl⟩ := Tag.innermost_of_openAfter hs
      refine .inr ⟨fun other offence => ?_, o, ho, rfl⟩
      simpa [hf] using only offence

end Scan

/-- The name of a tag is its source without the white space around it. A template is accepted
exactly if all its tags can be read, its sections have names and they nest. Otherwise the error is
that of the first tag at fault; a section that is never closed is reported only if no tag is at
fault, and then the innermost one. How white space is treated, caching and the limit on inclusions
have no part in it. -/
theorem parse_accepts_nested_reports_first (text : String) (options : Options) :
    (∀ (t : Tag) (name : String), t.name = name ↔ Text.Trimmed t.source name.toList) ∧
    ((∃ program, parse text options = .ok program) ↔
      (scan text.toList options.tags).fault = none ∧
      (∀ t ∈ (scan text.toList options.tags).tags, t.opens → t.name ≠ "") ∧
      Tag.Balanced (Tag.nesting (scan text.toList options.tags).tags)) ∧
    (∀ e, parse text options = .error e →
      ∃ site : FaultSite, e = site.inTemplate text.toList options.label ∧
        ((scan text.toList options.tags).FirstOffence site ∨
          (∀ other, ¬(scan text.toList options.tags).Offence other) ∧
            ∃ o, Tag.Innermost o (scan text.toList options.tags).tags ∧
              site = ⟨.unclosedSection o.name, o.line, o.span⟩)) ∧
    ∀ preserveWhitespace cache partialDepthLimit,
      (parse text { options with preserveWhitespace, cache, partialDepthLimit }).map (fun _ => ()) =
        (parse text options).map fun _ => () := by
  refine ⟨Tag.name_eq_iff, ?_⟩
  have verdict := Piece.map_ofTemplate text.toList options.tags
  rw [← Scan.verdict_eq_ok_iff, ← verdict]
  cases h : Piece.ofTemplate text.toList options.tags with
  | ok pieces =>
    rw [parse_of_ok h]
    refine ⟨⟨fun _ => rfl, fun _ => ⟨_, rfl⟩⟩, nofun, ?_⟩
    intro preserveWhitespace cache partialDepthLimit
    have other : parse text { options with preserveWhitespace, cache, partialDepthLimit } = _ :=
      parse_of_ok h
    rw [other]
    rfl
  | error site =>
    rw [parse_of_error h]
    refine ⟨⟨nofun, nofun⟩, ?_, ?_⟩
    · intro e he
      cases he
      rw [h] at verdict
      exact ⟨site, rfl, Scan.verdict_error verdict.symm⟩
    · intro preserveWhitespace cache partialDepthLimit
      have other : parse text { options with preserveWhitespace, cache, partialDepthLimit } = _ :=
        parse_of_error h
      rw [other]
      rfl

/-- Sections are matched by their names without the white space around them, and a section with
nothing but white space for a name has none. -/
theorem section_names_between_blanks :
    (∃ program, parse "{{=| |=}}|# a\t|x|/\u3000a|" .standard = .ok program) ∧
    ∃ e, parse "{{# }}x{{/ }}" .standard = .error e ∧
      e.fault = .emptySectionName ∧ e.location.span = ⟨0, 6⟩ := by
  constructor
  · obtain ⟨trimmed, accepts, -⟩ :=
      parse_accepts_nested_reports_first "{{=| |=}}|# a\t|x|/\u3000a|" .standard
    let switch : Tag := ⟨.delimiterSwitch, ['|', ' ', '|'], 1, 0, 9⟩
    let opening : Tag := ⟨.sectionOpen, [' ', 'a', '\t'], 1, 9, 15⟩
    let closing : Tag := ⟨.sectionClose, ['\u3000', 'a'], 1, 16, 23⟩
    have scanned : scan "{{=| |=}}|# a\t|x|/\u3000a|".toList Options.standard.tags =
        ⟨[.tag switch, .tag opening, .text ['x'], .tag closing], none⟩ := by
      decide +kernel
    have hopening : Text.Trimmed ([' '] ++ ['a'] ++ ['\t']) ['a'] :=
      Text.trimmed_append (by simp [Text.isWhiteSpace]) (by simp [Text.isWhiteSpace])
        (by simp [Text.isWhiteSpace])
    have hclosing : Text.Trimmed (['\u3000'] ++ ['a'] ++ []) ['a'] :=
      Text.trimmed_append (by simp [Text.isWhiteSpace]) (by simp) (by simp [Text.isWhiteSpace])
    have opened : opening.name = "a" := (trimmed opening "a").mpr hopening
    have closed : closing.name = "a" := (trimmed closing "a").mpr hclosing
    have named : ∀ t ∈ [switch, opening, closing], t.opens → t.name ≠ "" := by
      intro t ht opens
      simp only [List.mem_cons, List.not_mem_nil, or_false] at ht
      rcases ht with rfl | rfl | rfl
      · cases opens
      · simp [opened]
      · cases opens
    have balanced : Tag.Balanced (opening :: [] ++ closing :: []) :=
      .wrap rfl rfl (closed.trans opened.symm) .nil .nil
    rw [accepts, scanned]
    exact ⟨rfl, named, balanced⟩
  · obtain ⟨trimmed, accepts, reports, -⟩ :=
      parse_accepts_nested_reports_first "{{# }}x{{/ }}" .standard
    let blank : Tag := ⟨.sectionOpen, [' '], 1, 0, 6⟩
    have place : (scan "{{# }}x{{/ }}".toList Options.standard.tags).tags =
        [] ++ blank :: [⟨.sectionClose, [' '], 1, 7, 13⟩] := by
      decide +kernel
    have hblank : Text.Trimmed ([' '] ++ [] ++ []) [] :=
      Text.trimmed_append (by simp [Text.isWhiteSpace]) (by simp) (by simp)
    have nameless : blank.name = "" := (trimmed blank "").mpr hblank
    have offence : (scan "{{# }}x{{/ }}".toList Options.standard.tags).Offence
        ⟨.emptySectionName, 1, 0, 6⟩ :=
      .tag place (.unnamed rfl nameless)
    cases h : parse "{{# }}x{{/ }}" .standard with
    | ok program =>
      obtain ⟨-, named, -⟩ := accepts.mp ⟨program, h⟩
      rw [place] at named
      exact absurd nameless (named blank List.mem_cons_self rfl)
    | error e =>
      obtain ⟨site, rfl, ⟨-, first⟩ | ⟨none, -⟩⟩ := reports e h
      · rcases first _ offence with rfl | before
        · exact ⟨_, rfl, rfl, rfl⟩
        · exact absurd before (Nat.not_lt_zero _)
      · exact absurd offence (none _)

end Mustache
