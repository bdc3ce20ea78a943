import Mathlib.Data.List.Chain
import Mustache.Proofs.FirstFault
import Mustache.Proofs.Leftmost

namespace Mustache

namespace Sigil

/-- How a tag goes on behind its opening marker: with the character of its sigil, or with none of
these characters. -/
inductive Starts : Sigil → List Char → List Char → Prop where
  | comment (body : List Char) : Starts .comment ('!' :: body) body
  | sectionOpen (body : List Char) : Starts .sectionOpen ('#' :: body) body
  | invertedOpen (body : List Char) : Starts .invertedOpen ('^' :: body) body
  | sectionClose (body : List Char) : Starts .sectionClose ('/' :: body) body
  | delimiterSwitch (body : List Char) : Starts .delimiterSwitch ('=' :: body) body
  | inclusion (body : List Char) : Starts .inclusion ('>' :: body) body
  | triple (body : List Char) : Starts .triple ('{' :: body) body
  | ampersand (body : List Char) : Starts .ampersand ('&' :: body) body
  | bare {body : List Char}
      (unmarked : ∀ c ∈ body.head?, c ∉ ['!', '#', '^', '/', '=', '>', '{', '&']) :
      Starts .bare body body

/-- What a tag ends with. A switch and a triple tag ask for one more character in front of the
closing marker. -/
inductive Ends (closing : Marker) : Sigil → List Char → Prop where
  | delimiterSwitch : Ends closing .delimiterSwitch ('=' :: closing.chars)
  | triple : Ends closing .triple ('}' :: closing.chars)
  | other {sigil : Sigil} (notSwitch : sigil ≠ .delimiterSwitch) (notTriple : sigil ≠ .triple) :
      Ends closing sigil closing.chars

theorem starts_split (inner : List Char) : (split inner).1.Starts inner (split inner).2 := by
  unfold split
  split
  case h_9 =>
    refine .bare ?_
    intro c hc
    cases inner with
    | nil => cases hc
    | cons d rest =>
      cases hc
      intro hc
      simp only [List.mem_cons, List.not_mem_nil, or_false] at hc
      rcases hc with rfl | rfl | rfl | rfl | rfl | rfl | rfl | rfl <;> simp_all
  all_goals constructor

variable {sigil : Sigil} {inner body after ending : List Char} {closing : Marker}

theorem Starts.eq_append (h : sigil.Starts inner body) : inner = sigil.chars ++ body := by
  cases h <;> rfl

/-- What follows a part of the text behind the opening marker is not looked at. -/
theorem Starts.cut (h : sigil.Starts inner (body ++ after)) (hne : body ≠ []) :
    sigil.Starts (sigil.chars ++ body) body := by
  generalize hwhole : body ++ after = whole at h
  cases h with
  | bare unmarked =>
    obtain ⟨c, rest, rfl⟩ := List.exists_cons_of_ne_nil hne
    rw [← hwhole] at unmarked
    exact .bare unmarked
  | _ => constructor

theorem ends_ending (sigil : Sigil) (closing : Marker) :
    sigil.Ends closing (sigil.ending closing) := by
  cases sigil with
  | delimiterSwitch => exact .delimiterSwitch
  | triple => exact .triple
  | _ => exact .other nofun nofun

theorem Ends.eq_ending (h : sigil.Ends closing ending) : ending = sigil.ending closing := by
  cases h with
  | delimiterSwitch | triple => rfl
  | other notSwitch notTriple =>
    unfold Sigil.ending
    split <;> first | contradiction | rfl

theorem Ends.ne_nil (h : sigil.Ends closing ending) : ending ≠ [] := by
  cases h with
  | delimiterSwitch | triple => exact List.cons_ne_nil _ _
  | other => exact closing.nonempty

end Sigil

/-- An item with the byte at which it starts and the delimiters in effect there. -/
structure Placed where
  start : Nat
  tags : Delimiters
  item : Item

namespace Placed

/-- All characters of an item, those of the delimiters included. -/
def spelling (p : Placed) : List Char :=
  match p.item with
  | .text cs => cs
  | .tag t => p.tags.opening.chars ++ t.sigil.chars ++ t.source ++ t.sigil.ending p.tags.closing

/-- The text of an item, where the one of a tag is made up of the opening marker, the sigil, the
source and what such a tag ends with. -/
inductive Spells : Placed → List Char → Prop where
  | text (start : Nat) (tags : Delimiters) (cs : List Char) : Spells ⟨start, tags, .text cs⟩ cs
  | tag {start : Nat} {tags : Delimiters} {t : Tag} {inner ending : List Char}
      (starts : t.sigil.Starts inner (t.source ++ ending))
      (ends : t.sigil.Ends tags.closing ending) :
      Spells ⟨start, tags, .tag t⟩ (tags.opening.chars ++ inner)

def stop (p : Placed) : Nat :=
  p.start + Text.byteLength p.spelling

/-- Non-empty items between two bytes, each of which starts where the one before it stops. -/
inductive Consecutive : Nat → List Placed → Nat → Prop where
  | nil (start : Nat) : Consecutive start [] start
  | cons {p : Placed} {placed : List Placed} {stop : Nat} (nonempty : p.start < p.stop)
      (others : Consecutive p.stop placed stop) : Consecutive p.start (p :: placed) stop

end Placed

namespace Tag

/-- After a switch the delimiters are the first and the last word in it. -/
def Switches (t : Tag) (tags next : Delimiters) : Prop :=
  if t.sigil = .delimiterSwitch then
    Text.FirstWord t.source next.opening.chars ∧ Text.LastWord t.source next.closing.chars
  else next = tags

end Tag

namespace Cursor

/-- The text between two tags is one item, if there is any. -/
def gap (c : Cursor) (cs : List Char) : List Placed :=
  if cs = [] then [] else [⟨c.offset, c.tags, .text cs⟩]

def tagHere (c : Cursor) (t : Tag) : Placed :=
  ⟨t.span.start, c.tags, .tag t⟩

/-- A tag at the leftmost opening marker in what is left, up to the leftmost ending that is possible
for its sigil, with the text before and behind it. -/
structure Finds (c : Cursor) (before : List Char) (t : Tag) (after : List Char) : Prop where
  reach : ∃ inner body ending, Text.Leftmost c.tags.opening.chars c.rest before inner ∧
    t.sigil.Starts inner body ∧ t.sigil.Ends c.tags.closing ending ∧
    Text.Leftmost ending body t.source after
  line : t.line = c.line + before.count '\n'
  start : t.span.start = c.offset + Text.byteLength before
  stop : t.span.stop = (c.tagHere t).stop

/-- What is found from a point on: items in their places, and the fault that ends them, if any. -/
inductive Reads : Cursor → List Placed → Option FaultSite → Prop where
  /-- There is no tag any more. -/
  | plain {c : Cursor} (absent : ¬c.tags.opening.chars <:+: c.rest) : Reads c (c.gap c.rest) none
  | tag {c : Cursor} {before after : List Char} {t : Tag} {next : Delimiters}
      {placed : List Placed} {fault : Option FaultSite}
      (finds : c.Finds before t after) (switches : t.Switches c.tags next)
      (others : Reads ⟨after, t.span.stop, t.line + (c.tagHere t).spelling.count '\n', next⟩
        placed fault) :
      Reads c (c.gap before ++ c.tagHere t :: placed) fault
  /-- The ending that the sigil asks for is missing. -/
  | unclosed {c : Cursor} {before inner body ending : List Char} {sigil : Sigil}
      (opens : Text.Leftmost c.tags.opening.chars c.rest before inner)
      (starts : sigil.Starts inner body) (ends : sigil.Ends c.tags.closing ending)
      (absent : ¬ending <:+: body) :
      Reads c (c.gap before) (some ⟨.unclosedTag c.tags.opening.text,
        c.line + before.count '\n',
        c.offset + Text.byteLength before, c.offset + Text.byteLength c.rest⟩)
  /-- A switch without a word in it. -/
  | blankSwitch {c : Cursor} {before after : List Char} {t : Tag}
      (finds : c.Finds before t after) (switch : t.sigil = .delimiterSwitch)
      (blank : ∀ ch ∈ t.source, Text.isWhiteSpace ch) :
      Reads c (c.gap before)
        (some ⟨.invalidDelimiters (String.ofList t.source), t.line, t.span⟩)

theorem scan_of_ended {c : Cursor} (h : c.step = .ended) : c.scan = ⟨[], none⟩ := by
  unfold scan
  split <;> simp_all

theorem scan_of_failed {c : Cursor} {site : FaultSite} (h : c.step = .failed site) :
    c.scan = ⟨[], some site⟩ := by
  unfold scan
  split <;> simp_all

theorem scan_of_found {c next : Cursor} {item : Item} (h : c.step = .found item next) :
    c.scan = ⟨item :: next.scan.items, next.scan.fault⟩ := by
  rw [scan]
  split <;> simp_all

/-- What the tag at the leftmost opening marker, behind `before`, makes of the reading. -/
theorem reads_of_readTag {c : Cursor} {before inner : List Char}
    (opens : Text.Leftmost c.tags.opening.chars c.rest before inner) :
    (∃ site, (c.advance before (c.tags.opening.chars ++ inner)).readTag inner = .failed site ∧
      c.Reads (c.gap before) (some site)) ∨
    ∃ t next, (c.advance before (c.tags.opening.chars ++ inner)).readTag inner =
        .found (.tag t) next ∧
      ∀ placed fault, next.Reads placed fault →
        c.Reads (c.gap before ++ c.tagHere t :: placed) fault := by
  have starts := Sigil.starts_split inner
  have hrest : c.rest = before ++ (c.tags.opening.chars ++ inner) := by
    rw [opens.occurs, List.append_assoc]
  simp only [readTag]
  rcases hs : Sigil.split inner with ⟨sigil, body⟩
  rw [hs] at starts
  have ends := sigil.ends_ending c.tags.closing
  cases hb : Text.breakOn (sigil.ending c.tags.closing) body with
  | none =>
    left
    have reads := Reads.unclosed opens starts ends (Text.breakOn_eq_none_iff.mp hb)
    simp only [advance, hb, hrest, Text.byteLength_append, ← Nat.add_assoc] at reads ⊢
    exact ⟨_, rfl, reads⟩
  | some found =>
    obtain ⟨source, after⟩ := found
    have closes := Text.breakOn_eq_some_iff.mp hb
    simp only [advance, hb]
    generalize hspan : Span.mk _ _ = span
    have finds (line : Nat) (hline : line = c.line + before.count '\n') :
        c.Finds before ⟨sigil, source, line, span⟩ after := by
      refine ⟨⟨inner, body, _, opens, starts, ends, closes⟩, hline, ?_, ?_⟩
      · rw [← hspan]
      · rw [← hspan]
        rfl
    by_cases hswitch : sigil = .delimiterSwitch
    · rw [if_pos hswitch]
      cases ht : Delimiters.ofSwitch? source with
      | none =>
        left
        have blank := Delimiters.ofSwitch?_eq_none_iff.mp ht
        exact ⟨_, rfl, .blankSwitch (finds _ rfl) hswitch blank⟩
      | some next =>
        right
        refine ⟨_, _, rfl, fun placed fault others => ?_⟩
        have switches :
            Tag.Switches ⟨sigil, source, c.line + before.count '\n', span⟩ c.tags next := by
          rw [Tag.Switches, if_pos hswitch]
          exact Delimiters.words_of_ofSwitch? ht
        refine .tag (finds _ rfl) switches ?_
        rw [← hspan]
        exact others
    · rw [if_neg hswitch]
      right
      refine ⟨_, _, rfl, fun placed fault others => ?_⟩
      have stays :
          Tag.Switches ⟨sigil, source, c.line + before.count '\n', span⟩ c.tags c.tags := by
        rw [Tag.Switches, if_neg hswitch]
      refine .tag (finds _ rfl) stays ?_
      rw [← hspan]
      exact others

theorem map_item_gap_append (c : Cursor) (before : List Char) (placed : List Placed) :
    (c.gap before ++ placed).map Placed.item =
      if before = [] then placed.map Placed.item else .text before :: placed.map Placed.item := by
  unfold gap
  split <;> rfl

/-- A scan from a leftmost opening marker on goes on as if the text before it had been passed. -/
theorem scan_of_leftmost {c : Cursor} {before inner : List Char}
    (opens : Text.Leftmost c.tags.opening.chars c.rest before inner) {d : Cursor}
    (hd : d = c.advance before (c.tags.opening.chars ++ inner)) :
    d.step = d.readTag inner ∧ c.scan.fault = d.scan.fault ∧
      c.scan.items = if before = [] then d.scan.items else .text before :: d.scan.items := by
  have hopening := c.tags.opening.nonempty
  have hdrest : d.rest = d.tags.opening.chars ++ inner := by rw [hd]; rfl
  have hdne : d.rest ≠ [] := by
    rw [hdrest]
    exact List.append_ne_nil_of_left_ne_nil d.tags.opening.nonempty inner
  have hstep : d.step = d.readTag inner := by
    rw [step, if_neg hdne, hdrest, Text.breakOn_append]
  refine ⟨hstep, ?_⟩
  have hcne : c.rest ≠ [] := by
    rw [opens.occurs, List.append_assoc]
    exact List.append_ne_nil_of_right_ne_nil before
      (List.append_ne_nil_of_left_ne_nil hopening inner)
  have hbreak := Text.breakOn_eq_some_iff.mpr opens
  cases before with
  | nil =>
    have same : d = c := by
      rw [hd, advance, show c.tags.opening.chars ++ inner = c.rest from opens.occurs.symm]
      rfl
    simp [same]
  | cons ch before =>
    -- The text is an item of its own, and the tag is met in the step after it.
    have hfound : c.step = .found (.text (ch :: before)) d := by
      rw [step, if_neg hcne, hbreak, hd]
    rw [scan_of_found hfound]
    simp

theorem scan_of_absent {c : Cursor} (absent : ¬c.tags.opening.chars <:+: c.rest) :
    c.scan = ⟨(c.gap c.rest).map Placed.item, none⟩ := by
  by_cases hrest : c.rest = []
  · have hended : c.step = .ended := by rw [step, if_pos hrest]
    rw [scan_of_ended hended]
    simp [gap, hrest]
  · have hfound : c.step = .found (.text c.rest) (c.advance c.rest []) := by
      rw [step, if_neg hrest, Text.breakOn_eq_none_iff.mpr absent]
    have hended : (c.advance c.rest []).step = .ended := by rw [step]; rfl
    rw [scan_of_found hfound, scan_of_ended hended]
    simp [gap, hrest]

theorem exists_reads_scan (c : Cursor) :
    ∃ placed, c.scan.items = placed.map Placed.item ∧ c.Reads placed c.scan.fault := by
  by_cases hopen : c.tags.opening.chars <:+: c.rest
  · obtain ⟨⟨before, inner⟩, hb⟩ := Option.ne_none_iff_exists'.mp
      (fun none => Text.breakOn_eq_none_iff.mp none hopen)
    have opens := Text.breakOn_eq_some_iff.mp hb
    obtain ⟨hstep, hfault, hitems⟩ := scan_of_leftmost opens rfl
    rw [hfault, hitems]
    rcases reads_of_readTag opens with ⟨site, htag, reads⟩ | ⟨t, next, htag, reads⟩
    · rw [scan_of_failed (hstep.trans htag)]
      refine ⟨c.gap before, ?_, reads⟩
      simpa using (map_item_gap_append c before []).symm
    · -- The opening marker is not empty, so less is left after the tag.
      have shorter : next.rest.length < c.rest.length := by
        have hle := readTag_shorter htag
        have hlt := List.length_pos_iff.mpr c.tags.opening.nonempty
        rw [opens.occurs]
        simp only [List.length_append]
        omega
      obtain ⟨placed, hplaced, others⟩ := exists_reads_scan next
      rw [scan_of_found (hstep.trans htag)]
      refine ⟨_, ?_, reads placed _ others⟩
      rw [map_item_gap_append, hplaced]
      rfl
  · rw [scan_of_absent hopen]
    exact ⟨c.gap c.rest, rfl, .plain hopen⟩
termination_by c.rest.length

end Cursor

namespace Placed

theorem Consecutive.append {a b c : Nat} {xs ys : List Placed} (hx : Consecutive a xs b)
    (hy : Consecutive b ys c) : Consecutive a (xs ++ ys) c := by
  induction hx with
  | nil => exact hy
  | cons nonempty _ ih => exact .cons nonempty (ih hy)

/-- Where the items are written out one after the other, each of them is found in its place. -/
theorem Consecutive.place {a b : Nat} {placed : List Placed} (h : Consecutive a placed b)
    {template before after : List Char}
    (ht : template = before ++ placed.flatMap spelling ++ after)
    (ha : Text.byteLength before = a) {p : Placed} (hp : p ∈ placed) :
    p.start < p.stop ∧ ∃ before after, template = before ++ p.spelling ++ after ∧
      Text.byteLength before = p.start := by
  induction h generalizing before with
  | nil => cases hp
  | @cons q placed stop nonempty _ ih =>
    rcases List.mem_cons.mp hp with rfl | hp
    · refine ⟨nonempty, before, placed.flatMap spelling ++ after, ?_, ha⟩
      rw [ht, List.flatMap_cons]
      simp only [List.append_assoc]
    · have hnext : template = (before ++ q.spelling) ++ placed.flatMap spelling ++ after := by
        rw [ht, List.flatMap_cons]
        simp only [List.append_assoc]
      have hstart : Text.byteLength (before ++ q.spelling) = q.stop := by
        rw [Text.byteLength_append, ha]
        rfl
      exact ih hnext hstart hp

/-- There are no more items than bytes. -/
theorem Consecutive.length_le {a b : Nat} {placed : List Placed} (h : Consecutive a placed b) :
    a + placed.length ≤ b := by
  induction h with
  | nil => exact Nat.le_refl _
  | cons nonempty _ ih =>
    rw [List.length_cons]
    omega

theorem Consecutive.stop_eq {a b : Nat} {placed : List Placed} (h : Consecutive a placed b) :
    b = a + Text.byteLength (placed.flatMap spelling) := by
  induction h with
  | nil => rfl
  | cons _ _ ih =>
    rw [ih, List.flatMap_cons, Text.byteLength_append, stop, Nat.add_assoc]

end Placed

namespace Cursor

theorem spelling_gap (c : Cursor) (before : List Char) :
    (c.gap before).flatMap Placed.spelling = before := by
  unfold gap
  split
  next h => simp [h]
  next => simp [Placed.spelling]

theorem consecutive_gap (c : Cursor) (before : List Char) :
    Placed.Consecutive c.offset (c.gap before) (c.offset + Text.byteLength before) := by
  unfold gap
  split
  next h => simpa [h, Text.byteLength] using Placed.Consecutive.nil c.offset
  next h =>
    have hpos := Text.byteLength_pos h
    refine .cons (p := ⟨c.offset, c.tags, .text before⟩) ?_ (.nil _)
    simp only [Placed.stop, Placed.spelling]
    omega

variable {c : Cursor} {before after : List Char} {t : Tag}

/-- The rest of a template around a tag. -/
theorem Finds.rest_eq (h : c.Finds before t after) :
    c.rest = before ++ (c.tagHere t).spelling ++ after := by
  obtain ⟨inner, body, ending, opens, starts, ends, closes⟩ := h.reach
  rw [opens.occurs, starts.eq_append, closes.occurs, ends.eq_ending]
  simp [tagHere, Placed.spelling]

theorem Finds.spells (h : c.Finds before t after) :
    (c.tagHere t).Spells (c.tagHere t).spelling := by
  obtain ⟨inner, body, ending, opens, starts, ends, closes⟩ := h.reach
  rw [closes.occurs] at starts
  have hspelling : (c.tagHere t).spelling =
      c.tags.opening.chars ++ (t.sigil.chars ++ (t.source ++ ending)) := by
    rw [ends.eq_ending]
    simp only [tagHere, Placed.spelling, List.append_assoc]
  rw [hspelling]
  exact .tag (starts.cut (List.append_ne_nil_of_right_ne_nil _ ends.ne_nil)) ends

theorem tagHere_nonempty (c : Cursor) (t : Tag) : (c.tagHere t).start < (c.tagHere t).stop := by
  have hpos := Text.byteLength_pos c.tags.opening.nonempty
  simp only [tagHere, Placed.stop, Placed.spelling, Text.byteLength_append]
  omega

theorem Finds.consecutive (h : c.Finds before t after) {placed : List Placed} {stop : Nat}
    (others : Placed.Consecutive t.span.stop placed stop) :
    Placed.Consecutive c.offset (c.gap before ++ c.tagHere t :: placed) stop := by
  refine (c.consecutive_gap before).append ?_
  rw [h.stop] at others
  rw [← h.start]
  exact .cons (c.tagHere_nonempty t) others

/-- The items take up what is left, all of it if there is no fault. Otherwise a part is left that
starts where the fault does. -/
theorem Reads.lossless {placed : List Placed} {fault : Option FaultSite}
    (h : c.Reads placed fault) :
    ∃ left, c.rest = placed.flatMap Placed.spelling ++ left ∧
      (fault = none → left = []) ∧
      ∀ site ∈ fault, left ≠ [] ∧
        site.span.start = c.offset + Text.byteLength (placed.flatMap Placed.spelling) := by
  induction h with
  | @plain c absent => exact ⟨[], by rw [spelling_gap, List.append_nil], fun _ => rfl, nofun⟩
  | @tag c before after t next placed fault finds _ _ ih =>
    obtain ⟨left, hrest, hnone, hfault⟩ := ih
    have hafter : after = placed.flatMap Placed.spelling ++ left := hrest
    refine ⟨left, ?_, hnone, fun site hsite => ⟨(hfault site hsite).1, ?_⟩⟩
    · rw [finds.rest_eq, List.flatMap_append, List.flatMap_cons, spelling_gap, hafter]
      simp only [List.append_assoc]
    · have hstart := (hfault site hsite).2
      have hstop := finds.stop
      simp only [Placed.stop] at hstop
      rw [List.flatMap_append, List.flatMap_cons, spelling_gap, hstart, hstop,
        show (c.tagHere t).start = t.span.start from rfl, finds.start]
      simp only [Text.byteLength_append]
      omega
  | @unclosed c before inner body ending sigil opens _ _ _ =>
    refine ⟨c.tags.opening.chars ++ inner, ?_, nofun, ?_⟩
    · rw [spelling_gap, ← List.append_assoc]
      exact opens.occurs
    · rintro site ⟨rfl⟩
      rw [spelling_gap]
      exact ⟨List.append_ne_nil_of_left_ne_nil c.tags.opening.nonempty inner, rfl⟩
  | @blankSwitch c before after t finds _ _ =>
    refine ⟨(c.tagHere t).spelling ++ after, ?_, nofun, ?_⟩
    · rw [spelling_gap, ← List.append_assoc]
      exact finds.rest_eq
    · rintro site ⟨rfl⟩
      rw [spelling_gap]
      have hne : (c.tagHere t).spelling ≠ [] := by
        intro he
        have hlt := c.tagHere_nonempty t
        rw [Placed.stop, he] at hlt
        exact absurd hlt (by simp [Text.byteLength])
      exact ⟨List.append_ne_nil_of_left_ne_nil hne after, finds.start⟩

theorem Reads.consecutive {placed : List Placed} {fault : Option FaultSite}
    (h : c.Reads placed fault) :
    Placed.Consecutive c.offset placed
      (c.offset + Text.byteLength (placed.flatMap Placed.spelling)) := by
  have chain : ∃ stop, Placed.Consecutive c.offset placed stop := by
    induction h with
    | plain | unclosed | blankSwitch => exact ⟨_, consecutive_gap _ _⟩
    | tag finds _ _ ih =>
      obtain ⟨stop, hstop⟩ := ih
      exact ⟨stop, finds.consecutive hstop⟩
  obtain ⟨stop, hstop⟩ := chain
  rwa [← hstop.stop_eq]

theorem eq_of_mem_gap {p : Placed} (hp : p ∈ c.gap before) :
    p = ⟨c.offset, c.tags, .text before⟩ := by
  unfold gap at hp
  split at hp
  · cases hp
  · exact List.mem_singleton.mp hp

theorem Reads.spells {placed : List Placed} {fault : Option FaultSite}
    (h : c.Reads placed fault) {p : Placed} (hp : p ∈ placed) : p.Spells p.spelling := by
  induction h with
  | plain | unclosed | blankSwitch =>
    rw [eq_of_mem_gap hp]
    exact .text _ _ _
  | tag finds _ _ ih =>
    rcases List.mem_append.mp hp with hp | hp
    · rw [eq_of_mem_gap hp]
      exact .text _ _ _
    · rcases List.mem_cons.mp hp with rfl | hp
      · exact finds.spells
      · exact ih hp

/-- The place of a tag is the one that the tag records. -/
theorem Reads.span_eq {placed : List Placed} {fault : Option FaultSite}
    (h : c.Reads placed fault) {p : Placed} (hp : p ∈ placed) {u : Tag} (hu : p.item = .tag u) :
    u.span = ⟨p.start, p.stop⟩ := by
  have plain (c : Cursor) (before : List Char) : p ∉ c.gap before := by
    intro hmem
    rw [eq_of_mem_gap hmem] at hu
    cases hu
  induction h with
  | plain | unclosed | blankSwitch => exact absurd hp (plain _ _)
  | tag finds _ _ ih =>
    rcases List.mem_append.mp hp with hp | hp
    · exact absurd hp (plain _ _)
    · rcases List.mem_cons.mp hp with rfl | hp
      · cases hu
        rw [← finds.stop]
        rfl
      · exact ih hp

/-- No two texts are neighbours. -/
theorem Reads.texts_apart {placed : List Placed} {fault : Option FaultSite}
    (h : c.Reads placed fault) :
    (placed.map Placed.item).IsChain fun a b => a.tag? = none → b.tag? ≠ none := by
  induction h with
  | plain | unclosed | blankSwitch =>
    unfold gap
    split <;> simp
  | @tag c before after t next placed fault finds switches others ih =>
    rw [map_item_gap_append, List.map_cons]
    have hrest : ((c.tagHere t).item :: placed.map Placed.item).IsChain
        fun a b => a.tag? = none → b.tag? ≠ none := by
      rw [List.isChain_cons]
      exact ⟨fun b _ hnone => (nomatch hnone), ih⟩
    split
    · exact hrest
    · rw [List.isChain_cons]
      refine ⟨fun b hb _ => ?_, hrest⟩
      cases hb
      nofun

end Cursor

/-- A scan reads a template from left to right without loss, whatever the delimiters are and however
they change: the next tag starts at the leftmost opening marker, is what its sigil makes it, and
ends at the leftmost ending for that, which is the closing marker, for a switch with `=` and for a
triple tag with `}` in front of it; the delimiters in effect are those of the last switch. The items
take up consecutive parts of the template, from character to character, up to the end of the
template or the tag at fault, so that there are no more of them than bytes. -/
theorem scan_lossless_leftmost (template : List Char) (tags : Delimiters) :
    ∃ placed left, (scan template tags).items = placed.map Placed.item ∧
      (Cursor.start template tags).Reads placed (scan template tags).fault ∧
      template = placed.flatMap Placed.spelling ++ left ∧
      ((scan template tags).fault = none → left = []) ∧
      (∀ site ∈ (scan template tags).fault, left ≠ [] ∧
        site.span.start = Text.byteLength (placed.flatMap Placed.spelling)) ∧
      Placed.Consecutive 0 placed (Text.byteLength (placed.flatMap Placed.spelling)) ∧
      (∀ p ∈ placed, p.Spells p.spelling ∧ p.start < p.stop ∧
        (∃ before after, template = before ++ p.spelling ++ after ∧
          Text.byteLength before = p.start) ∧
        ∀ t, p.item = .tag t → t.span = ⟨p.start, p.stop⟩) ∧
      ((scan template tags).items.IsChain fun a b => a.tag? = none → b.tag? ≠ none) ∧
      (scan template tags).items.length ≤ Text.byteLength template := by
  obtain ⟨placed, hitems, reads⟩ := (Cursor.start template tags).exists_reads_scan
  obtain ⟨left, hrest, hnone, hfault⟩ := reads.lossless
  have consecutive := reads.consecutive
  simp only [Cursor.start, Nat.zero_add] at hrest hfault consecutive
  refine ⟨placed, left, hitems, reads, hrest, hnone, hfault, consecutive, ?_, ?_, ?_⟩
  · intro p hp
    have hplace : template = [] ++ placed.flatMap Placed.spelling ++ left := hrest
    obtain ⟨nonempty, place⟩ := consecutive.place hplace rfl hp
    exact ⟨reads.spells hp, nonempty, place, fun t ht => reads.span_eq hp ht⟩
  · have apart := reads.texts_apart
    rw [← hitems] at apart
    exact apart
  · have hle := consecutive.length_le
    have htemplate := congrArg Text.byteLength hrest
    rw [Text.byteLength_append] at htemplate
    have hlength : (scan template tags).items.length = placed.length := by
      rw [scan, hitems, List.length_map]
    omega

-- The closing marker inside the triple tag does not end it.
example : scan "{{=| |=}}|{a|}|".toList .standard =
    ⟨[.tag ⟨.delimiterSwitch, ['|', ' ', '|'], 1, 0, 9⟩,
      .tag ⟨.triple, ['a', '|'], 1, 9, 15⟩], none⟩ := by
  decide +kernel

end Mustache
