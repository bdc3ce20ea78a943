import Mustache.Proofs.Marks
import Mustache.Proofs.Seams

namespace Mustache

namespace Segment

inductive Kind where
  | newline
  | blank
  | text
deriving DecidableEq

def kind : Segment → Kind
  | newline => .newline
  | blank _ => .blank
  | text _ => .text

/-- Two segments that are not a run cut in two. -/
def Apart (s t : Segment) : Prop :=
  s.kind = t.kind → s.kind = .newline

namespace Kind

def blanks : List Char :=
  [' ', '\t', '\r', '\x0b', '\x0c']

/-- The patterns of the kinds: a newline, any number of blanks, any number of other characters. -/
def Matches : Kind → List Char → Prop
  | newline, cs => cs = ['\n']
  | blank, cs => cs ≠ [] ∧ ∀ c ∈ cs, c ∈ blanks
  | text, cs => cs ≠ [] ∧ ∀ c ∈ cs, c ∉ blanks ∧ c ≠ '\n'

/-- No pattern matches more at the start of a text than this one does. -/
structure Longest (kind : Kind) (word cs : List Char) : Prop where
  starts : word <+: cs
  fits : kind.Matches word
  longest : ∀ (other : Kind) (more : List Char), other.Matches more → more <+: cs →
    more.length ≤ word.length

/-- The kind of the segments that a character can be in. -/
def ofChar (c : Char) : Kind :=
  if c = '\n' then newline else if Text.isBlank c then blank else text

def segment : Kind → List Char → Segment
  | newline, _ => .newline
  | blank, cs => .blank cs
  | text, cs => .text cs

variable {kind other : Kind} {c : Char} {xs ys cs : List Char}

theorem isBlank_iff : Text.isBlank c = true ↔ c ∈ blanks := by
  simp [Text.isBlank, blanks, or_assoc]

theorem ofChar_eq_newline_iff : ofChar c = newline ↔ c = '\n' := by
  unfold ofChar
  split
  next hc => simp [hc]
  next hc => split <;> simp [hc]

theorem ofChar_eq_blank_iff : ofChar c = blank ↔ c ∈ blanks := by
  unfold ofChar
  split
  next hc => simp [hc, blanks]
  next hc =>
    rw [← isBlank_iff]
    split
    next hblank => simp [hblank]
    next hblank => simp [hblank]

theorem ofChar_eq_text_iff : ofChar c = text ↔ c ∉ blanks ∧ c ≠ '\n' := by
  rw [← ofChar_eq_blank_iff, ne_eq, ← ofChar_eq_newline_iff]
  cases ofChar c <;> simp

/-- A pattern matches characters of its kind, and at least one of them; a newline stands alone. -/
theorem matches_iff : kind.Matches cs ↔
    cs ≠ [] ∧ (∀ c ∈ cs, ofChar c = kind) ∧ (kind = newline → cs.length = 1) := by
  cases kind with
  | newline =>
    simp only [Matches, ofChar_eq_newline_iff]
    constructor
    · rintro rfl
      simp
    · rintro ⟨-, hchars, hlength⟩
      obtain ⟨c, rfl⟩ := List.length_eq_one_iff.mp (hlength trivial)
      rw [hchars c (by simp)]
  | blank => simp [Matches, ofChar_eq_blank_iff]
  | text => simp [Matches, ofChar_eq_text_iff]

theorem matches_singleton (c : Char) : (ofChar c).Matches [c] :=
  matches_iff.mpr ⟨by simp, by simp, by simp⟩

theorem Matches.append (hx : kind.Matches xs) (hy : kind.Matches ys) (hkind : kind ≠ newline) :
    kind.Matches (xs ++ ys) := by
  obtain ⟨hne, hxs, -⟩ := matches_iff.mp hx
  obtain ⟨-, hys, -⟩ := matches_iff.mp hy
  refine matches_iff.mpr ⟨by simp [hne], ?_, fun he => absurd he hkind⟩
  exact List.forall_mem_append.mpr ⟨hxs, hys⟩

theorem kind_segment (kind : Kind) (cs : List Char) : (kind.segment cs).kind = kind := by
  cases kind <;> rfl

theorem chars_segment (h : kind.Matches cs) : (kind.segment cs).chars = cs := by
  cases kind with
  | newline => exact h.symm
  | blank | text => rfl

theorem segment_chars (s : Segment) : s.kind.segment s.chars = s := by
  cases s <;> rfl

end Kind

variable {c : Char} {cs word : List Char} {s t : Segment} {segments rest : List Segment}

theorem matches_of_mem_ofText (h : s ∈ ofText cs) : s.kind.Matches s.chars := by
  have pure := pure_ofText cs s h
  cases s with
  | newline => rfl
  | blank bs => exact ⟨pure.1, fun c hc => Kind.isBlank_iff.mp (pure.2 c hc)⟩
  | text ts =>
    exact ⟨pure.1, fun c hc => ⟨fun hmem => (pure.2 c hc).1 (Kind.isBlank_iff.mpr hmem),
      (pure.2 c hc).2⟩⟩

theorem attach_of_same (hc : Kind.ofChar c ≠ .newline) (ht : t.kind = .ofChar c) :
    attach c (t :: rest) = (Kind.ofChar c).segment (c :: t.chars) :: rest := by
  unfold Kind.ofChar at *
  unfold attach
  split
  next hnewline => simp [hnewline] at hc
  next hnewline =>
    rw [if_neg hnewline] at ht
    split
    next hblank =>
      rw [if_pos hblank] at ht
      cases t <;> cases ht
      rfl
    next hblank =>
      rw [if_neg hblank] at ht
      cases t <;> cases ht
      rfl

theorem attach_of_apart (h : ∀ t ∈ segments.head?, Kind.ofChar c = t.kind →
    Kind.ofChar c = .newline) :
    attach c segments = (Kind.ofChar c).segment [c] :: segments := by
  unfold Kind.ofChar at *
  unfold attach
  split
  next => rfl
  next hnewline =>
    split
    next hblank =>
      split
      next bs rest => simp [hnewline, hblank, kind] at h
      next => rfl
    next hblank =>
      split
      next ts rest => simp [hnewline, hblank, kind] at h
      next => rfl

/-- A word that matches a pattern is one segment, if what follows it does not go on with it. -/
theorem ofText_append_word {kind : Kind} (fits : kind.Matches word)
    (apart : ∀ t ∈ (ofText cs).head?, kind = t.kind → kind = .newline) :
    ofText (word ++ cs) = kind.segment word :: ofText cs := by
  have hunfold (c : Char) (cs : List Char) : ofText (c :: cs) = attach c (ofText cs) := rfl
  induction word with
  | nil => exact absurd rfl (Kind.matches_iff.mp fits).1
  | cons c word ih =>
    obtain ⟨-, hchars, hnewline⟩ := Kind.matches_iff.mp fits
    obtain rfl := hchars c (by simp)
    rw [List.cons_append, hunfold]
    by_cases hword : word = []
    · rw [hword, List.nil_append, attach_of_apart apart]
    · have hrun : Kind.ofChar c ≠ .newline := by
        intro he
        have hlength := hnewline he
        simp only [List.length_cons] at hlength
        exact hword (List.length_eq_zero_iff.mp (by omega))
      have more : (Kind.ofChar c).Matches word :=
        Kind.matches_iff.mpr ⟨hword, fun d hd => hchars d (by simp [hd]), fun he => absurd he hrun⟩
      rw [ih more, attach_of_same hrun (Kind.kind_segment _ word), Kind.chars_segment more]

theorem apart_attach (h : segments.IsChain Apart) : (attach c segments).IsChain Apart := by
  cases segments with
  | nil =>
    rw [attach_of_apart (by simp)]
    exact List.isChain_singleton _
  | cons t rest =>
    by_cases run : Kind.ofChar c = t.kind ∧ Kind.ofChar c ≠ .newline
    · obtain ⟨hkind, hc⟩ := run
      obtain ⟨hhead, hchain⟩ := List.isChain_cons.mp h
      rw [attach_of_same hc hkind.symm, List.isChain_cons]
      refine ⟨fun u hu => ?_, hchain⟩
      have happart := hhead u hu
      unfold Apart at happart ⊢
      rwa [Kind.kind_segment, hkind]
    · have happart : Kind.ofChar c = t.kind → Kind.ofChar c = .newline := by
        intro hkind
        by_contra hc
        exact run ⟨hkind, hc⟩
      rw [attach_of_apart (by simpa using happart), List.isChain_cons]
      refine ⟨?_, h⟩
      intro u hu
      cases hu
      unfold Apart
      rwa [Kind.kind_segment]

theorem apart_ofText (cs : List Char) : (ofText cs).IsChain Apart := by
  induction cs with
  | nil => exact .nil
  | cons c cs ih => exact apart_attach ih

/-- Segments of which none is a part of a longer one are the segments of the text they spell. -/
theorem ofText_flatMap_chars (fits : ∀ s ∈ segments, s.kind.Matches s.chars)
    (apart : segments.IsChain Apart) : ofText (segments.flatMap chars) = segments := by
  induction segments with
  | nil => rfl
  | cons s segments ih =>
    obtain ⟨hs, hsegments⟩ := List.forall_mem_cons.mp fits
    obtain ⟨hhead, hchain⟩ := List.isChain_cons.mp apart
    have hrest := ih hsegments hchain
    rw [List.flatMap_cons, ofText_append_word hs (by rw [hrest]; exact hhead), hrest,
      Kind.segment_chars]

/-- The tokens of a lexer that takes the longest match at each place, from a byte on. Where no
pattern matches there is an error over some characters. -/
inductive Lexes : Nat → List Char → List (Option Kind × Span) → Prop where
  | nil (offset : Nat) : Lexes offset [] []
  | token {offset : Nat} {kind : Kind} {word rest : List Char} {found : List (Option Kind × Span)}
      (longest : kind.Longest word (word ++ rest))
      (others : Lexes (offset + Text.byteLength word) rest found) :
      Lexes offset (word ++ rest)
        ((some kind, ⟨offset, offset + Text.byteLength word⟩) :: found)
  | error {offset : Nat} {word rest : List Char} {found : List (Option Kind × Span)}
      (nonempty : word ≠ [])
      (unmatched : ∀ (kind : Kind) (more : List Char), more <+: word ++ rest → ¬kind.Matches more)
      (others : Lexes (offset + Text.byteLength word) rest found) :
      Lexes offset (word ++ rest) ((none, ⟨offset, offset + Text.byteLength word⟩) :: found)

def tokens (placed : List (Segment × Span)) : List (Option Kind × Span) :=
  placed.map fun (s, span) => (some s.kind, span)

/-- Whatever a text goes on with, some pattern matches its first character. -/
theorem Lexes.exists_segments {offset : Nat} {found : List (Option Kind × Span)}
    (h : Lexes offset cs found) :
    ∃ segments, cs = segments.flatMap chars ∧ (∀ s ∈ segments, s.kind.Matches s.chars) ∧
      segments.IsChain Apart ∧ found = tokens (spans offset segments) := by
  induction h with
  | nil offset => exact ⟨[], rfl, nofun, .nil, rfl⟩
  | @token offset kind word rest found longest _ ih =>
    obtain ⟨segments, rfl, fits, apart, rfl⟩ := ih
    have hkind := Kind.kind_segment kind word
    have hchars := Kind.chars_segment longest.fits
    refine ⟨kind.segment word :: segments, ?_, ?_, ?_, ?_⟩
    · rw [List.flatMap_cons, hchars]
    · refine List.forall_mem_cons.mpr ⟨?_, fits⟩
      rw [hkind, hchars]
      exact longest.fits
    · refine List.isChain_cons.mpr ⟨?_, apart⟩
      intro t ht he
      obtain ⟨others, rfl⟩ := List.head?_eq_some_iff.mp ht
      rw [hkind] at he ⊢
      by_contra hne
      have ht := fits t (by simp)
      rw [← he] at ht
      -- The two words together would have been a longer match.
      have hle := longest.longest kind (word ++ t.chars) (longest.fits.append ht hne) (by simp)
      have hpos := List.length_pos_iff.mpr (Kind.matches_iff.mp ht).1
      rw [List.length_append] at hle
      omega
    · simp only [tokens, spans, List.map_cons, hkind, hchars]
  | @error offset word rest found nonempty unmatched _ _ =>
    obtain ⟨c, word, rfl⟩ := List.exists_cons_of_ne_nil nonempty
    exact absurd (Kind.matches_singleton c) (unmatched _ [c] (by simp))

/-- Behind a segment a character of another kind follows, or a newline that is not part of it. -/
theorem longest_of_apart (fits : s.kind.Matches s.chars)
    (others : ∀ t ∈ segments, t.kind.Matches t.chars) (apart : ∀ t ∈ segments.head?, Apart s t) :
    s.kind.Longest s.chars (s.chars ++ segments.flatMap chars) where
  starts := List.prefix_append _ _
  fits := fits
  longest := by
    intro other more hmore hprefix
    obtain ⟨hne, hchars, -⟩ := Kind.matches_iff.mp fits
    obtain ⟨-, hmoreChars, hnewline⟩ := Kind.matches_iff.mp hmore
    have hpos := List.length_pos_iff.mpr hne
    by_contra hlt
    obtain ⟨extra, rfl⟩ : s.chars <+: more :=
      List.prefix_of_prefix_length_le (List.prefix_append _ _) hprefix (by omega)
    rw [List.length_append] at hlt hnewline
    have hextra : extra <+: segments.flatMap chars := (List.prefix_append_right_inj _).mp hprefix
    cases segments with
    | nil =>
      rw [List.eq_nil_of_prefix_nil hextra, List.length_nil] at hlt
      omega
    | cons t segments =>
      obtain ⟨htne, htchars, -⟩ := Kind.matches_iff.mp (others t (by simp))
      obtain ⟨c, cs, hcs⟩ := List.exists_cons_of_ne_nil hne
      obtain ⟨d, ds, hds⟩ := List.exists_cons_of_ne_nil htne
      obtain ⟨e, es, rfl⟩ : ∃ e es, extra = e :: es :=
        List.exists_cons_of_ne_nil fun he => by simp [he] at hlt
      obtain rfl : e = d := by
        rw [List.flatMap_cons, hds] at hextra
        exact (List.cons_prefix_cons.mp hextra).1
      have hother : s.kind = other := by
        rw [← hchars c (by simp [hcs]), hmoreChars c (by simp [hcs])]
      have ht : t.kind = other := by
        rw [← htchars e (by simp [hds]), hmoreChars e (by simp)]
      have hline := hnewline (hother ▸ apart t rfl (by rw [hother, ht]))
      rw [List.length_cons] at hline
      omega

theorem lexes_spans (offset : Nat) (fits : ∀ s ∈ segments, s.kind.Matches s.chars)
    (apart : segments.IsChain Apart) :
    Lexes offset (segments.flatMap chars) (tokens (spans offset segments)) := by
  induction segments generalizing offset with
  | nil => exact .nil offset
  | cons s segments ih =>
    obtain ⟨hs, hsegments⟩ := List.forall_mem_cons.mp fits
    obtain ⟨hhead, hchain⟩ := List.isChain_cons.mp apart
    exact .token (longest_of_apart hs hsegments hhead) (ih _ hsegments hchain)

/-- A lexer with the longest match finds the segments of a text and no errors. -/
theorem lexes_iff {offset : Nat} {found : List (Option Kind × Span)} :
    Lexes offset cs found ↔ found = tokens (spans offset (ofText cs)) := by
  constructor
  · intro h
    obtain ⟨segments, rfl, fits, apart, rfl⟩ := h.exists_segments
    rw [ofText_flatMap_chars fits apart]
  · rintro rfl
    have h := lexes_spans offset (fun s => matches_of_mem_ofText) (apart_ofText cs)
    rwa [flatMap_chars_ofText] at h

theorem map_fst_spans (offset : Nat) (segments : List Segment) :
    (spans offset segments).map Prod.fst = segments := by
  induction segments generalizing offset with
  | nil => rfl
  | cons s segments ih => rw [spans, List.map_cons, ih]

theorem spans_append (offset : Nat) (xs ys : List Segment) :
    spans offset (xs ++ ys) =
      spans offset xs ++ spans (offset + Text.byteLength (xs.flatMap chars)) ys := by
  induction xs generalizing offset with
  | nil => rfl
  | cons s xs ih =>
    rw [List.cons_append, spans, spans, ih, List.flatMap_cons, Text.byteLength_append,
      List.cons_append, Nat.add_assoc]

theorem spans_shift (d : Shift) (offset : Nat) (segments : List Segment) :
    spans (offset + d.bytes) segments =
      (spans offset segments).map fun (s, span) => (s, span.shift d) := by
  induction segments generalizing offset with
  | nil => rfl
  | cons s segments ih =>
    have hstop : offset + d.bytes + Text.byteLength s.chars =
        offset + Text.byteLength s.chars + d.bytes := by omega
    rw [spans, spans, List.map_cons, hstop, ih]
    rfl

/-- Spans that follow one another from the start of a text to its end, each between two of the
characters of the text and about those of its segment. -/
structure Tiles (placed : List (Segment × Span)) (cs : List Char) : Prop where
  spelled : placed.flatMap (·.1.chars) = cs
  first : ∀ p ∈ placed.head?, p.2.start = 0
  consecutive : placed.IsChain fun p q => p.2.stop = q.2.start
  last : ∀ p ∈ placed.getLast?, p.2.stop = Text.byteLength cs
  each : ∀ p ∈ placed, p.1.chars ≠ [] ∧ ∃ before after, cs = before ++ p.1.chars ++ after ∧
    p.2 = ⟨Text.byteLength before, Text.byteLength (before ++ p.1.chars)⟩

theorem start_of_spans {offset : Nat} {p : Segment × Span}
    (h : p ∈ (spans offset segments).head?) : p.2.start = offset := by
  cases segments with
  | nil => cases h
  | cons s segments =>
    cases h
    rfl

theorem isChain_spans (offset : Nat) (segments : List Segment) :
    (spans offset segments).IsChain fun p q => p.2.stop = q.2.start := by
  induction segments generalizing offset with
  | nil => exact .nil
  | cons s segments ih =>
    rw [spans, List.isChain_cons]
    exact ⟨fun q hq => (start_of_spans hq).symm, ih _⟩

theorem stop_of_spans {offset : Nat} {p : Segment × Span}
    (h : p ∈ (spans offset segments).getLast?) :
    p.2.stop = offset + Text.byteLength (segments.flatMap chars) := by
  rcases List.eq_nil_or_concat segments with rfl | ⟨before, s, rfl⟩
  · cases h
  · rw [List.concat_eq_append, spans_append, spans, spans, List.getLast?_concat] at h
    cases h
    rw [List.concat_eq_append, List.flatMap_append, Text.byteLength_append, List.flatMap_singleton,
      Nat.add_assoc]

theorem exists_of_mem_spans {before : List Char} {p : Segment × Span}
    (h : p ∈ spans (Text.byteLength before) segments) :
    ∃ passed left, segments = passed ++ p.1 :: left ∧
      p.2 = ⟨Text.byteLength (before ++ passed.flatMap chars),
        Text.byteLength (before ++ passed.flatMap chars ++ p.1.chars)⟩ := by
  induction segments generalizing before with
  | nil => cases h
  | cons s segments ih =>
    rw [spans, List.mem_cons, ← Text.byteLength_append] at h
    rcases h with rfl | h
    · exact ⟨[], segments, rfl, by simp⟩
    · obtain ⟨passed, left, rfl, hspan⟩ := ih h
      refine ⟨s :: passed, left, rfl, ?_⟩
      rw [hspan, List.flatMap_cons, ← List.append_assoc]

theorem tiles_spans (cs : List Char) : Tiles (spans 0 (ofText cs)) cs where
  spelled := by
    rw [← List.flatMap_map, map_fst_spans, flatMap_chars_ofText]
  first := fun p => start_of_spans
  consecutive := isChain_spans 0 (ofText cs)
  last := by
    intro p hp
    rw [stop_of_spans hp, flatMap_chars_ofText, Nat.zero_add]
  each := by
    intro p hp
    have hplace : p ∈ spans (Text.byteLength []) (ofText cs) := hp
    obtain ⟨passed, left, hsegments, hspan⟩ := exists_of_mem_spans hplace
    have hmem : p.1 ∈ ofText cs := by simp [hsegments]
    have hcs := flatMap_chars_ofText cs
    rw [hsegments, List.flatMap_append, List.flatMap_cons] at hcs
    refine ⟨(Kind.matches_iff.mp (matches_of_mem_ofText hmem)).1, passed.flatMap chars,
      left.flatMap chars, ?_, hspan⟩
    rw [← hcs, List.append_assoc]

/-- The segments of a text are what a lexer with the longest match finds in it, and it finds no
error. They cover the text from its start to its end, and no run is cut in two. Each line break is
the end of a segment, so that the segments before and behind it can be found apart. -/
theorem segments_partition_text (cs : List Char) :
    Tiles (spans 0 (ofText cs)) cs ∧
      (∀ s ∈ ofText cs, s.kind.Matches s.chars) ∧
      (ofText cs).IsChain Apart ∧
      (∀ found, Lexes 0 cs found ↔ found = tokens (spans 0 (ofText cs))) ∧
      ∀ later, spans 0 (ofText (cs ++ ['\n'] ++ later)) =
        spans 0 (ofText (cs ++ ['\n'])) ++
          (spans 0 (ofText later)).map fun (s, span) => (s, span.shift (.over (cs ++ ['\n']))) := by
  refine ⟨tiles_spans cs, fun s => matches_of_mem_ofText, apart_ofText cs, fun _ => lexes_iff, ?_⟩
  intro later
  have hoffset := spans_shift (.over (cs ++ ['\n'])) 0 (ofText later)
  rw [ofText_append (Text.endsLine_concat cs), spans_append, flatMap_chars_ofText, ← hoffset]
  rfl

example : spans 0 (ofText ['\u00a0', '\t', ' ', '\n']) =
    [(.text ['\u00a0'], ⟨0, 2⟩), (.blank ['\t', ' '], ⟨2, 4⟩), (.newline, ⟨4, 5⟩)] := by
  decide

end Segment
end Mustache
