import Mathlib.Data.List.Forall2
import Mathlib.Data.List.SplitBy
import Mustache.Program.Parse
import Mustache.Proofs.Reading

namespace Mustache

/-- A character outside of all tags, or a whole tag. -/
inductive Mark where
  | char (c : Char)
  | tag (t : Tag)
deriving DecidableEq

def Item.marks : Item → List Mark
  | .text cs => cs.map .char
  | .tag t => [.tag t]

/-- Sections, partials, comments and switches may have a line of their own; variables may not. -/
def Tag.standsAlone (t : Tag) : Bool :=
  match t.sigil with
  | .comment | .delimiterSwitch | .sectionOpen | .invertedOpen | .sectionClose | .inclusion => true
  | .triple | .ampersand | .bare => false

/-- The operation of a tag, without what it says of a body. -/
def Tag.op? (t : Tag) : Option Op :=
  match t.sigil with
  | .comment | .delimiterSwitch => none
  | .sectionOpen => some (.openSection t.name false 0 "")
  | .invertedOpen => some (.openSection t.name true 0 "")
  | .sectionClose => some (.closeSection t.name)
  | .inclusion => some (.inclusion t.name)
  | .triple | .ampersand => some (.unescaped t.name)
  | .bare => some (.escaped t.name)

namespace Mark

/-- The part of the template that a mark takes. -/
def spelling (template : List Char) : Mark → List Char
  | char c => [c]
  | tag t => Text.slice t.span.start t.span.stop template

def char? : Mark → Option Char
  | char c => some c
  | tag _ => none

def tag? : Mark → Option Tag
  | char _ => none
  | tag t => some t

/-- A line ends with a newline. One inside of a tag ends no line. -/
def lines (marks : List Mark) : List (List Mark) :=
  marks.splitBy fun m _ => m ≠ .char '\n'

/-- There is one tag in the line, which may have a line of its own, and white space besides. -/
def Standalone (line : List Mark) : Prop :=
  (line.filterMap tag?).length = 1 ∧ (∀ t ∈ line.filterMap tag?, t.standsAlone) ∧
    ∀ c ∈ line.filterMap char?, c ∈ [' ', '\t', '\r', '\x0b', '\x0c', '\n']

instance (line : List Mark) : Decidable (Standalone line) :=
  inferInstanceAs (Decidable (_ ∧ _ ∧ _))

/-- All but the characters of standalone lines. -/
def elide (marks : List Mark) : List Mark :=
  (lines marks).flatMap fun line =>
    if Standalone line then line.filter (·.tag?.isSome) else line

/-- What is left of a mark in a program. -/
def outline : Mark → List (Char ⊕ Op)
  | char c => [.inl c]
  | tag t => (t.op?.map .inr).toList

theorem isBlank_or_newline_iff {c : Char} :
    (Text.isBlank c ∨ c = '\n') ↔ c ∈ [' ', '\t', '\r', '\x0b', '\x0c', '\n'] := by
  simp [Text.isBlank, or_assoc]

theorem lines_newline_cons (marks : List Mark) :
    lines (.char '\n' :: marks) = [.char '\n'] :: lines marks := by
  have h := List.splitBy_append (r := fun m _ : Mark => m ≠ .char '\n') (l := [.char '\n'])
    (m := marks) (by simp)
  exact h

theorem lines_cons {m : Mark} (h : m ≠ .char '\n') (marks : List Mark) :
    lines (m :: marks) = match lines marks with
      | [] => [[m]]
      | line :: others => (m :: line) :: others := by
  cases hl : lines marks with
  | nil =>
    have hnil : marks = [] := List.splitBy_eq_nil.mp hl
    subst hnil
    rfl
  | cons line others =>
    obtain ⟨hflat, hne, hchain, hends⟩ := List.splitBy_eq_iff.mp hl
    have hline : line ≠ [] := fun he => hne (by simp [he])
    refine List.splitBy_eq_iff.mpr ⟨?_, ?_, ?_, ?_⟩
    · rw [hflat]
      rfl
    · simpa using fun he => hne (List.mem_cons_of_mem _ he)
    · intro l hmem
      rcases List.mem_cons.mp hmem with rfl | hmem
      · exact List.isChain_cons.mpr ⟨fun _ _ => by simpa using h, hchain line (by simp)⟩
      · exact hchain l (List.mem_cons_of_mem _ hmem)
    · rw [List.isChain_cons] at hends ⊢
      refine ⟨fun next hnext => ?_, hends.2⟩
      obtain ⟨_, hb, hlast⟩ := hends.1 next hnext
      exact ⟨by simp, hb, by rwa [List.getLast_cons hline]⟩

/-- A line takes up what stands before it, up to the newline of another line. -/
theorem lines_append {ms : List Mark} (hne : ms ≠ []) (h : .char '\n' ∉ ms) (marks : List Mark) :
    lines (ms ++ marks) = match lines marks with
      | [] => [ms]
      | line :: others => (ms ++ line) :: others := by
  induction ms with
  | nil => contradiction
  | cons m ms ih =>
    have hm : m ≠ .char '\n' := fun he => h (by simp [he])
    rw [List.cons_append, lines_cons hm]
    by_cases hms : ms = []
    · subst hms
      rfl
    · rw [ih hms fun hmem => h (List.mem_cons_of_mem m hmem)]
      cases lines marks <;> rfl

end Mark

namespace Segment

/-- A run is not empty and has characters of its own kind only. -/
def Pure : Segment → Prop
  | newline => True
  | blank cs => cs ≠ [] ∧ ∀ c ∈ cs, Text.isBlank c
  | text cs => cs ≠ [] ∧ ∀ c ∈ cs, ¬Text.isBlank c ∧ c ≠ '\n'

theorem pure_attach {c : Char} {segments : List Segment} (h : ∀ s ∈ segments, s.Pure) :
    ∀ s ∈ attach c segments, s.Pure := by
  unfold attach
  split
  · exact List.forall_mem_cons.mpr ⟨trivial, h⟩
  next hline =>
    split
    next hblank =>
      split
      next cs rest =>
        have hcs := (h (.blank cs) (by simp)).2
        refine List.forall_mem_cons.mpr ⟨⟨by simp, ?_⟩, fun s hs => h s (by simp [hs])⟩
        exact List.forall_mem_cons.mpr ⟨hblank, hcs⟩
      next => exact List.forall_mem_cons.mpr ⟨⟨by simp, by simpa using hblank⟩, h⟩
    next hblank =>
      split
      next cs rest =>
        have hcs := (h (.text cs) (by simp)).2
        refine List.forall_mem_cons.mpr ⟨⟨by simp, ?_⟩, fun s hs => h s (by simp [hs])⟩
        exact List.forall_mem_cons.mpr ⟨⟨hblank, hline⟩, hcs⟩
      next => exact List.forall_mem_cons.mpr ⟨⟨by simp, by simpa [hline] using hblank⟩, h⟩

theorem pure_ofText (cs : List Char) : ∀ s ∈ ofText cs, s.Pure := by
  induction cs with
  | nil => exact nofun
  | cons c cs ih => exact pure_attach ih

end Segment

namespace Piece

/-- What a piece leaves in a program, apart from what is said of bodies. -/
def outline : Piece → List (Char ⊕ Op)
  | text cs | blank cs => cs.map .inl
  | newline => [.inl '\n']
  | variableTag name true => [.inr (.escaped name)]
  | variableTag name false => [.inr (.unescaped name)]
  | openTag name inverted => [.inr (.openSection name inverted 0 "")]
  | closeTag name _ => [.inr (.closeSection name)]
  | inclusion name => [.inr (.inclusion name)]
  | silent => []

/-- The marks that a piece is made of. -/
inductive Shows : List Mark → Piece → Prop where
  | segment {s : Segment} (pure : s.Pure) : Shows (s.chars.map .char) (ofSegment s)
  | tag {t : Tag} {p : Piece} (outline : p.outline = (Mark.tag t).outline)
      (alone : p.standsAlone = t.standsAlone) (space : p.isSpace = false) : Shows [.tag t] p

inductive Show : List Mark → List Piece → Prop where
  | nil : Show [] []
  | cons {ms marks : List Mark} {p : Piece} {pieces : List Piece} (shows : Shows ms p)
      (others : Show marks pieces) : Show (ms ++ marks) (p :: pieces)

theorem Show.append {xs ys : List Mark} {ps qs : List Piece} (hx : Show xs ps) (hy : Show ys qs) :
    Show (xs ++ ys) (ps ++ qs) := by
  induction hx with
  | nil => exact hy
  | cons shows _ ih =>
    rw [List.append_assoc, List.cons_append]
    exact .cons shows ih

theorem show_segments {segments : List Segment} (h : ∀ s ∈ segments, s.Pure) :
    Show ((segments.flatMap Segment.chars).map .char) (segments.map ofSegment) := by
  induction segments with
  | nil => exact .nil
  | cons s segments ih =>
    rw [List.flatMap_cons, List.map_append, List.map_cons]
    exact .cons (.segment (h s (by simp))) (ih fun r hr => h r (by simp [hr]))

theorem shows_piece {template : List Char} {sections next : List OpenSection} {t : Tag}
    {piece : Piece} (h : t.piece template sections = .ok (piece, next)) :
    Shows [.tag t] piece := by
  unfold Tag.piece at h
  cases hs : t.sigil with
  | sectionClose =>
    simp only [hs] at h
    split at h
    · cases h
    · split at h
      · cases h
        exact .tag (by simp [Mark.outline, Tag.op?, hs, outline])
          (by simp [Tag.standsAlone, hs, standsAlone]) rfl
      · cases h
  | sectionOpen | invertedOpen =>
    simp only [hs] at h
    split at h
    · cases h
    · cases h
      exact .tag (by simp [Mark.outline, Tag.op?, hs, outline])
        (by simp [Tag.standsAlone, hs, standsAlone]) rfl
  | _ =>
    simp only [hs] at h
    cases h
    exact .tag (by simp [Mark.outline, Tag.op?, hs, outline])
      (by simp [Tag.standsAlone, hs, standsAlone]) rfl

theorem show_items {template : List Char} {sections left : List OpenSection} {items : List Item}
    {pieces : List Piece} (h : Item.pieces template sections items = .ok (pieces, left)) :
    Show (items.flatMap Item.marks) pieces := by
  induction items generalizing sections pieces with
  | nil =>
    cases h
    exact .nil
  | cons item items ih =>
    cases item with
    | text cs =>
      simp only [Item.pieces, bind, Except.bind] at h
      split at h
      · cases h
      next found hf =>
        cases h
        have segments := show_segments (Segment.pure_ofText cs)
        rw [Segment.flatMap_chars_ofText] at segments
        exact segments.append (ih hf)
    | tag t =>
      simp only [Item.pieces, bind, Except.bind] at h
      split at h
      · cases h
      next first ht =>
        split at h
        · cases h
        next found hf =>
          cases h
          exact .cons (shows_piece ht) (ih hf)

theorem Shows.ne_nil {ms : List Mark} {p : Piece} (h : Shows ms p) : ms ≠ [] := by
  cases h with
  | @segment s pure =>
    cases s with
    | newline => simp [Segment.chars]
    | blank cs | text cs => simpa [Segment.chars] using pure.1
  | tag => simp

theorem Shows.eq_of_newline {ms : List Mark} (h : Shows ms newline) : ms = [.char '\n'] := by
  generalize hp : newline = p at h
  cases h with
  | @segment s pure => cases s <;> first | rfl | cases hp
  | tag _ _ space =>
    rw [← hp] at space
    cases space

theorem Shows.newline_not_mem {ms : List Mark} {p : Piece} (h : Shows ms p) (hp : p ≠ newline) :
    .char '\n' ∉ ms := by
  cases h with
  | @segment s pure =>
    cases s with
    | newline => exact absurd rfl hp
    | blank cs =>
      intro hmem
      have := pure.2 '\n' (by simpa [Segment.chars] using hmem)
      exact absurd this (by decide)
    | text cs =>
      intro hmem
      exact (pure.2 '\n' (by simpa [Segment.chars] using hmem)).2 rfl
  | tag => simp

/-- The lines of the pieces are those of the marks. -/
theorem Show.lines {marks : List Mark} {pieces : List Piece} (h : Show marks pieces) :
    List.Forall₂ Show (Mark.lines marks) (lines pieces) := by
  induction h with
  | nil => exact .nil
  | @cons ms marks p pieces shows others ih =>
    rw [Piece.lines]
    split
    next hp =>
      subst hp
      rw [shows.eq_of_newline, List.singleton_append, Mark.lines_newline_cons]
      refine .cons ?_ ih
      have line := Show.cons (.segment (s := .newline) trivial) .nil
      exact line
    next hp =>
      rw [Mark.lines_append shows.ne_nil (shows.newline_not_mem hp)]
      generalize Mark.lines marks = ls at ih
      generalize Piece.lines pieces = ps at ih
      cases ih with
      | nil =>
        have line := Show.cons shows .nil
        rw [List.append_nil] at line
        exact .cons line .nil
      | cons first rest => exact .cons (.cons shows first) rest

theorem Show.outline_eq {marks : List Mark} {pieces : List Piece} (h : Show marks pieces) :
    pieces.flatMap outline = marks.flatMap Mark.outline := by
  induction h with
  | nil => rfl
  | @cons ms marks p pieces shows _ ih =>
    have first : p.outline = ms.flatMap Mark.outline := by
      cases shows with
      | @segment s pure =>
        have single (cs : List Char) :
            (cs.map Mark.char).flatMap Mark.outline = cs.map .inl := by
          rw [List.flatMap_map, List.map_eq_flatMap]
          rfl
        cases s <;> simp [ofSegment, Segment.chars, outline, single, Mark.outline]
      | tag outline => simpa using outline
    rw [List.flatMap_cons, List.flatMap_append, ih, first]

theorem filterMap_tag?_chars (cs : List Char) : (cs.map Mark.char).filterMap Mark.tag? = [] := by
  simp [List.filterMap_map, Mark.tag?, Function.comp_def]

theorem filterMap_char?_chars (cs : List Char) : (cs.map Mark.char).filterMap Mark.char? = cs := by
  simp [List.filterMap_map, Mark.char?, Function.comp_def]

theorem Show.countP_standsAlone {line : List Mark} {pieces : List Piece} (h : Show line pieces) :
    pieces.countP standsAlone = (line.filterMap Mark.tag?).countP Tag.standsAlone := by
  induction h with
  | nil => rfl
  | @cons ms marks p pieces shows _ ih =>
    rw [List.countP_cons, List.filterMap_append, List.countP_append, ← ih, Nat.add_comm]
    congr 1
    cases shows with
    | @segment s pure =>
      rw [filterMap_tag?_chars]
      cases s <;> rfl
    | @tag t p _ alone => simp [Mark.tag?, alone, List.countP_cons]

theorem Show.all_iff {line : List Mark} {pieces : List Piece} (h : Show line pieces) :
    (∀ p ∈ pieces, p.standsAlone ∨ p.isSpace) ↔
      (∀ t ∈ line.filterMap Mark.tag?, t.standsAlone) ∧
        ∀ c ∈ line.filterMap Mark.char?, Text.isBlank c ∨ c = '\n' := by
  induction h with
  | nil => simp
  | @cons ms marks p pieces shows _ ih =>
    have first : (p.standsAlone ∨ p.isSpace) ↔
        (∀ t ∈ ms.filterMap Mark.tag?, t.standsAlone) ∧
          ∀ c ∈ ms.filterMap Mark.char?, Text.isBlank c ∨ c = '\n' := by
      cases shows with
      | @segment s pure =>
        rw [filterMap_tag?_chars, filterMap_char?_chars]
        cases s with
        | newline => simp [ofSegment, isSpace, Segment.chars]
        | blank cs => simpa [ofSegment, isSpace, Segment.chars] using fun c hc => .inl (pure.2 c hc)
        | text cs =>
          obtain ⟨c, hc⟩ := List.exists_mem_of_ne_nil cs pure.1
          have hsolid := pure.2 c hc
          simp only [ofSegment, isSpace, standsAlone, Segment.chars]
          constructor
          · simp
          · rintro ⟨_, white⟩
            exact absurd (white c hc) (by simp [hsolid])
      | @tag t p _ alone space => simp [Mark.tag?, Mark.char?, alone, space]
    rw [List.forall_mem_cons, ih, first]
    simp only [List.filterMap_append, List.forall_mem_append]
    tauto

theorem Show.isStandalone_iff {line : List Mark} {pieces : List Piece} (h : Show line pieces) :
    isStandalone pieces ↔ Mark.Standalone line := by
  have all := h.all_iff
  simp only [isStandalone, Bool.and_eq_true, beq_iff_eq, List.all_eq_true, Bool.or_eq_true, all,
    h.countP_standsAlone, Mark.Standalone, Mark.isBlank_or_newline_iff]
  constructor
  · rintro ⟨hcount, tags, white⟩
    exact ⟨by rwa [List.countP_eq_length.mpr tags] at hcount, tags, white⟩
  · rintro ⟨hlength, tags, white⟩
    exact ⟨by rwa [List.countP_eq_length.mpr tags], tags, white⟩

/-- Without white space, a line that has nothing else besides tags is its tags. -/
theorem Show.filter_outline {line : List Mark} {pieces : List Piece} (h : Show line pieces)
    (white : ∀ c ∈ line.filterMap Mark.char?, Text.isBlank c ∨ c = '\n') :
    (pieces.filter (!·.isSpace)).flatMap outline =
      (line.filter (·.tag?.isSome)).flatMap Mark.outline := by
  induction h with
  | nil => rfl
  | @cons ms marks p pieces shows _ ih =>
    rw [List.filterMap_append, List.forall_mem_append] at white
    rw [List.filter_append, List.flatMap_append, ← ih white.2]
    cases shows with
    | @segment s pure =>
      have none : (s.chars.map Mark.char).filter (·.tag?.isSome) = [] := by
        simp [List.filter_map, Function.comp_def, Mark.tag?]
      rw [none]
      cases s with
      | newline | blank cs => simp [ofSegment, isSpace]
      | text cs =>
        obtain ⟨c, hc⟩ := List.exists_mem_of_ne_nil cs pure.1
        rw [filterMap_char?_chars] at white
        exact absurd (white.1 c hc) (by simp [pure.2 c hc])
    | @tag t p outline _ space => simp [space, Mark.tag?, outline]

theorem Show.stripLine_outline {line : List Mark} {pieces : List Piece} (h : Show line pieces) :
    (stripLine pieces).flatMap outline =
      (if Mark.Standalone line then line.filter (·.tag?.isSome) else line).flatMap
        Mark.outline := by
  unfold stripLine
  by_cases hs : Mark.Standalone line
  · rw [if_pos (h.isStandalone_iff.mpr hs), if_pos hs]
    exact h.filter_outline fun c hc => Mark.isBlank_or_newline_iff.mpr (hs.2.2 c hc)
  · rw [if_neg fun hp => hs (h.isStandalone_iff.mp hp), if_neg hs]
    exact h.outline_eq

theorem Show.strip_outline {marks : List Mark} {pieces : List Piece} (h : Show marks pieces) :
    (strip pieces).flatMap outline = (Mark.elide marks).flatMap Mark.outline := by
  have lines := h.lines
  unfold strip Mark.elide
  generalize Mark.lines marks = ls at lines
  generalize Piece.lines pieces = ps at lines
  induction lines with
  | nil => rfl
  | cons first _ ih =>
    simp only [List.flatMap_cons, List.flatMap_append]
    rw [ih, first.stripLine_outline]

end Piece
end Mustache
