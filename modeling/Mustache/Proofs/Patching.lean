import Mustache.Proofs.Linking

namespace Mustache

namespace Assembly

/-- Between two pieces the literals are merged, and no literal is last. -/
structure Tidy (a : Assembly) : Prop where
  merged : Op.Merged a.ops.toList
  last : ∀ text, a.ops.toList.getLast? ≠ some (.literal text)

theorem tidy_empty : Tidy empty :=
  ⟨Op.merged_nil, by simp [empty]⟩

theorem Tidy.flush {a : Assembly} (h : Tidy a) : Op.Merged a.flush.ops.toList := by
  unfold Assembly.flush
  split
  · exact h.merged
  next hne =>
    rw [Array.toList_push]
    refine h.merged.concat ?_
    intro text htext
    cases htext
    exact ⟨hne, h.last⟩

theorem tidy_of_push {a : Assembly} {ops : Array Op} {op : Op}
    (ha : a.ops = ops.push op) (h : Op.Merged ops.toList) (hop : ∀ text, op ≠ .literal text) :
    Tidy a := by
  constructor
  · rw [ha, Array.toList_push]
    exact h.concat fun text htext => absurd htext (hop text)
  · intro text
    rw [ha, Array.toList_push, List.getLast?_concat]
    simpa using hop text

theorem Tidy.step {a : Assembly} (h : Tidy a) (piece : Piece) : Tidy (a.step piece) := by
  cases piece with
  | text | blank | newline | silent => exact ⟨h.merged, h.last⟩
  | inclusion name => exact tidy_of_push rfl h.flush (by simp)
  | variableTag name escaped => cases escaped <;> exact tidy_of_push rfl h.flush (by simp)
  | openTag name inverted => exact tidy_of_push rfl h.flush (by simp)
  | closeTag name raw =>
    simp only [Assembly.step, closeSection]
    split
    · exact tidy_of_push rfl h.flush (by simp)
    · refine tidy_of_push rfl ?_ (by simp)
      rw [Array.toList_modify]
      exact h.flush.modify _ _ _

theorem tidy_ofPieces (pieces : List Piece) : Tidy (ofPieces pieces) := by
  unfold ofPieces
  generalize ha : empty = a
  have h : Tidy a := ha ▸ tidy_empty
  clear ha
  induction pieces generalizing a with
  | nil => exact h
  | cons piece pieces ih => exact ih _ (h.step piece)

/-- The operation at `i` is there and waits for no link. -/
structure Settled (a : Assembly) (i : Nat) : Prop where
  lt_size : i < a.ops.size
  not_mem : i ∉ a.openSections

/-- What `a` has settled at `i` is the same in `b`. -/
def Keeps (a b : Assembly) (i : Nat) : Prop :=
  b.Settled i ∧ b.ops[i]? = a.ops[i]?

theorem Keeps.trans {a b c : Assembly} {i : Nat} (h : a.Keeps b i) (h' : b.Keeps c i) :
    a.Keeps c i :=
  ⟨h'.1, h'.2.trans h.2⟩

namespace Settled

variable {a : Assembly} {i : Nat}

theorem push (h : a.Settled i) (op : Op) : a.Keeps (a.push op) i := by
  have hlt := h.lt_size
  refine ⟨⟨?_, h.not_mem⟩, ?_⟩
  · simp only [Assembly.push, Array.size_push]
    omega
  · exact Array.getElem?_push_lt hlt |>.trans (Array.getElem?_eq_getElem hlt).symm

theorem flush (h : a.Settled i) : a.Keeps a.flush i := by
  unfold Assembly.flush
  split
  · exact ⟨h, rfl⟩
  · obtain ⟨⟨hlt, hmem⟩, hop⟩ := h.push (.literal a.literal)
    exact ⟨⟨hlt, hmem⟩, hop⟩

theorem openSection (h : a.Settled i) (name : String) (inverted : Bool) :
    a.Keeps (a.openSection name inverted) i := by
  obtain ⟨⟨hlt, hmem⟩, hop⟩ := h.push (.openSection name inverted 0 "")
  refine ⟨⟨hlt, ?_⟩, hop⟩
  have := h.lt_size
  simp only [Assembly.openSection, List.mem_cons, not_or]
  exact ⟨by omega, hmem⟩

theorem closeSection (h : a.Settled i) (name raw : String) :
    a.Keeps (a.closeSection name raw) i := by
  have hmem := h.not_mem
  unfold Assembly.closeSection
  split
  · exact h.push _
  next start outer hs =>
    rw [hs, List.mem_cons, not_or] at hmem
    have hlt := h.lt_size
    refine ⟨⟨?_, hmem.2⟩, ?_⟩
    · simp only [Array.size_push, Array.size_modify]
      omega
    · rw [Array.getElem?_push, Array.size_modify, if_neg (by omega), Array.getElem?_modify,
        if_neg (Ne.symm hmem.1)]

theorem step (h : a.Settled i) (piece : Piece) : a.Keeps (a.step piece) i := by
  have f := h.flush
  cases piece with
  | text | blank | newline | silent => exact ⟨⟨h.lt_size, h.not_mem⟩, rfl⟩
  | inclusion name => exact f.trans (f.1.push _)
  | variableTag name escaped => cases escaped <;> exact f.trans (f.1.push _)
  | openTag name inverted => exact f.trans (f.1.openSection name inverted)
  | closeTag name raw => exact f.trans (f.1.closeSection name raw)

theorem run (h : a.Settled i) (pieces : List Piece) : a.Keeps (pieces.foldl Assembly.step a) i := by
  induction pieces generalizing a with
  | nil => exact ⟨h, rfl⟩
  | cons piece pieces ih =>
    have s := h.step piece
    exact s.trans (ih s.1)

end Settled

theorem step_openSections_of_not_bound (a : Assembly) {piece : Piece}
    (h : piece.isBound = false) : (a.step piece).openSections = a.openSections := by
  cases piece with
  | openTag | closeTag => cases h
  | variableTag name escaped => cases escaped <;> exact flush_openSections a
  | inclusion name => exact flush_openSections a
  | _ => rfl

theorem step_openSections_openTag (a : Assembly) (name : String) (inverted : Bool) :
    (a.step (.openTag name inverted)).openSections = a.flush.ops.size :: a.openSections := by
  simp [step, openSection]

theorem step_openSections_closeTag {a : Assembly} {start : Nat} {outer : List Nat}
    (h : a.openSections = start :: outer) (name raw : String) :
    (a.step (.closeTag name raw)).openSections = outer := by
  have hf : a.flush.openSections = start :: outer := by rw [flush_openSections, h]
  rw [step, closeSection_of_cons hf]

/-- Each open section is ended by some later piece, and is the innermost one then. -/
theorem exists_closeTag {names : List String} {pieces : List Piece} (h : Piece.Closes names pieces)
    {inner outer : List String} {name : String} (hn : names = inner ++ name :: outer)
    {a : Assembly} {above below : List Nat} {start : Nat} (hl : above.length = inner.length)
    (ha : a.openSections = above ++ start :: below) :
    ∃ inside raw rest, pieces = inside ++ .closeTag name raw :: rest ∧
      (inside.foldl step a).openSections = start :: below := by
  -- `inner` and `above` are the sections opened since: their names, and where they start.
  induction h generalizing inner a above with
  | done => simp at hn
  | openTag first inverted _ ih =>
    have next : (a.step (.openTag first inverted)).openSections =
        (a.flush.ops.size :: above) ++ start :: below := by
      rw [step_openSections_openTag, ha]
      rfl
    obtain ⟨inside, raw, rest, rfl, hrun⟩ :=
      @ih (first :: inner) (congrArg (first :: ·) hn) _ _ (by simpa using hl) next
    exact ⟨.openTag first inverted :: inside, raw, rest, rfl, hrun⟩
  | closeTag first raw _ ih =>
    cases inner with
    | nil =>
      cases hn
      rw [List.length_eq_zero_iff.mp hl] at ha
      exact ⟨[], raw, _, rfl, ha⟩
    | cons _ inner =>
      cases hn
      obtain ⟨top, above, rfl⟩ := List.exists_cons_of_length_eq_add_one hl
      have next := step_openSections_closeTag ha first raw
      obtain ⟨inside, raw', rest, rfl, hrun⟩ := ih rfl (by simpa using hl) next
      exact ⟨.closeTag first raw :: inside, raw', rest, rfl, hrun⟩
  | other bound _ ih =>
    have next := step_openSections_of_not_bound a bound
    rw [ha] at next
    obtain ⟨inside, raw, rest, rfl, hrun⟩ := ih hn hl next
    exact ⟨_ :: inside, raw, rest, rfl, hrun⟩

/-- What the assembler does at a closing tag that comes after the pieces `before`. -/
structure Links (program : Program) (before : List Piece) (name raw : String) (start : Nat) :
    Prop where
  innermost : (ofPieces before).flush.openSections.head? = some start
  inRange : start + 1 ≤ (ofPieces before).flush.ops.size
  /-- The operation at the start of the section gets its link, and is not changed again. -/
  patched : ∃ inverted,
    (ofPieces before).flush.ops[start]? = some (.openSection name inverted 0 "") ∧
      program.ops[start]? = some
        (.openSection name inverted ((ofPieces before).flush.ops.size - start - 1) raw)

theorem ofPieces_concat (before : List Piece) (piece : Piece) :
    ofPieces (before ++ [piece]) = (ofPieces before).step piece := by
  simp [ofPieces]

theorem Settled.program {before : List Piece} {i : Nat} (h : (ofPieces before).Settled i)
    (after : List Piece) :
    (Program.ofPieces (before ++ after)).ops[i]? = (ofPieces before).ops[i]? := by
  obtain ⟨hs, hrun⟩ := h.run after
  rw [← hrun, ← hs.flush.2, Program.ofPieces, Array.getElem?_toList]
  simp [ofPieces]

/-- The operation where the innermost section starts gets its link. -/
theorem step_closeTag_patches {a : Assembly} {start : Nat} {outer : List Nat} {opened : String}
    {inverted : Bool} (hs : a.flush.openSections = start :: outer)
    (hop : a.flush.ops[start]? = some (.openSection opened inverted 0 "")) (name raw : String) :
    (a.step (.closeTag name raw)).ops[start]? =
      some (.openSection opened inverted (a.flush.ops.size - start - 1) raw) := by
  obtain ⟨hlt, _⟩ := Array.getElem?_eq_some_iff.mp hop
  rw [step, closeSection_of_cons hs]
  rw [Array.getElem?_push, Array.size_modify, if_neg (by omega), Array.getElem?_modify, if_pos rfl,
    hop]
  rfl

theorem step_closeTag_settles {a : Assembly} {start : Nat} {outer : List Nat}
    (hs : a.flush.openSections = start :: outer) (hlt : start < a.flush.ops.size)
    (hmem : start ∉ outer) (name raw : String) : (a.step (.closeTag name raw)).Settled start := by
  rw [step, closeSection_of_cons hs]
  refine ⟨?_, hmem⟩
  simp only [Array.size_push, Array.size_modify]
  omega

theorem exists_links {before after : List Piece} {name raw : String}
    (h : Piece.Closes [] (before ++ .closeTag name raw :: after)) :
    ∃ start, Links (Program.ofPieces (before ++ .closeTag name raw :: after)) before name raw
      start := by
  obtain ⟨m, closes⟩ := Node.Growth.mirrors_empty.run h
  obtain ⟨stem, around, hg, hname⟩ := Node.Growth.exists_around_of_closes closes
  have f : Node.Growth.Mirrors _ (ofPieces before).flush := m.flush
  rw [hg] at f
  obtain ⟨start, hs, hstart, _, hop⟩ := f.innermost
  obtain ⟨hlt, _⟩ := Array.getElem?_eq_some_iff.mp hop
  -- The sections around start earlier, so nothing links this one again.
  have hmem : start ∉ Node.Stem.starts around := by
    intro hmem
    have := Node.Stem.lt_of_mem_starts hmem
    simp only [hstart, List.length_append] at this
    omega
  have settled : (ofPieces (before ++ [.closeTag name raw])).Settled start := by
    rw [ofPieces_concat]
    exact step_closeTag_settles hs hlt hmem name raw
  have final := settled.program after
  rw [List.append_assoc, List.singleton_append] at final
  refine ⟨start, by rw [hs]; rfl, hlt, stem.inverted, hname ▸ hop, ?_⟩
  rw [final, ofPieces_concat, step_closeTag_patches hs hop, hname]

theorem exists_closeTag_of_openTag {before after : List Piece} {name : String} {inverted : Bool}
    (h : Piece.Closes [] (before ++ .openTag name inverted :: after)) :
    ∃ inside raw rest, after = inside ++ .closeTag name raw :: rest ∧
      (ofPieces (before ++ .openTag name inverted :: inside)).openSections.head? =
        some (ofPieces before).flush.ops.size := by
  obtain ⟨m, closes⟩ := Node.Growth.mirrors_empty.run h
  obtain ⟨_, inside⟩ := m.step closes
  have next : ((ofPieces before).step (.openTag name inverted)).openSections =
      [] ++ (ofPieces before).flush.ops.size :: (ofPieces before).openSections :=
    step_openSections_openTag (ofPieces before) name inverted
  obtain ⟨inside, raw, rest, hafter, hrun⟩ :=
    exists_closeTag inside (List.nil_append _).symm rfl next
  refine ⟨inside, raw, rest, hafter, ?_⟩
  simp only [ofPieces, List.foldl_append, List.foldl_cons] at hrun ⊢
  rw [hrun]
  rfl

end Assembly

theorem Program.wellLinked_ofPieces {pieces : List Piece} (h : Piece.Closes [] pieces) :
    Op.WellLinked (Program.ofPieces pieces).ops := by
  constructor
  · rw [Program.ofPieces_eq_flatten h]
    exact Node.linked_flattenAll _
  · exact (Assembly.tidy_ofPieces pieces).flush

theorem wellLinked_of_parse {text : String} {options : Options} {program : Program}
    (h : parse text options = .ok program) : Op.WellLinked program.ops := by
  obtain ⟨pieces, hp, rfl⟩ := exists_pieces_of_parse h
  exact Program.wellLinked_ofPieces (Piece.closes_kept hp)

/-- Compiled programs are well linked, and so are the bodies of their sections, which are all there
in full. The assembler finds an open section at each closing tag, and links each section. -/
theorem parse_wellLinked {text : String} {options : Options} {program : Program}
    (h : parse text options = .ok program) :
    (∀ ops, Op.Slice program ops → Op.WellLinked ops ∧
      ∀ i name n, Op.SectionAt ops i name n → (Op.body? n (ops.drop (i + 1))).isSome) ∧
    ∃ pieces, (Piece.ofTemplate text.toList options.tags).map options.kept = .ok pieces ∧
      program = .ofPieces pieces ∧
      (∀ before name raw after, pieces = before ++ .closeTag name raw :: after →
        ∃ start, Assembly.Links program before name raw start) ∧
      ∀ before name inverted after, pieces = before ++ .openTag name inverted :: after →
        ∃ inside raw rest, after = inside ++ .closeTag name raw :: rest ∧
          Assembly.Links program (before ++ .openTag name inverted :: inside) name raw
            (Assembly.ofPieces before).flush.ops.size := by
  refine ⟨?_, ?_⟩
  · intro ops slice
    have linked := slice.wellLinked (wellLinked_of_parse h)
    exact ⟨linked, fun i name n hs => linked.isSome_body? hs⟩
  obtain ⟨found, hp, rfl⟩ := exists_pieces_of_parse h
  have closes : Piece.Closes [] (options.kept found) := Piece.closes_kept hp
  refine ⟨options.kept found, by rw [hp]; rfl, rfl, ?_, ?_⟩
  · intro before name raw after heq
    rw [heq] at closes ⊢
    exact Assembly.exists_links closes
  · intro before name inverted after heq
    rw [heq] at closes ⊢
    obtain ⟨inside, raw, rest, rfl, hopen⟩ := Assembly.exists_closeTag_of_openTag closes
    refine ⟨inside, raw, rest, rfl, ?_⟩
    rw [← List.cons_append, ← List.append_assoc] at closes ⊢
    obtain ⟨start, links⟩ := Assembly.exists_links closes
    have hstart := links.innermost
    rw [Assembly.flush_openSections, hopen, Option.some_inj] at hstart
    rwa [hstart]

/-- The body of a section with a section inside. -/
theorem wellLinked_body_of_nested :
    ∃ program, parse "{{#s}}b{{^t}}c{{/t}}{{/s}}" .standard = .ok program ∧
      Op.Slice program (Op.body 4 (program.ops.drop 1)) ∧
      Op.WellLinked (Op.body 4 (program.ops.drop 1)) := by
  have compiles : parse "{{#s}}b{{^t}}c{{/t}}{{/s}}" .standard = .ok
      ⟨[.openSection "s" false 4 "b{{^t}}c{{/t}}", .literal "b", .openSection "t" true 1 "c",
        .literal "c", .closeSection "t", .closeSection "s"]⟩ := by
    rw [parse_eq_ok_iff]
    decide +kernel
  refine ⟨_, compiles, ?slice, ((parse_wellLinked compiles).1 _ ?slice).1⟩
  exact .body .whole ⟨false, _, rfl⟩

end Mustache
