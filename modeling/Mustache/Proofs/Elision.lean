import Mustache.Proofs.Assembly
import Mustache.Proofs.Marks

namespace Mustache

namespace Op

/-- The characters of literals, and the other operations without what they say of a body. -/
def outline (ops : List Op) : List (Char ⊕ Op) :=
  ops.flatMap fun
    | .literal text => text.toList.map .inl
    | op => [.inr (op.link 0 "")]

/-- An operation other than a literal, without the length of its body. -/
def step? : Op → Option Op
  | .literal _ => none
  | .openSection name inverted _ raw => some (.openSection name inverted 0 raw)
  | op => some op

@[simp] theorem outline_append (xs ys : List Op) : outline (xs ++ ys) = outline xs ++ outline ys :=
  List.flatMap_append

theorem outline_modify (ops : List Op) (i n : Nat) (raw : String) :
    outline (ops.modify i (link n raw)) = outline ops := by
  have single (op : Op) : outline [op.link n raw] = outline [op] := by
    cases op <;> rfl
  induction ops generalizing i with
  | nil => simp
  | cons op ops ih =>
    cases i with
    | zero =>
      have := single op
      rw [List.modify_zero_cons, ← List.singleton_append, outline_append, this, ← outline_append]
      rfl
    | succ i =>
      rw [List.modify_succ_cons, ← List.singleton_append, outline_append, ih, ← outline_append]
      rfl

end Op

namespace Assembly

def outline (a : Assembly) : List (Char ⊕ Op) :=
  Op.outline a.ops.toList ++ a.literal.toList.map .inl

theorem outline_flush (a : Assembly) : a.flush.outline = a.outline := by
  unfold flush
  split
  · rfl
  · simp [outline, Op.outline]

theorem outline_addText (a : Assembly) (text : String) :
    (a.addText text).outline = a.outline ++ text.toList.map .inl := by
  simp [outline, addText]

/-- An operation that is no literal comes behind all text. -/
theorem outline_flush_push (a : Assembly) {op : Op} (h : ∀ text, op ≠ .literal text) :
    (a.flush.push op).outline = a.outline ++ [.inr (op.link 0 "")] := by
  have hop : Op.outline [op] = [.inr (op.link 0 "")] := by
    cases op with
    | literal text => exact absurd rfl (h text)
    | _ => rfl
  have hflush := a.outline_flush
  simp only [outline, flush_literal] at hflush
  rw [← hop, outline, push_toList, Op.outline_append, outline, ← hflush]
  simp [push]

theorem outline_step (a : Assembly) (piece : Piece) :
    (a.step piece).outline = a.outline ++ piece.outline := by
  cases piece with
  | text cs | blank cs =>
    rw [step, outline_addText, String.toList_ofList]
    rfl
  | newline => exact outline_addText a "\n"
  | silent => exact (List.append_nil _).symm
  | inclusion name => exact a.outline_flush_push (by simp)
  | variableTag name escaped => cases escaped <;> exact a.outline_flush_push (by simp)
  | openTag name inverted => exact a.outline_flush_push (by simp)
  | closeTag name raw =>
    have pushed : (a.flush.push (.closeSection name)).outline =
        a.outline ++ [.inr ((Op.closeSection name).link 0 "")] := a.outline_flush_push (by simp)
    rw [step, closeSection]
    split
    · exact pushed
    next start outer _ =>
      rw [outline, push_toList, Op.outline_append] at pushed
      rw [outline, Array.toList_push, Op.outline_append, Array.toList_modify, Op.outline_modify]
      exact pushed

theorem outline_foldl (a : Assembly) (pieces : List Piece) :
    (pieces.foldl step a).outline = a.outline ++ pieces.flatMap Piece.outline := by
  induction pieces generalizing a with
  | nil => simp
  | cons piece pieces ih => rw [List.foldl_cons, ih, outline_step, List.flatMap_cons,
      List.append_assoc]

end Assembly

/-- A program has the text and the tags of its pieces, in order. -/
theorem Program.outline_ofPieces (pieces : List Piece) :
    Op.outline (ofPieces pieces).ops = pieces.flatMap Piece.outline := by
  have run : (Assembly.ofPieces pieces).flush.outline = pieces.flatMap Piece.outline := by
    rw [Assembly.outline_flush]
    exact Assembly.outline_foldl .empty pieces
  rw [Assembly.outline, Assembly.flush_literal] at run
  exact (List.append_nil _).symm.trans run

namespace Node

/-- The operations of nodes besides literals, which the text among the nodes does not change. -/
def steps (nodes : List Node) : List Op :=
  (flattenAll nodes).filterMap Op.step?

@[simp] theorem steps_append (xs ys : List Node) : steps (xs ++ ys) = steps xs ++ steps ys := by
  simp [steps]

theorem steps_block (name : String) (inverted : Bool) (raw : String) (children : List Node) :
    steps [.block name inverted raw children] =
      .openSection name inverted 0 raw :: (steps children ++ [.closeSection name]) := by
  simp [steps, flatten, Op.step?]

def Stem.steps (stem : Stem) : List Op × String × Bool :=
  (Node.steps stem.before, stem.name, stem.inverted)

namespace Growth

/-- Two growths that differ in their text only. -/
structure Alike (g h : Growth) : Prop where
  nodes : steps g.nodes = steps h.nodes
  around : g.around.map Stem.steps = h.around.map Stem.steps

theorem steps_settled (g : Growth) : steps g.settled = steps g.nodes := by
  unfold settled
  split
  · rfl
  · rw [steps_append]
    exact List.append_nil _

variable {g h : Growth}

theorem Alike.add (a : Alike g h) (node : Node) : Alike (g.add node) (h.add node) := by
  refine ⟨?_, a.around⟩
  simp only [Growth.add, steps_append, steps_settled, a.nodes]

theorem Alike.step (a : Alike g h) (piece : Piece) : Alike (g.step piece) (h.step piece) := by
  cases piece with
  | text | blank | newline | silent => exact ⟨a.nodes, a.around⟩
  | inclusion name => exact a.add _
  | variableTag name escaped => exact a.add _
  | openTag name inverted =>
    refine ⟨rfl, ?_⟩
    simp only [Growth.step, List.map_cons, Stem.steps, steps_settled, a.nodes]
    exact congrArg _ a.around
  | closeTag name raw =>
    have around := a.around
    simp only [Growth.step]
    cases hg : g.around with
    | nil =>
      rw [hg] at around
      rw [List.map_eq_nil_iff.mp around.symm]
      exact a
    | cons stem outer =>
      rw [hg, List.map_cons] at around
      obtain ⟨stem', outer', hh, hstem, houter⟩ := List.map_eq_cons_iff.mp around.symm
      simp only [Stem.steps, Prod.mk.injEq] at hstem
      rw [hh]
      refine ⟨?_, houter.symm⟩
      simp only [steps_append, steps_block, steps_settled, a.nodes, hstem]

theorem Alike.step_space (a : Alike g h) {piece : Piece} (hs : piece.isSpace) :
    Alike (g.step piece) h := by
  cases piece with
  | blank | newline => exact ⟨a.nodes, a.around⟩
  | _ => cases hs

theorem Alike.foldl_filter (a : Alike g h) (pieces : List Piece) :
    Alike (pieces.foldl Growth.step g) ((pieces.filter (!·.isSpace)).foldl Growth.step h) := by
  induction pieces generalizing g h with
  | nil => exact a
  | cons piece pieces ih =>
    by_cases hs : piece.isSpace = true
    · simpa [hs] using ih (a.step_space hs)
    · simpa [hs] using ih (a.step piece)

end Growth

theorem steps_filter (pieces : List Piece) :
    steps (ofPieces pieces) = steps (ofPieces (pieces.filter (!·.isSpace))) := by
  have alike := Growth.Alike.foldl_filter (g := .empty) ⟨rfl, rfl⟩ pieces
  simp only [ofPieces, Growth.steps_settled, alike.nodes]

end Node

/-- White space among the pieces makes no difference for the other operations. -/
theorem Program.steps_strip {pieces : List Piece} (closes : Piece.Closes [] pieces) :
    (ofPieces (Piece.strip pieces)).ops.filterMap Op.step? =
      (ofPieces pieces).ops.filterMap Op.step? := by
  -- Only tags open and close, and the strip takes none of them away.
  have stripped : Piece.Closes [] (Piece.strip pieces) := by
    rwa [← Piece.closes_filter_iff Piece.not_isSpace_of_isBound, Piece.filter_strip,
      Piece.closes_filter_iff Piece.not_isSpace_of_isBound]
  rw [ofPieces_eq_flatten closes, ofPieces_eq_flatten stripped]
  have h := Node.steps_filter (Piece.strip pieces)
  rw [Piece.filter_strip, ← Node.steps_filter] at h
  exact h

theorem exists_items_of_ofTemplate {template : List Char} {tags : Delimiters}
    {pieces : List Piece} (h : Piece.ofTemplate template tags = .ok pieces) :
    (scan template tags).fault = none ∧
      Item.pieces template [] (scan template tags).items = .ok (pieces, []) := by
  simp only [Piece.ofTemplate, bind, Except.bind] at h
  split at h
  · cases h
  next found hf =>
    obtain ⟨first, left⟩ := found
    split at h
    · cases h
    next hfault hleft =>
      cases h
      cases hleft
      exact ⟨hfault, hf⟩
    · cases h

/-- The marks of a template in which all tags can be read make up the template. -/
theorem flatMap_spelling_marks {template : List Char} {tags : Delimiters}
    (h : (scan template tags).fault = none) :
    ((scan template tags).items.flatMap Item.marks).flatMap (Mark.spelling template) =
      template := by
  obtain ⟨placed, hitems, reads⟩ := (Cursor.start template tags).exists_reads_scan
  obtain ⟨left, hrest, hnone, _⟩ := reads.lossless
  have consecutive := reads.consecutive
  have hleft : left = [] := hnone h
  subst hleft
  have htemplate : template = [] ++ placed.flatMap Placed.spelling ++ [] := hrest
  have one : ∀ p ∈ placed, p.item.marks.flatMap (Mark.spelling template) = p.spelling := by
    intro p hp
    cases hitem : p.item with
    | text cs =>
      simp only [Item.marks, Placed.spelling, hitem, List.flatMap_map, Mark.spelling]
      exact List.flatMap_singleton' cs
    | tag t =>
      obtain ⟨_, before, after, hplace, hstart⟩ := consecutive.place htemplate rfl hp
      simp only [Item.marks, List.flatMap_singleton, Mark.spelling, reads.span_eq hp hitem,
        Placed.stop, ← hstart]
      rw [hplace]
      exact Text.slice_append before p.spelling after
  rw [show (scan template tags).items = _ from hitems, List.flatMap_assoc, List.flatMap_map]
  rw [List.append_nil, List.nil_append] at htemplate
  rw [List.flatMap_congr one]
  exact htemplate.symm

/-- White space is kept or elided with the same error or with programs that differ in text only.
Kept, the text is all that stands outside of tags; elided, it is that without the characters of
standalone lines. -/
theorem parse_elides_standalone_lines (text : String) (options : Options) :
    let kept := parse text { options with preserveWhitespace := true }
    let elided := parse text { options with preserveWhitespace := false }
    let marks := (scan text.toList options.tags).items.flatMap Item.marks
    (∃ e, kept = .error e ∧ elided = .error e) ∨
      ∃ p q, kept = .ok p ∧ elided = .ok q ∧
        p.ops.filterMap Op.step? = q.ops.filterMap Op.step? ∧
        marks.flatMap (Mark.spelling text.toList) = text.toList ∧
        Op.outline p.ops = marks.flatMap Mark.outline ∧
        Op.outline q.ops = (Mark.elide marks).flatMap Mark.outline := by
  intro kept elided marks
  cases h : Piece.ofTemplate text.toList options.tags with
  | error site =>
    left
    exact ⟨_, parse_of_error h, parse_of_error h⟩
  | ok pieces =>
    right
    obtain ⟨hfault, hpieces⟩ := exists_items_of_ofTemplate h
    have shown : Piece.Show marks pieces := Piece.show_items hpieces
    refine ⟨_, _, parse_of_ok h, parse_of_ok h, ?_, flatMap_spelling_marks hfault, ?_, ?_⟩
    · exact (Program.steps_strip (Piece.closes_of_ofTemplate h)).symm
    · exact (Program.outline_ofPieces pieces).trans shown.outline_eq
    · exact (Program.outline_ofPieces _).trans shown.strip_outline

end Mustache
