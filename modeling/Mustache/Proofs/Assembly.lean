import Mustache.Proofs.Tree

namespace Mustache

namespace Assembly

@[simp] theorem flush_literal (a : Assembly) : a.flush.literal = "" := by
  unfold flush
  split
  · assumption
  · rfl

@[simp] theorem flush_openSections (a : Assembly) : a.flush.openSections = a.openSections := by
  unfold flush
  split <;> rfl

@[simp] theorem push_toList (a : Assembly) (op : Op) :
    (a.push op).ops.toList = a.ops.toList ++ [op] := by
  simp [push]

theorem closeSection_of_cons {a : Assembly} {start : Nat} {outer : List Nat}
    (h : a.openSections = start :: outer) (name raw : String) :
    a.closeSection name raw =
      { a with
        ops := (a.ops.modify start (.link (a.ops.size - start - 1) raw)).push (.closeSection name)
        openSections := outer } := by
  simp [closeSection, h]

end Assembly

namespace Node.Growth

def names (g : Growth) : List String :=
  g.around.map (·.name)

/-- The assembly has taken up the same pieces as the growth. -/
structure Mirrors (g : Growth) (a : Assembly) : Prop where
  ops : a.ops.toList = Stem.ops g.around ++ flattenAll g.nodes
  literal : a.literal = g.text
  openSections : a.openSections = Stem.starts g.around

theorem mirrors_empty : Mirrors .empty .empty :=
  ⟨rfl, rfl, rfl⟩

theorem Mirrors.addText {g : Growth} {a : Assembly} (m : Mirrors g a) (text : String) :
    Mirrors (g.addText text) (a.addText text) :=
  ⟨m.ops, congrArg (· ++ text) m.literal, m.openSections⟩

theorem Mirrors.flush {g : Growth} {a : Assembly} (m : Mirrors g a) :
    Mirrors ⟨g.settled, "", g.around⟩ a.flush := by
  refine ⟨?_, by simp, by simpa using m.openSections⟩
  unfold settled Assembly.flush
  by_cases h : g.text = ""
  · simpa [h, m.literal] using m.ops
  · simp [h, m.literal, m.ops, flatten]

theorem Mirrors.add {g : Growth} {a : Assembly} (m : Mirrors g a) {node : Node} {op : Op}
    (h : node.flatten = [op]) : Mirrors (g.add node) (a.flush.push op) := by
  have f := m.flush
  refine ⟨?_, f.literal, f.openSections⟩
  rw [Assembly.push_toList, f.ops]
  simp [Growth.add, h]

theorem Mirrors.openTag {g : Growth} {a : Assembly} (m : Mirrors g a) (name : String)
    (inverted : Bool) :
    Mirrors (g.step (.openTag name inverted)) (a.step (.openTag name inverted)) := by
  have f := m.flush
  refine ⟨?_, f.literal, ?_⟩
  · simp only [Assembly.step, Assembly.openSection, Array.toList_push, f.ops]
    simp [step, Stem.ops, flattenAll]
  · simp only [Assembly.step, Assembly.openSection, f.openSections]
    simp [step, Stem.starts, ← Array.length_toList, f.ops]

/-- Where the innermost section starts, an opening operation without a body is found: the link to
patch. All operations after it are the body. -/
theorem Mirrors.innermost {stem : Stem} {nodes : List Node} {text : String} {around : List Stem}
    {a : Assembly} (m : Mirrors ⟨nodes, text, stem :: around⟩ a) :
    ∃ start, a.openSections = start :: Stem.starts around ∧
      start = (Stem.ops around ++ flattenAll stem.before).length ∧
      a.ops.size - start - 1 = (flattenAll nodes).length ∧
      a.ops[start]? = some (.openSection stem.name stem.inverted 0 "") := by
  refine ⟨_, m.openSections, rfl, ?_, ?_⟩
  · rw [← Array.length_toList, m.ops]
    simp [Stem.ops]
    omega
  · rw [← Array.getElem?_toList, m.ops]
    simp [Stem.ops]

/-- Linking the innermost section makes its operations those of a whole node. -/
theorem Mirrors.closeTag {g : Growth} {a : Assembly} (m : Mirrors g a) {stem : Stem}
    {around : List Stem} (hg : g.around = stem :: around) (raw : String) :
    Mirrors (g.step (.closeTag stem.name raw)) (a.step (.closeTag stem.name raw)) := by
  have f := m.flush
  rw [hg] at f
  obtain ⟨start, hs, hstart, hbody, _⟩ := f.innermost
  have hops : a.flush.ops.toList = (Stem.ops around ++ flattenAll stem.before) ++
      .openSection stem.name stem.inverted 0 "" :: flattenAll g.settled := by
    simpa [Stem.ops] using f.ops
  -- The link goes to the operation between what was there before the section and the body.
  have hmodify : a.flush.ops.toList.modify start (.link (flattenAll g.settled).length raw) =
      (Stem.ops around ++ flattenAll stem.before) ++
        .openSection stem.name stem.inverted (flattenAll g.settled).length raw ::
          flattenAll g.settled := by
    rw [hops, hstart, List.modify_eq_take_drop, List.take_left, List.drop_left]
    rfl
  have hg' : g.step (.closeTag stem.name raw) =
      ⟨stem.before ++ [.block stem.name stem.inverted raw g.settled], "", around⟩ := by
    simp [step, hg]
  rw [hg', Assembly.step, Assembly.closeSection_of_cons hs, hbody]
  refine ⟨?_, f.literal, rfl⟩
  rw [Array.toList_push, Array.toList_modify, hmodify]
  simp [flatten]

theorem exists_around_of_closes {g : Growth} {name raw : String} {rest : List Piece}
    (h : Piece.Closes g.names (.closeTag name raw :: rest)) :
    ∃ stem around, g.around = stem :: around ∧ stem.name = name := by
  generalize hn : g.names = names at h
  cases h with
  | closeTag _ _ outside =>
    obtain ⟨stem, around, hg, hname, _⟩ := List.map_eq_cons_iff.mp hn
    exact ⟨stem, around, hg, hname⟩
  | other bound => cases bound

theorem closes_step {g : Growth} {piece : Piece} {rest : List Piece}
    (h : Piece.Closes g.names (piece :: rest)) : Piece.Closes (g.step piece).names rest := by
  generalize hn : g.names = names at h
  cases h with
  | openTag name inverted inside =>
    subst hn
    exact inside
  | closeTag name raw outside =>
    obtain ⟨stem, around, hg, rfl, rfl⟩ := List.map_eq_cons_iff.mp hn
    simpa only [Growth.step, hg, names] using outside
  | other bound after =>
    subst hn
    cases piece with
    | openTag | closeTag => cases bound
    | _ => exact after

/-- One step: the piece may end no section but the innermost. -/
theorem Mirrors.step {g : Growth} {a : Assembly} (m : Mirrors g a) {piece : Piece}
    {rest : List Piece} (h : Piece.Closes g.names (piece :: rest)) :
    Mirrors (g.step piece) (a.step piece) ∧ Piece.Closes (g.step piece).names rest := by
  refine ⟨?_, closes_step h⟩
  cases piece with
  | openTag name inverted => exact m.openTag name inverted
  | closeTag name raw =>
    obtain ⟨stem, around, hg, rfl⟩ := exists_around_of_closes h
    exact m.closeTag hg raw
  | text cs | blank cs | newline => exact m.addText _
  | silent => exact m
  | inclusion name => exact m.add rfl
  | variableTag name escaped => cases escaped <;> exact m.add rfl

theorem Mirrors.run {g : Growth} {a : Assembly} (m : Mirrors g a) {pieces rest : List Piece}
    (h : Piece.Closes g.names (pieces ++ rest)) :
    Mirrors (pieces.foldl Growth.step g) (pieces.foldl Assembly.step a) ∧
      Piece.Closes (pieces.foldl Growth.step g).names rest := by
  induction pieces generalizing g a with
  | nil => exact ⟨m, h⟩
  | cons piece pieces ih =>
    obtain ⟨next, closes⟩ := m.step h
    exact ih next closes

theorem around_eq_nil_of_closes {g : Growth} (h : Piece.Closes g.names []) : g.around = [] := by
  generalize hn : g.names = names at h
  cases h
  exact List.map_eq_nil_iff.mp hn

end Node.Growth

theorem Program.ofPieces_eq_flatten {pieces : List Piece} (h : Piece.Closes [] pieces) :
    (Program.ofPieces pieces).ops = Node.flattenAll (Node.ofPieces pieces) := by
  have h' : Piece.Closes Node.Growth.empty.names (pieces ++ []) := by
    rw [List.append_nil]
    exact h
  obtain ⟨m, closes⟩ := Node.Growth.mirrors_empty.run h'
  have f := m.flush
  rw [Node.Growth.around_eq_nil_of_closes closes] at f
  exact f.ops

end Mustache
