import Mustache.Proofs.Concatenation
import Mustache.Proofs.Delivery
import Mustache.Proofs.Patching

namespace Mustache

namespace Piece

theorem Closes.append {names : List String} {first others : List Piece} (h : Closes names first)
    (ho : Closes [] others) : Closes names (first ++ others) := by
  induction h with
  | done => exact ho
  | openTag name inverted _ ih => exact .openTag name inverted ih
  | closeTag name raw _ ih => exact .closeTag name raw ih
  | other bound _ ih => exact .other bound ih

end Piece

namespace Node

/-- Nodes behind others and a text. A text at their start goes on with that text. -/
def join (before : List Node) (text : String) : List Node → List Node
  | .text s :: nodes => before ++ .text (text ++ s) :: nodes
  | nodes => Growth.settled ⟨before, text, []⟩ ++ nodes

variable {before nodes : List Node} {text : String}

theorem join_nil : join before text [] = Growth.settled ⟨before, text, []⟩ :=
  List.append_nil _

theorem join_append (hne : nodes ≠ []) (others : List Node) :
    join before text (nodes ++ others) = join before text nodes ++ others := by
  obtain ⟨node, nodes, rfl⟩ := List.exists_cons_of_ne_nil hne
  cases node <;> simp [join]

/-- A node that is no text comes behind the text. -/
theorem join_concat {node : Node} (h : ∀ s, node ≠ .text s) (nodes : List Node) :
    join before text (nodes ++ [node]) = join before text nodes ++ [node] := by
  by_cases hne : nodes = []
  · subst hne
    rw [join_nil, List.nil_append]
    cases node with
    | text s => exact absurd rfl (h s)
    | _ => rfl
  · exact join_append hne [node]

/-- Either two texts meet, or the nodes come behind the others as they are. -/
theorem join_cases (before : List Node) (text : String) (nodes : List Node) :
    (∃ s rest, nodes = .text s :: rest ∧
      Growth.settled ⟨before, text, []⟩ = before ++ [.text text] ∧
      join before text nodes = before ++ .text (text ++ s) :: rest) ∨
    (text = "" ∨ ∀ s, nodes.head? ≠ some (.text s)) ∧
      join before text nodes = Growth.settled ⟨before, text, []⟩ ++ nodes := by
  cases nodes with
  | nil => exact .inr ⟨.inr (by simp), rfl⟩
  | cons node rest =>
    cases node with
    | text s =>
      by_cases htext : text = ""
      · refine .inr ⟨.inl htext, ?_⟩
        simp [join, Growth.settled, htext]
      · exact .inl ⟨s, rest, rfl, if_neg htext, rfl⟩
    | _ => exact .inr ⟨.inr (by simp), rfl⟩

def Stem.behind (before : List Node) (text : String) : List Stem → List Stem
  | [] => []
  | [stem] => [{ stem with before := join before text stem.before }]
  | stem :: outer => stem :: behind before text outer

namespace Growth

/-- What a growth is behind some nodes and a text. -/
def behind (before : List Node) (text : String) (g : Growth) : Growth :=
  match g.around, g.nodes with
  | [], [] => ⟨before, text ++ g.text, []⟩
  | [], nodes => ⟨join before text nodes, g.text, []⟩
  | around, _ => ⟨g.nodes, g.text, Stem.behind before text around⟩

theorem settled_behind {g : Growth} (h : g.around = []) :
    (g.behind before text).settled = join before text g.settled := by
  obtain ⟨nodes, s, around⟩ := g
  cases h
  cases nodes with
  | nil =>
    by_cases hs : s = ""
    · subst hs
      rw [show settled ⟨[], "", []⟩ = [] from rfl, join_nil]
      simp only [behind, String.append_empty]
    · have hne : text ++ s ≠ "" := fun he => hs (String.append_eq_empty_iff.mp he).2
      simp [behind, settled, hs, hne, join]
  | cons node nodes =>
    have hb : behind before text ⟨node :: nodes, s, []⟩ =
        ⟨join before text (node :: nodes), s, []⟩ := rfl
    rw [hb]
    unfold settled
    split
    · rfl
    · exact (join_append (List.cons_ne_nil node nodes) _).symm

theorem behind_of_outer {g : Growth} (h : g.around ≠ []) :
    g.behind before text = ⟨g.nodes, g.text, Stem.behind before text g.around⟩ := by
  obtain ⟨nodes, s, around⟩ := g
  cases around with
  | nil => exact absurd rfl h
  | cons stem outer => cases nodes <;> rfl

theorem behind_of_nodes {g : Growth} (h : g.around = []) (hne : g.nodes ≠ []) :
    g.behind before text = ⟨join before text g.nodes, g.text, []⟩ := by
  obtain ⟨nodes, s, around⟩ := g
  cases h
  cases nodes with
  | nil => exact absurd rfl hne
  | cons node nodes => rfl

theorem around_behind (g : Growth) :
    (g.behind before text).around = Stem.behind before text g.around := by
  by_cases h : g.around = []
  · obtain ⟨nodes, s, around⟩ := g
    cases h
    cases nodes <;> rfl
  · rw [behind_of_outer h]

theorem addText_behind (g : Growth) (s : String) :
    (g.addText s).behind before text = (g.behind before text).addText s := by
  obtain ⟨nodes, u, around⟩ := g
  cases around with
  | nil =>
    cases nodes with
    | nil => simp [behind, addText, String.append_assoc]
    | cons node nodes => rfl
  | cons stem outer => cases nodes <;> rfl

theorem add_behind (g : Growth) {node : Node} (h : ∀ s, node ≠ .text s) :
    (g.add node).behind before text = (g.behind before text).add node := by
  by_cases hg : g.around = []
  · have hadd : (g.add node).nodes ≠ [] := by simp [add]
    rw [behind_of_nodes (g := g.add node) hg hadd]
    simp only [add, join_concat h, settled_behind hg, around_behind, hg]
    rfl
  · have hadd : (g.add node).around ≠ [] := hg
    rw [behind_of_outer hadd, behind_of_outer hg]
    rfl

/-- One step: it makes no difference whether the nodes before are put there first or last. -/
theorem step_behind (g : Growth) (piece : Piece) :
    (g.step piece).behind before text = (g.behind before text).step piece := by
  cases piece with
  | text cs | blank cs | newline => exact addText_behind g _
  | silent => rfl
  | variableTag name escaped => exact add_behind g (by simp)
  | inclusion name => exact add_behind g (by simp)
  | openTag name inverted =>
    have houter : (g.step (.openTag name inverted)).around ≠ [] := List.cons_ne_nil _ _
    rw [behind_of_outer houter]
    simp only [step, around_behind]
    by_cases hg : g.around = []
    · rw [settled_behind hg, hg]
      rfl
    · obtain ⟨stem, outer, hcons⟩ := List.exists_cons_of_ne_nil hg
      have hsettled : (g.behind before text).settled = g.settled := by
        rw [behind_of_outer hg]
        rfl
      rw [hsettled, hcons]
      rfl
  | closeTag name raw =>
    obtain ⟨nodes, u, around⟩ := g
    cases around with
    | nil => cases nodes <;> rfl
    | cons stem outer =>
      have hb : behind before text ⟨nodes, u, stem :: outer⟩ =
          ⟨nodes, u, Stem.behind before text (stem :: outer)⟩ :=
        behind_of_outer (List.cons_ne_nil _ _)
      rw [hb]
      cases outer with
      | nil =>
        let node : Node := .block stem.name stem.inverted raw (settled ⟨nodes, u, [stem]⟩)
        have hnode : ∀ s, node ≠ .text s := by simp [node]
        have hne : stem.before ++ [node] ≠ [] := by simp
        have hstep := @behind_of_nodes before text ⟨stem.before ++ [node], "", []⟩ rfl hne
        rw [join_concat hnode] at hstep
        exact hstep
      | cons other outer =>
        rw [behind_of_outer]
        · rfl
        · exact List.cons_ne_nil _ _

theorem foldl_behind (g : Growth) (pieces : List Piece) :
    (pieces.foldl step g).behind before text = pieces.foldl step (g.behind before text) := by
  induction pieces generalizing g with
  | nil => rfl
  | cons piece pieces ih =>
    rw [List.foldl_cons, List.foldl_cons, ih, step_behind]

end Growth

/-- Behind pieces that end their sections, others have the nodes that they have alone, up to where
the text goes on. No text comes before that one. -/
theorem ofPieces_append {first others : List Piece} (h : Piece.Closes [] first)
    (ho : Piece.Closes [] others) :
    ∃ before text, ofPieces first = Growth.settled ⟨before, text, []⟩ ∧
      (∀ s, (flattenAll before).getLast? ≠ some (.literal s)) ∧
      ofPieces (first ++ others) = join before text (ofPieces others) := by
  have ended {pieces : List Piece} (hp : Piece.Closes [] pieces) :
      Growth.Mirrors (pieces.foldl Growth.step .empty) (Assembly.ofPieces pieces) ∧
        (pieces.foldl Growth.step .empty).around = [] := by
    have hp' : Piece.Closes Growth.empty.names (pieces ++ []) := by
      rw [List.append_nil]
      exact hp
    obtain ⟨mirrors, closes⟩ := Growth.mirrors_empty.run hp'
    exact ⟨mirrors, Growth.around_eq_nil_of_closes closes⟩
  obtain ⟨mirrors, haround⟩ := ended h
  obtain ⟨-, haround'⟩ := ended ho
  obtain ⟨before, text, around, hg⟩ : ∃ before text around,
      first.foldl Growth.step .empty = ⟨before, text, around⟩ := ⟨_, _, _, rfl⟩
  rw [hg] at mirrors haround
  cases haround
  refine ⟨before, text, by rw [ofPieces, hg], ?_, ?_⟩
  · intro s
    have hlast := (Assembly.tidy_ofPieces first).last s
    rwa [mirrors.ops] at hlast
  · have hbehind : Growth.behind before text .empty = ⟨before, text, []⟩ := by
      simp [Growth.behind, Growth.empty]
    rw [ofPieces, List.foldl_append, hg, ← hbehind, ← Growth.foldl_behind,
      Growth.settled_behind haround']
    rfl

end Node

/-- Operations behind others. Two literals that meet become one. -/
def Op.fuse (first others : List Op) : List Op :=
  match first.getLast?, others with
  | some (.literal s), .literal t :: rest => first.dropLast ++ .literal (s ++ t) :: rest
  | _, _ => first ++ others

namespace Op

theorem fuse_of_last {first : List Op} (h : ∀ s, first.getLast? ≠ some (.literal s))
    (others : List Op) : fuse first others = first ++ others := by
  unfold fuse
  split
  next hlast => exact absurd hlast (h _)
  next => rfl

theorem fuse_of_head {others : List Op} (h : ∀ s, others.head? ≠ some (.literal s))
    (first : List Op) : fuse first others = first ++ others := by
  unfold fuse
  split
  next => exact absurd rfl (h _)
  next => rfl

theorem fuse_literals (first rest : List Op) (s t : String) :
    fuse (first ++ [.literal s]) (.literal t :: rest) = first ++ .literal (s ++ t) :: rest := by
  simp [fuse]

end Op

namespace Node

theorem head?_flattenAll {nodes : List Node} (h : ∀ s, nodes.head? ≠ some (.text s)) :
    ∀ s, (flattenAll nodes).head? ≠ some (.literal s) := by
  cases nodes with
  | nil => simp [flattenAll]
  | cons node nodes =>
    cases node with
    | text s => exact absurd rfl (h s)
    | variableTag name escaped => cases escaped <;> simp [flattenAll, flatten]
    | inclusion name => simp [flattenAll, flatten]
    | block name inverted raw children => simp [flattenAll, flatten]

/-- The operations of joined nodes. -/
theorem flattenAll_join {before : List Node} {text : String}
    (h : ∀ s, (flattenAll before).getLast? ≠ some (.literal s)) (nodes : List Node) :
    flattenAll (join before text nodes) =
      Op.fuse (flattenAll (Growth.settled ⟨before, text, []⟩)) (flattenAll nodes) := by
  rcases join_cases before text nodes with
    ⟨s, rest, rfl, hsettled, hjoin⟩ | ⟨rfl | hhead, hjoin⟩
  · rw [hjoin, hsettled]
    simp [flattenAll, flatten, Op.fuse_literals]
  · rw [hjoin, flattenAll_append]
    exact (Op.fuse_of_last h _).symm
  · rw [hjoin, flattenAll_append, Op.fuse_of_head (head?_flattenAll hhead)]

end Node
end Mustache
