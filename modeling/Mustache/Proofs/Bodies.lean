import Mustache.Proofs.Elision
import Mustache.Proofs.Fusion

namespace Mustache

def Piece.isOpening : Piece → Bool
  | openTag .. => true
  | _ => false

def Op.isOpening : Op → Bool
  | openSection .. => true
  | _ => false

namespace Piece

theorem Closes.append_outer {inner outer : List String} {first others : List Piece}
    (h : Closes inner first) (ho : Closes outer others) :
    Closes (inner ++ outer) (first ++ others) := by
  induction h with
  | done => exact ho
  | openTag name inverted _ ih => exact .openTag name inverted ih
  | closeTag name raw _ ih => exact .closeTag name raw ih
  | other bound _ ih => exact .other bound ih

/-- Pieces that end a section have its closing tag, before which all sections inside are ended. -/
theorem Closes.exists_closeTag {names inner outer : List String} {name : String}
    {pieces : List Piece} (h : Closes names pieces) (hn : names = inner ++ name :: outer) :
    ∃ inside raw rest, pieces = inside ++ .closeTag name raw :: rest ∧ Closes inner inside ∧
      Closes outer rest := by
  induction h generalizing inner with
  | done => simp at hn
  | openTag first inverted _ ih =>
    have hn' := congrArg (first :: ·) hn
    obtain ⟨inside, raw, rest, rfl, hinside, hrest⟩ := @ih (first :: inner) hn'
    have more := hinside.openTag first inverted
    exact ⟨.openTag first inverted :: inside, raw, rest, rfl, more, hrest⟩
  | closeTag first raw outside ih =>
    cases inner with
    | nil =>
      cases hn
      exact ⟨[], raw, _, rfl, .done, outside⟩
    | cons _ inner =>
      cases hn
      obtain ⟨inside, raw', rest, rfl, hinside, hrest⟩ := ih rfl
      exact ⟨.closeTag first raw :: inside, raw', rest, rfl, .closeTag first raw hinside, hrest⟩
  | other bound _ ih =>
    obtain ⟨inside, raw, rest, rfl, hinside, hrest⟩ := ih hn
    exact ⟨_ :: inside, raw, rest, rfl, .other bound hinside, hrest⟩

/-- Pieces that end all their sections have none, or a first one. -/
theorem Closes.unbound_or_section {pieces : List Piece} (h : Closes [] pieces) :
    (∀ p ∈ pieces, p.isBound = false) ∨ ∃ before name inverted inside raw rest,
      pieces = before ++ .openTag name inverted :: (inside ++ .closeTag name raw :: rest) ∧
        Closes [] before ∧ Closes [] inside ∧ Closes [] rest := by
  generalize hn : [] = names at h
  induction h with
  | done => exact .inl nofun
  | @openTag names pieces name inverted closes ih =>
    subst hn
    obtain ⟨inside, raw, rest, rfl, hinside, hrest⟩ :=
      closes.exists_closeTag (List.nil_append _).symm
    exact .inr ⟨[], name, inverted, inside, raw, rest, rfl, .done, hinside, hrest⟩
  | closeTag => cases hn
  | @other names piece pieces bound after ih =>
    rcases ih hn with hnone | ⟨before, name, inverted, inside, raw, rest, rfl, hbefore, hrest⟩
    · exact .inl (List.forall_mem_cons.mpr ⟨bound, hnone⟩)
    · exact .inr ⟨piece :: before, name, inverted, inside, raw, rest, rfl, .other bound hbefore,
        hrest⟩

end Piece

namespace Node

namespace Growth

variable {g : Growth} {piece : Piece} {pieces rest : List Piece}

/-- The same nodes within more sections. -/
def within (g : Growth) (stems : List Stem) : Growth :=
  { g with around := g.around ++ stems }

/-- One step: a piece that ends no section around is taken up without regard to those. -/
theorem step_within (h : Piece.Closes g.names (piece :: rest)) (stems : List Stem) :
    (g.within stems).step piece = (g.step piece).within stems := by
  cases piece with
  | closeTag name raw =>
    obtain ⟨stem, around, hg, -⟩ := exists_around_of_closes h
    obtain ⟨nodes, text, around'⟩ := g
    cases hg
    rfl
  | _ => rfl

theorem foldl_within (h : Piece.Closes g.names pieces) (stems : List Stem) :
    pieces.foldl step (g.within stems) = (pieces.foldl step g).within stems ∧
      (pieces.foldl step g).around = [] := by
  induction pieces generalizing g with
  | nil => exact ⟨rfl, around_eq_nil_of_closes h⟩
  | cons piece pieces ih =>
    have hstep := step_within h stems
    rw [List.foldl_cons, List.foldl_cons, hstep]
    exact ih (closes_step h)

theorem settled_foldl (nodes : List Node) (h : Piece.Closes [] pieces) :
    (pieces.foldl step ⟨nodes, "", []⟩).settled = nodes ++ ofPieces pieces := by
  have haround : (pieces.foldl step .empty).around = [] :=
    (foldl_within (g := .empty) h []).2
  have hstart : behind nodes "" .empty = ⟨nodes, "", []⟩ := rfl
  have hjoin (xs : List Node) : join nodes "" xs = nodes ++ xs := by
    rcases join_cases nodes "" xs with ⟨s, rest, -, hsettled, -⟩ | ⟨-, hjoin⟩
    · simp [settled] at hsettled
    · exact hjoin
  rw [← hstart, ← foldl_behind, settled_behind haround, hjoin]
  rfl

end Growth

variable {before inside rest : List Piece}

/-- The pieces between the two tags of a section have the nodes inside that they have alone. -/
theorem ofPieces_section (hb : Piece.Closes [] before) (hi : Piece.Closes [] inside)
    (hr : Piece.Closes [] rest) (name raw : String) (inverted : Bool) :
    ofPieces (before ++ .openTag name inverted :: (inside ++ .closeTag name raw :: rest)) =
      ofPieces before ++ .block name inverted raw (ofPieces inside) :: ofPieces rest := by
  obtain ⟨g, hg⟩ : ∃ g, before.foldl Growth.step .empty = g := ⟨_, rfl⟩
  have haround : g.around = [] := hg ▸ (Growth.foldl_within (g := .empty) hb []).2
  let stem : Stem := ⟨g.settled, name, inverted⟩
  have hopen : g.step (.openTag name inverted) = Growth.within .empty [stem] := by
    simp [Growth.step, haround, Growth.within, Growth.empty, stem]
  obtain ⟨hinside, hended⟩ := Growth.foldl_within (g := .empty) hi [stem]
  have hclose : ((inside.foldl Growth.step .empty).within [stem]).step (.closeTag name raw) =
      ⟨g.settled ++ [.block name inverted raw (ofPieces inside)], "", []⟩ := by
    simp only [Growth.step, Growth.within, hended]
    rfl
  have hbefore : ofPieces before = g.settled := by rw [ofPieces, hg]
  rw [ofPieces, List.foldl_append, hg, List.foldl_cons, hopen, List.foldl_append, hinside,
    List.foldl_cons, hclose, Growth.settled_foldl _ hr, hbefore, List.append_assoc]
  rfl

end Node

namespace Program

open Piece

variable {before inside rest pieces : List Piece}

theorem ofPieces_section (hb : Closes [] before) (hi : Closes [] inside) (hr : Closes [] rest)
    (name raw : String) (inverted : Bool) :
    (ofPieces (before ++ .openTag name inverted :: (inside ++ .closeTag name raw :: rest))).ops =
      (ofPieces before).ops ++
        .openSection name inverted (ofPieces inside).ops.length raw ::
          ((ofPieces inside).ops ++ .closeSection name :: (ofPieces rest).ops) := by
  have hinner : Closes [name] (inside ++ .closeTag name raw :: rest) :=
    hi.append_outer (.closeTag name raw hr)
  have hwhole :
      Closes [] (before ++ .openTag name inverted :: (inside ++ .closeTag name raw :: rest)) :=
    hb.append (.openTag name inverted hinner)
  rw [ofPieces_eq_flatten hwhole, ofPieces_eq_flatten hb, ofPieces_eq_flatten hi,
    ofPieces_eq_flatten hr, Node.ofPieces_section hb hi hr]
  simp [Node.flattenAll, Node.flatten]

theorem countP_isOpening_ofPieces (pieces : List Piece) :
    (ofPieces pieces).ops.countP Op.isOpening = pieces.countP Piece.isOpening := by
  let opens : Char ⊕ Op → Bool := Sum.elim (fun _ => false) Op.isOpening
  have hop (op : Op) : (Op.outline [op]).countP opens = [op].countP Op.isOpening := by
    cases op with
    | literal text => simp [Op.outline, opens, Op.isOpening, List.countP_map, Function.comp_def]
    | _ => rfl
  have hops (ops : List Op) : (Op.outline ops).countP opens = ops.countP Op.isOpening := by
    induction ops with
    | nil => rfl
    | cons op ops ih =>
      rw [← List.singleton_append, Op.outline_append, List.countP_append, List.countP_append, hop,
        ih]
  have hpiece (piece : Piece) : piece.outline.countP opens = [piece].countP Piece.isOpening := by
    cases piece with
    | variableTag name escaped => cases escaped <;> rfl
    | text cs | blank cs =>
      simp [Piece.outline, opens, Piece.isOpening, List.countP_map, Function.comp_def]
    | _ => rfl
  rw [← hops, outline_ofPieces]
  induction pieces with
  | nil => rfl
  | cons piece pieces ih =>
    rw [List.flatMap_cons, List.countP_append, hpiece, ih, ← List.countP_append,
      List.singleton_append]

/-- The section at `i` has its two tags among the pieces, as the one that is opened after as many
others, and its body is what the pieces in between come to. -/
def SectionFrom (pieces : List Piece) (ops : List Op) (i : Nat) (name raw : String)
    (inverted : Bool) (n : Nat) : Prop :=
  ∃ before inside rest first last,
    pieces = before ++ .openTag name inverted :: (inside ++ .closeTag name raw :: rest) ∧
    Closes [] inside ∧
    ops = first ++ .openSection name inverted n raw ::
      ((ofPieces inside).ops ++ .closeSection name :: last) ∧
    first.length = i ∧ (ofPieces inside).ops.length = n ∧
    first.countP Op.isOpening = before.countP Piece.isOpening

theorem SectionFrom.among {ops opsBefore : List Op} {i n : Nat} {name raw : String}
    {inverted : Bool} (h : SectionFrom pieces ops i name raw inverted n)
    (hcount : opsBefore.countP Op.isOpening = before.countP Piece.isOpening) (rest : List Piece)
    (opsRest : List Op) :
    SectionFrom (before ++ (pieces ++ rest)) (opsBefore ++ (ops ++ opsRest))
      (opsBefore.length + i) name raw inverted n := by
  obtain ⟨xs, inside, zs, first, last, rfl, hin, rfl, rfl, hn, hfirst⟩ := h
  refine ⟨before ++ xs, inside, zs ++ rest, opsBefore ++ first, last ++ opsRest, ?_, hin, ?_, ?_,
    hn, ?_⟩
  · simp only [List.append_assoc, List.cons_append]
  · simp only [List.append_assoc, List.cons_append]
  · rw [List.length_append]
  · rw [List.countP_append, List.countP_append, hcount, hfirst]

namespace SectionFrom

variable {i n : Nat} {name raw : String} {inverted : Bool} (name' : String) (inverted' : Bool)
  (raw' : String)

/-- A section before another one. -/
theorem before_section (h : SectionFrom before (ofPieces before).ops i name raw inverted n)
    (inside rest : List Piece) :
    SectionFrom (before ++ .openTag name' inverted' :: (inside ++ .closeTag name' raw' :: rest))
      ((ofPieces before).ops ++ .openSection name' inverted' (ofPieces inside).ops.length raw' ::
        ((ofPieces inside).ops ++ .closeSection name' :: (ofPieces rest).ops))
      i name raw inverted n := by
  have hnone : ([] : List Op).countP Op.isOpening = ([] : List Piece).countP Piece.isOpening := rfl
  have lifted := h.among hnone
    (.openTag name' inverted' :: (inside ++ .closeTag name' raw' :: rest))
    (.openSection name' inverted' (ofPieces inside).ops.length raw' ::
      ((ofPieces inside).ops ++ .closeSection name' :: (ofPieces rest).ops))
  rw [List.length_nil, Nat.zero_add] at lifted
  exact lifted

/-- A section inside another one. -/
theorem inside_section (h : SectionFrom inside (ofPieces inside).ops i name raw inverted n)
    (before rest : List Piece) :
    SectionFrom (before ++ .openTag name' inverted' :: (inside ++ .closeTag name' raw' :: rest))
      ((ofPieces before).ops ++ .openSection name' inverted' (ofPieces inside).ops.length raw' ::
        ((ofPieces inside).ops ++ .closeSection name' :: (ofPieces rest).ops))
      ((ofPieces before).ops.length + (i + 1)) name raw inverted n := by
  let outer : Op := .openSection name' inverted' (ofPieces inside).ops.length raw'
  have hcount : ((ofPieces before).ops ++ [outer]).countP Op.isOpening =
      (before ++ [openTag name' inverted']).countP Piece.isOpening := by
    rw [List.countP_append, List.countP_append, countP_isOpening_ofPieces]
    rfl
  have lifted := h.among hcount (.closeTag name' raw' :: rest)
    (.closeSection name' :: (ofPieces rest).ops)
  have hindex : ((ofPieces before).ops ++ [outer]).length + i =
      (ofPieces before).ops.length + (i + 1) := by
    rw [List.length_append, List.length_singleton]
    omega
  rw [hindex, List.append_assoc, List.append_assoc] at lifted
  exact lifted

/-- A section behind another one. -/
theorem behind_section (h : SectionFrom rest (ofPieces rest).ops i name raw inverted n)
    (before inside : List Piece) :
    SectionFrom (before ++ .openTag name' inverted' :: (inside ++ .closeTag name' raw' :: rest))
      ((ofPieces before).ops ++ .openSection name' inverted' (ofPieces inside).ops.length raw' ::
        ((ofPieces inside).ops ++ .closeSection name' :: (ofPieces rest).ops))
      ((ofPieces before).ops.length + ((ofPieces inside).ops.length + (i + 1) + 1)) name raw
      inverted n := by
  let outer : Op := .openSection name' inverted' (ofPieces inside).ops.length raw'
  let body : List Op := (ofPieces inside).ops ++ [.closeSection name']
  have hcount : ((ofPieces before).ops ++ outer :: body).countP Op.isOpening =
      (before ++ openTag name' inverted' :: (inside ++ [closeTag name' raw'])).countP
        Piece.isOpening := by
    simp only [body, List.countP_append, List.countP_cons, List.countP_nil,
      countP_isOpening_ofPieces]
    rfl
  have lifted := h.among hcount [] []
  have hindex : ((ofPieces before).ops ++ outer :: body).length + i =
      (ofPieces before).ops.length + ((ofPieces inside).ops.length + (i + 1) + 1) := by
    simp only [body, List.length_append, List.length_cons, List.length_nil]
    omega
  simp only [hindex, body, List.append_nil, List.append_assoc, List.cons_append,
    List.nil_append] at lifted
  exact lifted

end SectionFrom

/-- Without the two ends of sections among the pieces there is no section. -/
theorem openSection_not_mem_of_unbound (unbound : ∀ p ∈ pieces, p.isBound = false) (name : String)
    (inverted : Bool) (n : Nat) (raw : String) :
    .openSection name inverted n raw ∉ (ofPieces pieces).ops := by
  have hnone : pieces.countP Piece.isOpening = 0 := by
    rw [List.countP_eq_zero]
    intro p hp hopen
    cases p with
    | openTag => cases unbound _ hp
    | _ => cases hopen
  rw [← countP_isOpening_ofPieces, List.countP_eq_zero] at hnone
  exact fun hmem => absurd rfl (hnone _ hmem)

theorem sectionFrom_ofPieces {pieces : List Piece} (h : Closes [] pieces) {i n : Nat}
    {name raw : String} {inverted : Bool}
    (hi : (ofPieces pieces).ops[i]? = some (.openSection name inverted n raw)) :
    SectionFrom pieces (ofPieces pieces).ops i name raw inverted n := by
  rcases h.unbound_or_section with
    unbound | ⟨before, name', inverted', inside, raw', rest, rfl, hb, hin, hr⟩
  · have hmem := List.mem_of_getElem? hi
    exact absurd hmem (openSection_not_mem_of_unbound unbound name inverted n raw)
  -- The operation is before the section found, its start, inside it, or behind it.
  rw [ofPieces_section hb hin hr name' raw' inverted'] at hi ⊢
  rcases Op.getElem?_append_iff.mp hi with hfirst | ⟨k, rfl, hrest⟩
  · have earlier := sectionFrom_ofPieces hb hfirst
    exact earlier.before_section name' inverted' raw' inside rest
  cases k with
  | zero =>
    have hhead := Option.some.inj hrest
    cases hhead
    exact ⟨before, inside, rest, (ofPieces before).ops, (ofPieces rest).ops, rfl, hin, rfl, rfl,
      rfl, countP_isOpening_ofPieces before⟩
  | succ k =>
    rw [List.getElem?_cons_succ] at hrest
    rcases Op.getElem?_append_iff.mp hrest with hbody | ⟨m, rfl, hlast⟩
    · have inner := sectionFrom_ofPieces hin hbody
      exact inner.inside_section name' inverted' raw' before rest
    · cases m with
      | zero => cases hlast
      | succ m =>
        rw [List.getElem?_cons_succ] at hlast
        have later := sectionFrom_ofPieces hr hlast
        exact later.behind_section name' inverted' raw' before inside
termination_by pieces.length

end Program
end Mustache
