import Mustache.Program.Parse

namespace Mustache

/-- A part of a template with all the parts inside it. -/
inductive Node where
  | text (text : String)
  | variableTag (name : String) (escaped : Bool)
  | inclusion (name : String)
  | block (name : String) (inverted : Bool) (raw : String) (children : List Node)

namespace Node

mutual

/-- The operations of a node. Those of a section have its children between its two ends. -/
def flatten : Node → List Op
  | text s => [.literal s]
  | variableTag name true => [.escaped name]
  | variableTag name false => [.unescaped name]
  | inclusion name => [.inclusion name]
  | block name inverted raw children =>
    .openSection name inverted (flattenAll children).length raw ::
      (flattenAll children ++ [.closeSection name])

def flattenAll : List Node → List Op
  | [] => []
  | node :: nodes => node.flatten ++ flattenAll nodes

end

/-- A section that has not ended, with the nodes before it. -/
structure Stem where
  before : List Node
  name : String
  inverted : Bool

/-- Nodes in the making: those of the innermost section that has not ended, the text since the last
of them, and the sections around, innermost first. -/
structure Growth where
  nodes : List Node
  text : String
  around : List Stem

namespace Growth

def empty : Growth :=
  ⟨[], "", []⟩

/-- The nodes with the text after them, if there is any. -/
def settled (g : Growth) : List Node :=
  if g.text = "" then g.nodes else g.nodes ++ [.text g.text]

def add (g : Growth) (node : Node) : Growth :=
  { g with nodes := g.settled ++ [node], text := "" }

def addText (g : Growth) (text : String) : Growth :=
  { g with text := g.text ++ text }

/-- Takes up the next piece. The nodes between the two tags of a section are its children. -/
def step (g : Growth) : Piece → Growth
  | .text cs | .blank cs => g.addText (String.ofList cs)
  | .newline => g.addText "\n"
  | .silent => g
  | .variableTag name escaped => g.add (.variableTag name escaped)
  | .inclusion name => g.add (.inclusion name)
  | .openTag name inverted => ⟨[], "", ⟨g.settled, name, inverted⟩ :: g.around⟩
  | .closeTag _ raw =>
    match g.around with
    | [] => g
    | stem :: around => ⟨stem.before ++ [.block stem.name stem.inverted raw g.settled], "", around⟩

end Growth

/-- The nodes of some pieces. Text between two tags is one node, and there is none for no text. -/
def ofPieces (pieces : List Piece) : List Node :=
  (pieces.foldl Growth.step .empty).settled

def parse (text : String) (options : Options) : Except CompileError (List Node) :=
  ((Piece.ofTemplate text.toList options.tags).map fun pieces =>
    ofPieces (options.kept pieces)).mapError (·.inTemplate text.toList options.label)

theorem parse_of_ok {text : String} {options : Options} {pieces : List Piece}
    (h : Piece.ofTemplate text.toList options.tags = .ok pieces) :
    parse text options = .ok (ofPieces (options.kept pieces)) := by
  simp only [parse, h]
  rfl

theorem parse_of_error {text : String} {options : Options} {site : FaultSite}
    (h : Piece.ofTemplate text.toList options.tags = .error site) :
    parse text options = .error (site.inTemplate text.toList options.label) := by
  simp only [parse, h]
  rfl

@[simp] theorem flattenAll_append (xs ys : List Node) :
    flattenAll (xs ++ ys) = flattenAll xs ++ flattenAll ys := by
  induction xs with
  | nil => rfl
  | cons node nodes ih => simp [flattenAll, ih]

@[simp] theorem flattenAll_singleton (node : Node) : flattenAll [node] = node.flatten := by
  simp [flattenAll]

/-- The operations up to the start of the innermost section that has not ended. What they say of the
bodies around is still missing. -/
def Stem.ops : List Stem → List Op
  | [] => []
  | stem :: around =>
    Stem.ops around ++ flattenAll stem.before ++ [.openSection stem.name stem.inverted 0 ""]

def Stem.starts : List Stem → List Nat
  | [] => []
  | stem :: around => (Stem.ops around ++ flattenAll stem.before).length :: Stem.starts around

theorem Stem.lt_of_mem_starts {stems : List Stem} {start : Nat} (h : start ∈ Stem.starts stems) :
    start < (Stem.ops stems).length := by
  induction stems with
  | nil => cases h
  | cons stem around ih =>
    simp only [Stem.ops, List.length_append, List.length_singleton]
    rcases List.mem_cons.mp h with rfl | h
    · simp
    · have := ih h
      omega

end Node

namespace Piece

def isBound : Piece → Bool
  | openTag .. | closeTag .. => true
  | _ => false

/-- Pieces that end the sections of the given names, innermost first, and all that they start. -/
inductive Closes : List String → List Piece → Prop where
  | done : Closes [] []
  | openTag {names : List String} {rest : List Piece} (name : String) (inverted : Bool)
      (inside : Closes (name :: names) rest) : Closes names (.openTag name inverted :: rest)
  | closeTag {names : List String} {rest : List Piece} (name raw : String)
      (outside : Closes names rest) : Closes (name :: names) (.closeTag name raw :: rest)
  | other {names : List String} {piece : Piece} {rest : List Piece} (bound : piece.isBound = false)
      (after : Closes names rest) : Closes names (piece :: rest)

theorem isBound_ofSegment (segment : Segment) : (ofSegment segment).isBound = false := by
  cases segment <;> rfl

theorem Closes.segments {names : List String} {rest : List Piece} (segments : List Segment)
    (h : Closes names rest) : Closes names (segments.map ofSegment ++ rest) := by
  induction segments with
  | nil => exact h
  | cons segment segments ih => exact .other (isBound_ofSegment segment) ih

theorem Closes.piece {template : List Char} {sections next : List OpenSection} {t : Tag}
    {piece : Piece} {rest : List Piece} (h : t.piece template sections = .ok (piece, next))
    (hr : Closes (next.map (·.name)) rest) : Closes (sections.map (·.name)) (piece :: rest) := by
  unfold Tag.piece at h
  split at h
  · cases h
    exact .other rfl hr
  · cases h
    exact .other rfl hr
  · split at h
    · cases h
    · cases h
      exact .openTag _ _ hr
  · split at h
    · cases h
    · cases h
      exact .openTag _ _ hr
  · split at h
    · cases h
    · split at h
      next hn =>
        cases h
        rw [List.map_cons, hn]
        exact .closeTag _ _ hr
      next => cases h
  all_goals
    cases h
    exact .other rfl hr

theorem Closes.items {template : List Char} {sections left : List OpenSection} {items : List Item}
    {pieces rest : List Piece} (h : Item.pieces template sections items = .ok (pieces, left))
    (hr : Closes (left.map (·.name)) rest) : Closes (sections.map (·.name)) (pieces ++ rest) := by
  induction items generalizing sections pieces with
  | nil =>
    cases h
    exact hr
  | cons item items ih =>
    cases item with
    | text cs =>
      simp only [Item.pieces, bind, Except.bind] at h
      split at h
      · cases h
      next found hf =>
        cases h
        rw [List.append_assoc]
        exact .segments _ (ih hf)
    | tag t =>
      simp only [Item.pieces, bind, Except.bind] at h
      split at h
      · cases h
      next first ht =>
        split at h
        · cases h
        next found hf =>
          cases h
          exact .piece ht (ih hf)

/-- The pieces of a template that has them end all sections that they start. -/
theorem closes_of_ofTemplate {template : List Char} {tags : Delimiters} {pieces : List Piece}
    (h : ofTemplate template tags = .ok pieces) : Closes [] pieces := by
  simp only [ofTemplate, bind, Except.bind] at h
  split at h
  · cases h
  next found hf =>
    split at h
    · cases h
    next hleft =>
      cases h
      have closes : Closes [] (found.1 ++ []) := Closes.items hf (by rw [hleft]; exact .done)
      simpa using closes
    · cases h

theorem closes_cons_iff {names : List String} {piece : Piece} {rest : List Piece}
    (hb : piece.isBound = false) : Closes names (piece :: rest) ↔ Closes names rest := by
  constructor
  · intro h
    cases h with
    | openTag | closeTag => cases hb
    | other _ after => exact after
  · exact .other hb

theorem not_isSpace_of_isBound {piece : Piece} (h : piece.isBound) : (!piece.isSpace) = true := by
  cases piece with
  | openTag | closeTag => rfl
  | _ => cases h

/-- Pieces besides the two ends of sections make no difference. -/
theorem closes_filter_iff {p : Piece → Bool} (hp : ∀ {piece}, piece.isBound → p piece = true)
    {names : List String} {pieces : List Piece} :
    Closes names (pieces.filter p) ↔ Closes names pieces := by
  induction pieces generalizing names with
  | nil => rfl
  | cons piece rest ih =>
    by_cases hb : piece.isBound = true
    · rw [List.filter_cons_of_pos (hp hb)]
      cases piece with
      | openTag name inverted =>
        exact ⟨fun | .openTag _ _ h => .openTag _ _ (ih.mp h),
          fun | .openTag _ _ h => .openTag _ _ (ih.mpr h)⟩
      | closeTag name raw =>
        exact ⟨fun | .closeTag _ _ h => .closeTag _ _ (ih.mp h),
          fun | .closeTag _ _ h => .closeTag _ _ (ih.mpr h)⟩
      | _ => cases hb
    · have hb' : piece.isBound = false := by simpa using hb
      rw [closes_cons_iff hb', ← ih, List.filter_cons]
      split
      · exact closes_cons_iff hb'
      · rfl

theorem filter_strip (pieces : List Piece) :
    (strip pieces).filter (!·.isSpace) = pieces.filter (!·.isSpace) := by
  have line (l : List Piece) : (stripLine l).filter (!·.isSpace) = l.filter (!·.isSpace) := by
    unfold stripLine
    split
    · simp
    · rfl
  calc (strip pieces).filter (!·.isSpace)
      = (lines pieces).flatMap fun l => (stripLine l).filter (!·.isSpace) := by
        simp [strip, List.filter_flatMap]
    _ = (lines pieces).flatMap fun l => l.filter (!·.isSpace) := by simp only [line]
    _ = (lines pieces).flatten.filter (!·.isSpace) := by simp [List.filter_flatten, List.flatMap]
    _ = pieces.filter (!·.isSpace) := by rw [flatten_lines]

theorem closes_kept {options : Options} {template : List Char} {pieces : List Piece}
    (h : ofTemplate template options.tags = .ok pieces) : Closes [] (options.kept pieces) := by
  have closes := closes_of_ofTemplate h
  unfold Options.kept
  split
  · exact closes
  · rwa [← closes_filter_iff not_isSpace_of_isBound, filter_strip,
      closes_filter_iff not_isSpace_of_isBound]

end Piece
end Mustache
