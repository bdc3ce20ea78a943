import Mustache.Source.Piece

namespace Mustache.Piece

/-- The pieces line by line; a line includes the newline that ends it. -/
def lines : List Piece → List (List Piece)
  | [] => []
  | piece :: rest =>
    if piece = newline then [piece] :: lines rest
    else match lines rest with
      | [] => [[piece]]
      | line :: others => (piece :: line) :: others

/-- Whether a line holds one tag that may stand alone, and white space besides. -/
def isStandalone (line : List Piece) : Bool :=
  line.countP standsAlone == 1 && line.all fun piece => piece.standsAlone || piece.isSpace

def stripLine (line : List Piece) : List Piece :=
  if isStandalone line then line.filter (!·.isSpace) else line

/-- The pieces without the white space of standalone lines. -/
def strip (pieces : List Piece) : List Piece :=
  (lines pieces).flatMap stripLine

theorem flatten_lines (pieces : List Piece) : (lines pieces).flatten = pieces := by
  induction pieces with
  | nil => rfl
  | cons piece rest ih =>
    simp only [lines]
    split
    · simp [ih]
    · split
      next he => simp [he] at ih; simp [ih]
      next line others he => simp [he] at ih; simp [← ih]

end Mustache.Piece
