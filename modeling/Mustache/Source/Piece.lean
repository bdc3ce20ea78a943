import Mustache.Source.Scan
import Mustache.Source.Segment

namespace Mustache

/-- A part of a template with its meaning. -/
inductive Piece where
  | text (chars : List Char)
  | blank (chars : List Char)
  | newline
  /-- A variable, whose text is escaped or not. -/
  | variableTag (name : String) (escaped : Bool)
  | openTag (name : String) (inverted : Bool)
  /-- The end of a section, with the source between its two tags. -/
  | closeTag (name : String) (raw : String)
  | inclusion (name : String)
  /-- A tag that leaves nothing behind: a comment or a switch of delimiters. -/
  | silent
deriving DecidableEq

namespace Piece

def ofSegment : Segment → Piece
  | .newline => newline
  | .blank cs => blank cs
  | .text cs => text cs

def standsAlone : Piece → Bool
  | openTag .. | closeTag .. | inclusion _ | silent => true
  | _ => false

def isSpace : Piece → Bool
  | blank _ | newline => true
  | _ => false

end Piece

structure OpenSection where
  name : String
  line : Nat
  /-- The tag that opened it. -/
  span : Span
deriving DecidableEq

def Tag.name (tag : Tag) : String :=
  String.ofList (Text.trim tag.source)

/-- The fault of a closing tag that finds the given sections open, innermost first. -/
def Tag.unmatched (tag : Tag) (sections : List OpenSection) : FaultSite :=
  ⟨.unmatchedClose tag.name (sections.head?.map (·.name)), tag.line, tag.span⟩

/-- The meaning of a tag in the given open sections, innermost first, and the sections open after
it. -/
def Tag.piece (template : List Char) (sections : List OpenSection) (tag : Tag) :
    Except FaultSite (Piece × List OpenSection) :=
  match tag.sigil with
  | .comment | .delimiterSwitch => .ok (.silent, sections)
  | .sectionOpen | .invertedOpen =>
    if tag.name = "" then .error ⟨.emptySectionName, tag.line, tag.span⟩
    else .ok (.openTag tag.name (tag.sigil = .invertedOpen),
      ⟨tag.name, tag.line, tag.span⟩ :: sections)
  | .sectionClose =>
    match sections with
    | [] => .error (tag.unmatched sections)
    | innermost :: outer =>
      if innermost.name = tag.name then
        let raw := Text.slice innermost.span.stop tag.span.start template
        .ok (.closeTag tag.name (String.ofList raw), outer)
      else .error (tag.unmatched sections)
  | .inclusion => .ok (.inclusion tag.name, sections)
  | .triple | .ampersand => .ok (.variableTag tag.name false, sections)
  | .bare => .ok (.variableTag tag.name true, sections)

def Item.pieces (template : List Char) :
    List OpenSection → List Item → Except FaultSite (List Piece × List OpenSection)
  | sections, [] => .ok ([], sections)
  | sections, .text cs :: items => do
    let (pieces, sections) ← Item.pieces template sections items
    return ((Segment.ofText cs).map Piece.ofSegment ++ pieces, sections)
  | sections, .tag t :: items => do
    let (piece, sections) ← t.piece template sections
    let (pieces, sections) ← Item.pieces template sections items
    return (piece :: pieces, sections)

/-- The pieces of a whole template, which has them only if its sections nest. Of several faults the
first in the template counts, and a section left open only if there is no other. -/
def Piece.ofTemplate (template : List Char) (tags : Delimiters) :
    Except FaultSite (List Piece) := do
  let scanned := scan template tags
  let (pieces, sections) ← Item.pieces template [] scanned.items
  match scanned.fault, sections with
  | some site, _ => .error site
  | none, [] => return pieces
  | none, innermost :: _ =>
    .error ⟨.unclosedSection innermost.name, innermost.line, innermost.span⟩

end Mustache
