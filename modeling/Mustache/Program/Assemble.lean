import Mustache.Program.Op
import Mustache.Source.Line

namespace Mustache

/-- A program in the making. An operation that opens a section gets the length and the source of
the body only when the section ends. -/
structure Assembly where
  ops : Array Op
  /-- The text since the last operation. -/
  literal : String
  /-- Where the sections that are still open start, innermost first. -/
  openSections : List Nat

/-- Fills in what an opening operation says of the body. -/
def Op.link (bodyLength : Nat) (raw : String) : Op → Op
  | openSection name inverted _ _ => openSection name inverted bodyLength raw
  | op => op

namespace Assembly

def empty : Assembly :=
  ⟨#[], "", []⟩

def addText (a : Assembly) (text : String) : Assembly :=
  { a with literal := a.literal ++ text }

/-- Makes the text since the last operation an operation, unless there is none. -/
def flush (a : Assembly) : Assembly :=
  if a.literal = "" then a
  else { a with ops := a.ops.push (.literal a.literal), literal := "" }

def push (a : Assembly) (op : Op) : Assembly :=
  { a with ops := a.ops.push op }

def openSection (a : Assembly) (name : String) (inverted : Bool) : Assembly :=
  { a with
    ops := a.ops.push (.openSection name inverted 0 "")
    openSections := a.ops.size :: a.openSections }

/-- Ends the innermost open section: all operations since its start are the body. -/
def closeSection (a : Assembly) (name raw : String) : Assembly :=
  match a.openSections with
  | [] => a.push (.closeSection name)
  | start :: outer =>
    { a with
      ops := (a.ops.modify start (.link (a.ops.size - start - 1) raw)).push (.closeSection name)
      openSections := outer }

def step (a : Assembly) : Piece → Assembly
  | .text cs | .blank cs => a.addText (String.ofList cs)
  | .newline => a.addText "\n"
  | .silent => a
  | .variableTag name true => a.flush.push (.escaped name)
  | .variableTag name false => a.flush.push (.unescaped name)
  | .inclusion name => a.flush.push (.inclusion name)
  | .openTag name inverted => a.flush.openSection name inverted
  | .closeTag name raw => a.flush.closeSection name raw

def ofPieces (pieces : List Piece) : Assembly :=
  pieces.foldl step empty

end Assembly

def Program.ofPieces (pieces : List Piece) : Program :=
  ⟨(Assembly.ofPieces pieces).flush.ops.toList⟩

end Mustache
