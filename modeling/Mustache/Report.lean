import Mustache.Source.Fault
import Mustache.Text.Bytes
import Mustache.Text.Columns

namespace Mustache.Report

/-- Characters that end a line of the drawing. -/
def isBreak (c : Char) : Bool :=
  c == '\n' || c == '\r' || c == '\x0b' || c == '\x0c' || c == '\x85' || c == '\u2028' ||
    c == '\u2029'

/-- The lines of a source, each with the break that ends it; a carriage return and a newline are
one break. -/
def sourceLines : List Char → List (List Char)
  | [] => []
  | c :: cs =>
    match sourceLines cs with
    | [] => [[c]]
    | line :: rest =>
      if isBreak c && !(c == '\r' && line == ['\n']) then [c] :: line :: rest
      else (c :: line) :: rest

structure Line where
  index : Nat
  start : Nat
  chars : List Char

/-- The last line that starts at or before the given character. -/
def lineAt (offset : Nat) (index start : Nat) : List (List Char) → Line
  | [] => ⟨index, start, []⟩
  | [line] => ⟨index, start, line⟩
  | line :: rest =>
    if offset < start + line.length then ⟨index, start, line⟩
    else lineAt offset (index + 1) (start + line.length) rest

/-- The columns that a character takes in the given cell. -/
def cellWidth (cell : Nat) (c : Char) : Nat :=
  if c = '\t' then 4 - cell % 4
  else if Text.isWhiteSpace c then 1
  else Text.columns c

namespace Line

def shown (line : Line) : List Char :=
  Text.trimEnd line.chars

def number (line : Line) : Nat :=
  line.index + 1

def text (line : Line) : List Char :=
  line.shown.zipIdx.flatMap fun (c, cell) =>
    if Text.isWhiteSpace c then List.replicate (cellWidth cell c) ' ' else [c]

/-- The widths of the cells before `count`; those past the end of the text have width 1. -/
def widths (line : Line) (count : Nat) : List Nat :=
  (line.shown.zipIdx.map (fun (c, cell) => cellWidth cell c) ++ List.replicate count 1).take count

/-- The cells before `count`, each drawn to its width: first its mark, then its filling. -/
def draw (line : Line) (count : Nat) (mark : Nat → Char × Char) : List Char :=
  (line.widths count).zipIdx.flatMap fun (width, cell) =>
    let (first, filling) := mark cell
    match width with
    | 0 => []
    | n + 1 => first :: List.replicate n filling

end Line

def spaces (n : Nat) : List Char :=
  List.replicate n ' '

def margin (digits : Nat) (line : Line) : List Char :=
  let number := (toString line.number).toList
  ' ' :: spaces (digits - number.length) ++ number

/-- A fault within one line: the line, a rule under the tag, and a hook to the message. -/
def within (digits : Nat) (line : Line) (start stop : Nat) (message : List Char) :
    List (List Char) :=
  let middle := (start + stop) / 2
  let rule (cell : Nat) : Char × Char :=
    if cell = middle then (if start = stop then ('│', ' ') else ('┬', '─'))
    else if start ≤ cell && cell < stop then ('─', '─')
    else (' ', ' ')
  let hook (cell : Nat) : Char × Char :=
    if cell = middle then ('╰', '─') else if middle < cell then ('─', '─') else (' ', ' ')
  [margin digits line ++ [' ', '│', ' '] ++ line.text,
    spaces (digits + 2) ++ ['│', ' '] ++ line.draw (stop + 2) rule,
    spaces (digits + 2) ++ ['│', ' '] ++ line.draw (stop + 2) hook ++ ' ' :: message]

/-- A fault over several lines: the first and the last of them in a bracket. -/
def across (digits : Nat) (first last : Line) (message : List Char) : List (List Char) :=
  let cells := last.chars.length + 2
  let skipped := [spaces (digits + 2) ++ ['┆', ' ', '┆', ' ', ' ', ' ']]
  [margin digits first ++ [' ', '│', ' ', '╭', '─', '▶', ' '] ++ first.text] ++
    (if first.index + 1 < last.index then skipped else []) ++
    [margin digits last ++ [' ', '│', ' ', '├', '─', '▶', ' '] ++ last.text,
      spaces (digits + 2) ++ ['│', ' ', '│', ' ', ' ', ' '] ++
        last.draw cells (fun _ => (' ', ' ')),
      spaces (digits + 2) ++ ['│', ' ', '╰', '─', '─', '─'] ++
        last.draw cells (fun _ => ('─', '─')) ++ ' ' :: message]

/-- The lines of a terminal report on a message about some characters of a source. -/
def lines (file message : List Char) (start stop : Nat) (source : List Char) : List (List Char) :=
  let title := "Error: ".toList ++ message
  if source.isEmpty then [title]
  else
    let all := sourceLines source
    let first := lineAt start 0 0 all
    let last := if start = stop then first else lineAt (stop - 1) 0 0 all
    let digits := (toString last.number).length
    let place := file ++ ':' :: (toString first.number).toList ++
      ':' :: (toString (start - first.start + 1)).toList
    let body :=
      if first.index = last.index then
        within digits first (start - first.start) (stop - first.start) message
      else across digits first last message
    [title, spaces (digits + 2) ++ ['╭', '─', '['] ++ place ++ [']'], spaces (digits + 2) ++ ['│']]
      ++ body ++ [List.replicate (digits + 2) '─' ++ ['╯']]

end Mustache.Report

namespace Mustache

/-- The characters of a source that a span of bytes is about. Offsets past the end of the source
mean its end. -/
def Span.inCharacters (span : Span) (source : List Char) : Span :=
  ⟨Text.charOffset span.start source, Text.charOffset span.stop source⟩

open Report in
/-- The error drawn beneath a source. -/
def CompileError.report (e : CompileError) (source : String) : String :=
  let chars := source.toList
  let label := e.location.span.inCharacters chars
  let drawing := lines e.location.file.toList e.fault.message.toList label.start label.stop chars
  String.ofList (drawing.flatMap (· ++ ['\n']))

end Mustache
