import Mustache.Delimiters
import Mustache.Source.Fault
import Mustache.Text.Bytes
import Mustache.Text.Search

namespace Mustache

/-- What a tag is for, as the character after its opening marker says. -/
inductive Sigil where
  | comment
  | sectionOpen
  | invertedOpen
  | sectionClose
  | delimiterSwitch
  | inclusion
  | triple
  | ampersand
  /-- No special character: a plain variable. -/
  | bare
deriving DecidableEq

namespace Sigil

def chars : Sigil → List Char
  | comment => ['!']
  | sectionOpen => ['#']
  | invertedOpen => ['^']
  | sectionClose => ['/']
  | delimiterSwitch => ['=']
  | inclusion => ['>']
  | triple => ['{']
  | ampersand => ['&']
  | bare => []

/-- The sigil at the start of a text, and the text after it. -/
def split : List Char → Sigil × List Char
  | '!' :: cs => (comment, cs)
  | '#' :: cs => (sectionOpen, cs)
  | '^' :: cs => (invertedOpen, cs)
  | '/' :: cs => (sectionClose, cs)
  | '=' :: cs => (delimiterSwitch, cs)
  | '>' :: cs => (inclusion, cs)
  | '{' :: cs => (triple, cs)
  | '&' :: cs => (ampersand, cs)
  | cs => (bare, cs)

/-- What ends a tag with this sigil. -/
def ending (sigil : Sigil) (closing : Marker) : List Char :=
  match sigil with
  | delimiterSwitch => '=' :: closing.chars
  | triple => '}' :: closing.chars
  | _ => closing.chars

theorem chars_split (cs : List Char) : (split cs).1.chars ++ (split cs).2 = cs := by
  unfold split
  split <;> rfl

end Sigil

/-- A tag as written, before its kind and name are judged. -/
structure Tag where
  sigil : Sigil
  /-- What stands between the sigil and the ending. -/
  source : List Char
  line : Nat
  /-- The whole tag, delimiters included. -/
  span : Span
deriving DecidableEq

inductive Item where
  | text (chars : List Char)
  | tag (tag : Tag)
deriving DecidableEq

/-- A point in a template: what is left, where that starts, and the delimiters in effect, which can
change with every tag. -/
structure Cursor where
  rest : List Char
  offset : Nat
  line : Nat
  tags : Delimiters

namespace Cursor

def start (template : List Char) (tags : Delimiters) : Cursor :=
  ⟨template, 0, 1, tags⟩

/-- The point after `passed`, where `rest` is left. -/
def advance (c : Cursor) (passed rest : List Char) : Cursor :=
  { c with
    rest
    offset := c.offset + Text.byteLength passed
    line := c.line + passed.count '\n' }

inductive Step where
  | ended
  | failed (site : FaultSite)
  | found (item : Item) (next : Cursor)

/-- The tag at this point; `inner` is what follows its opening marker. -/
def readTag (c : Cursor) (inner : List Char) : Step :=
  let (sigil, body) := Sigil.split inner
  let ending := sigil.ending c.tags.closing
  match Text.breakOn ending body with
  | none =>
    .failed ⟨.unclosedTag c.tags.opening.text, c.line,
      c.offset, c.offset + Text.byteLength c.rest⟩
  | some (source, after) =>
    let next := c.advance (c.tags.opening.chars ++ sigil.chars ++ source ++ ending) after
    let tag : Tag := ⟨sigil, source, c.line, c.offset, next.offset⟩
    if sigil = .delimiterSwitch then
      match Delimiters.ofSwitch? source with
      | none => .failed ⟨.invalidDelimiters (String.ofList source), c.line, tag.span⟩
      | some tags => .found (.tag tag) { next with tags }
    else .found (.tag tag) next

/-- The next item: a tag if one starts here, else the text up to the next one. -/
def step (c : Cursor) : Step :=
  if c.rest = [] then .ended
  else match Text.breakOn c.tags.opening.chars c.rest with
    | none => .found (.text c.rest) (c.advance c.rest [])
    | some ([], inner) => c.readTag inner
    | some (before, inner) =>
      .found (.text before) (c.advance before (c.tags.opening.chars ++ inner))

theorem readTag_shorter {c next : Cursor} {inner : List Char} {item : Item}
    (h : c.readTag inner = .found item next) : next.rest.length ≤ inner.length := by
  have hs := congrArg List.length (Sigil.chars_split inner)
  simp only [List.length_append] at hs
  simp only [readTag] at h
  split at h
  · cases h
  next source after hb =>
    have hl := Text.length_after_breakOn hb
    split at h
    · split at h
      · cases h
      · cases h; simp only [advance]; omega
    · cases h; simp only [advance]; omega

theorem step_shorter {c next : Cursor} {item : Item} (h : c.step = .found item next) :
    next.rest.length < c.rest.length := by
  unfold step at h
  split at h
  · cases h
  next hne =>
    have hpos : 0 < c.rest.length := List.length_pos_iff.mpr hne
    have hopen : 0 < c.tags.opening.chars.length :=
      List.length_pos_iff.mpr c.tags.opening.nonempty
    split at h
    · cases h; simpa [advance] using hpos
    next inner hb =>
      have hl := Text.length_after_breakOn hb
      have := readTag_shorter h
      omega
    next before inner hbefore hb =>
      have hl := Text.length_after_breakOn hb
      have : 0 < before.length := List.length_pos_iff.mpr hbefore
      cases h
      simp only [advance, List.length_append]
      omega

end Cursor

structure Scan where
  items : List Item
  fault : Option FaultSite
deriving DecidableEq

def Cursor.scan (c : Cursor) : Scan :=
  match h : c.step with
  | .ended => ⟨[], none⟩
  | .failed site => ⟨[], some site⟩
  | .found item next =>
    have := Cursor.step_shorter h
    let later := next.scan
    { later with items := item :: later.items }
termination_by c.rest.length

def scan (template : List Char) (tags : Delimiters) : Scan :=
  (Cursor.start template tags).scan

end Mustache
