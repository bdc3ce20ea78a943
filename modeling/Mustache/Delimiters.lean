import Mustache.Text.Blank
import Mustache.Text.Quoted

namespace Mustache

/-- One end of a tag. It has at least one character and no white space in it, whoever made it. -/
structure Marker where
  chars : List Char
  nonempty : chars ≠ []
  solid : ∀ c ∈ chars, Text.isWhiteSpace c = false
deriving DecidableEq

def Marker.text (m : Marker) : String :=
  String.ofList m.chars

structure Delimiters where
  opening : Marker
  closing : Marker
deriving DecidableEq

inductive DelimiterError where
  | empty
  | whiteSpace (text : String)
  | count (found : Nat)
deriving DecidableEq

def DelimiterError.reason : DelimiterError → String
  | .empty => "delimiters may not be empty"
  | .whiteSpace text => "delimiter " ++ Text.quoted text ++ " contains whitespace"
  | .count found => "expected [open, close], got " ++ toString found ++ " entries"

def DelimiterError.message (e : DelimiterError) : String :=
  "Invalid tags: " ++ e.reason

def Marker.ofText (s : String) : Except DelimiterError Marker :=
  if nonempty : s.toList = [] then .error .empty
  else if solid : s.toList.all (!Text.isWhiteSpace ·) then
    .ok ⟨s.toList, nonempty, by simpa using solid⟩
  else .error (.whiteSpace s)

namespace Delimiters

def standard : Delimiters where
  opening := ⟨['{', '{'], by simp, by simp [Text.isWhiteSpace]⟩
  closing := ⟨['}', '}'], by simp, by simp [Text.isWhiteSpace]⟩

/-- The opening text is judged before the closing one. -/
def ofTexts (opening closing : String) : Except DelimiterError Delimiters := do
  let opening ← Marker.ofText opening
  let closing ← Marker.ofText closing
  return ⟨opening, closing⟩

def ofList : List String → Except DelimiterError Delimiters
  | [opening, closing] => ofTexts opening closing
  | texts => .error (.count texts.length)

/-- The delimiters that a switch tag asks for: the first and the last word in it. -/
def ofSwitch? (source : List Char) : Option Delimiters :=
  match h : Text.words source with
  | [] => none
  | first :: rest =>
    have mem {w : List Char} (hw : w ∈ first :: rest) : w ∈ Text.words source := h ▸ hw
    let marker (w : List Char) (hw : w ∈ first :: rest) : Marker :=
      ⟨w, Text.words_nonempty (mem hw), Text.words_solid (mem hw)⟩
    some ⟨marker first List.mem_cons_self,
      marker ((first :: rest).getLast (by simp)) (List.getLast_mem _)⟩

end Delimiters
end Mustache
