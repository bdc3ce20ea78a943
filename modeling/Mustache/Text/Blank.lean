namespace Mustache.Text

/-- The characters with the Unicode property `White_Space`, which are trimmed from names and
separate delimiters. -/
def isWhiteSpace (c : Char) : Bool :=
  let n := c.toNat
  (0x9 ≤ n && n ≤ 0xd) || n == 0x20 || n == 0x85 || n == 0xa0 || n == 0x1680 ||
    (0x2000 ≤ n && n ≤ 0x200a) || n == 0x2028 || n == 0x2029 || n == 0x202f || n == 0x205f ||
    n == 0x3000

/-- Space, tab, carriage return, vertical tab and form feed, which may share a line with a tag that
stands alone. -/
def isBlank (c : Char) : Bool :=
  c == ' ' || c == '\t' || c == '\r' || c == '\x0b' || c == '\x0c'

def trimStart (cs : List Char) : List Char :=
  cs.dropWhile isWhiteSpace

def trimEnd (cs : List Char) : List Char :=
  cs.foldr (fun c rest => if rest.isEmpty && isWhiteSpace c then [] else c :: rest) []

def trim (cs : List Char) : List Char :=
  trimEnd (trimStart cs)

/-- The parts of a text between the characters that satisfy `p`, at least one part. -/
def splitWhere (p : Char → Bool) : List Char → List (List Char)
  | [] => [[]]
  | c :: cs =>
    if p c then [] :: splitWhere p cs
    else match splitWhere p cs with
      | [] => [[c]]
      | part :: parts => (c :: part) :: parts

/-- The lines of a text, without the newlines between them. -/
def lines (cs : List Char) : List (List Char) :=
  splitWhere (· == '\n') cs

/-- The non-empty parts of a text between white space. -/
def words (cs : List Char) : List (List Char) :=
  (splitWhere isWhiteSpace cs).filter (!·.isEmpty)

theorem splitWhere_solid {p : Char → Bool} {cs part : List Char} (h : part ∈ splitWhere p cs) :
    ∀ c ∈ part, p c = false := by
  induction cs generalizing part with
  | nil => simp_all [splitWhere]
  | cons c cs ih =>
    simp only [splitWhere] at h
    split at h
    · rcases List.mem_cons.mp h with rfl | h
      · simp
      · exact ih h
    next hc =>
      split at h
      · simp_all
      next first rest he =>
        rcases List.mem_cons.mp h with rfl | h
        · intro x hx
          rcases List.mem_cons.mp hx with rfl | hx
          · simpa using hc
          · exact ih (by simp [he]) x hx
        · exact ih (by simp [he, h])

theorem words_nonempty {cs w : List Char} (h : w ∈ words cs) : w ≠ [] := by
  have := (List.mem_filter.mp h).2
  rintro rfl
  simp at this

theorem words_solid {cs w : List Char} (h : w ∈ words cs) : ∀ c ∈ w, isWhiteSpace c = false :=
  splitWhere_solid (List.mem_filter.mp h).1

end Mustache.Text
