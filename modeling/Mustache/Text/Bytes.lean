namespace Mustache.Text

/-- The number of bytes that the characters take in UTF-8. Places in a template are counted in
bytes, while the template itself is read as a list of characters. -/
def byteLength : List Char → Nat
  | [] => 0
  | c :: cs => c.utf8Size + byteLength cs

/-- The characters that start before the given byte. A byte inside a character counts that
character. -/
def takeBytes : Nat → List Char → List Char
  | 0, _ => []
  | _, [] => []
  | n + 1, c :: cs => c :: takeBytes (n + 1 - c.utf8Size) cs

/-- The characters that start at the given byte or after it. -/
def dropBytes : Nat → List Char → List Char
  | 0, cs => cs
  | _, [] => []
  | n + 1, c :: cs => dropBytes (n + 1 - c.utf8Size) cs

def slice (start stop : Nat) (cs : List Char) : List Char :=
  takeBytes (stop - start) (dropBytes start cs)

/-- The number of characters that start before the given byte. -/
def charOffset (offset : Nat) (cs : List Char) : Nat :=
  (takeBytes offset cs).length

@[simp] theorem byteLength_append (xs ys : List Char) :
    byteLength (xs ++ ys) = byteLength xs + byteLength ys := by
  induction xs with
  | nil => simp [byteLength]
  | cons c cs ih => simp [byteLength, ih, Nat.add_assoc]

@[simp] theorem takeBytes_zero (cs : List Char) : takeBytes 0 cs = [] := by
  simp [takeBytes]

@[simp] theorem dropBytes_zero (cs : List Char) : dropBytes 0 cs = cs := by
  simp [dropBytes]

theorem takeBytes_append_dropBytes (n : Nat) (cs : List Char) :
    takeBytes n cs ++ dropBytes n cs = cs := by
  fun_induction takeBytes n cs with
  | case1 => simp
  | case2 n h => cases n <;> simp [dropBytes]
  | case3 n c cs ih => simp [dropBytes, ih]

theorem dropBytes_byteLength (xs ys : List Char) : dropBytes (byteLength xs) (xs ++ ys) = ys := by
  induction xs with
  | nil => simp [byteLength]
  | cons c cs ih =>
    obtain ⟨n, hn⟩ : ∃ n, c.utf8Size = n + 1 :=
      ⟨c.utf8Size - 1, by have := c.utf8Size_pos; omega⟩
    simp only [byteLength, List.cons_append, hn]
    rw [show n + 1 + byteLength cs = (n + byteLength cs) + 1 by omega, dropBytes, hn,
      show n + byteLength cs + 1 - (n + 1) = byteLength cs by omega, ih]

theorem takeBytes_byteLength (xs ys : List Char) : takeBytes (byteLength xs) (xs ++ ys) = xs := by
  have h := takeBytes_append_dropBytes (byteLength xs) (xs ++ ys)
  rw [dropBytes_byteLength] at h
  exact List.append_cancel_right h

theorem slice_append (xs ys zs : List Char) :
    slice (byteLength xs) (byteLength xs + byteLength ys) (xs ++ ys ++ zs) = ys := by
  simp [slice, List.append_assoc, dropBytes_byteLength, takeBytes_byteLength]

end Mustache.Text
