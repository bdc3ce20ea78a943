import Mustache.Delimiters
import Mustache.Proofs.Trimming
import Mustache.Text.Search

namespace Mustache.Text

/-- `before` ends where the leftmost of all occurrences of the needle starts. -/
structure Leftmost (needle cs before after : List Char) : Prop where
  occurs : cs = before ++ needle ++ after
  least : ∀ b a, cs = b ++ needle ++ a → before.length ≤ b.length

theorem Leftmost.unique {needle cs before after before' after' : List Char}
    (h : Leftmost needle cs before after) (h' : Leftmost needle cs before' after') :
    before = before' ∧ after = after' := by
  have hle := h.least before' after' h'.occurs
  have hge := h'.least before after h.occurs
  have he := h.occurs.symm.trans h'.occurs
  rw [List.append_assoc, List.append_assoc] at he
  obtain ⟨rfl, hrest⟩ := List.append_inj he (by omega)
  exact ⟨rfl, List.append_cancel_left hrest⟩

theorem breakOn_eq_none_iff {needle cs : List Char} :
    breakOn needle cs = none ↔ ¬needle <:+: cs := by
  induction cs with
  | nil => simp [breakOn]
  | cons c cs ih =>
    rw [List.infix_cons_iff, not_or, ← ih, ← List.isPrefixOf_iff_prefix, breakOn]
    split
    next hp => simp [hp]
    next hp => simp [hp]

theorem leftmost_of_breakOn {needle cs before after : List Char}
    (h : breakOn needle cs = some (before, after)) : Leftmost needle cs before after := by
  refine ⟨breakOn_eq_some h, ?_⟩
  induction cs generalizing before with
  | nil =>
    have hcs := breakOn_eq_some h
    intro b a _
    have : before = [] := by simp_all
    simp [this]
  | cons c cs ih =>
    intro b a hb
    rw [breakOn] at h
    split at h
    next => cases h; simp
    next hp =>
      obtain ⟨⟨before', after'⟩, hrest, he⟩ := Option.map_eq_some_iff.mp h
      cases he
      cases b with
      | nil =>
        -- An occurrence at the very start would have been taken.
        have : needle <+: c :: cs := ⟨a, by simpa using hb.symm⟩
        exact absurd (List.isPrefixOf_iff_prefix.mpr this) hp
      | cons d b =>
        have htail : cs = b ++ needle ++ a := by
          simp only [List.cons_append, List.cons.injEq] at hb
          exact hb.2
        have := ih hrest b a htail
        simpa using this

theorem breakOn_eq_some_iff {needle cs before after : List Char} :
    breakOn needle cs = some (before, after) ↔ Leftmost needle cs before after := by
  constructor
  · exact leftmost_of_breakOn
  · intro h
    cases hb : breakOn needle cs with
    | none => exact absurd ⟨before, after, h.occurs.symm⟩ (breakOn_eq_none_iff.mp hb)
    | some found =>
      obtain ⟨rfl, rfl⟩ := (leftmost_of_breakOn hb).unique h
      rfl

/-- A needle at the start of a text is found there. -/
theorem breakOn_append (needle after : List Char) :
    breakOn needle (needle ++ after) = some ([], after) :=
  breakOn_eq_some_iff.mpr ⟨rfl, fun _ _ _ => Nat.zero_le _⟩

/-- A word among others: what stands around it is empty or ends in white space. -/
structure IsWord (w before after : List Char) : Prop where
  nonempty : w ≠ []
  solid : ∀ c ∈ w, isWhiteSpace c = false
  bounded : (∀ c ∈ before.getLast?, isWhiteSpace c) ∧ ∀ c ∈ after.head?, isWhiteSpace c

def FirstWord (cs w : List Char) : Prop :=
  ∃ before after, cs = before ++ w ++ after ∧ IsWord w before after ∧ ∀ c ∈ before, isWhiteSpace c

def LastWord (cs w : List Char) : Prop :=
  ∃ before after, cs = before ++ w ++ after ∧ IsWord w before after ∧ ∀ c ∈ after, isWhiteSpace c

theorem splitWhere_append {p : Char → Bool} {part rest : List Char} (h : ∀ c ∈ part, p c = false)
    (hrest : ∀ c ∈ rest.head?, p c) :
    splitWhere p (part ++ rest) = part :: (splitWhere p rest).tail := by
  induction part with
  | nil =>
    cases rest with
    | nil => rfl
    | cons c rest => simp [splitWhere, hrest c rfl]
  | cons c part ih =>
    have hc : p c = false := h c (by simp)
    have := ih fun d hd => h d (by simp [hd])
    simp only [List.cons_append, splitWhere, hc, this, Bool.false_eq_true, if_false]

theorem words_cons_of_white {c : Char} {cs : List Char} (h : isWhiteSpace c) :
    words (c :: cs) = words cs := by
  simp [words, splitWhere, h]

theorem words_append_of_white {before cs : List Char} (h : ∀ c ∈ before, isWhiteSpace c) :
    words (before ++ cs) = words cs := by
  induction before with
  | nil => rfl
  | cons c before ih =>
    rw [List.cons_append, words_cons_of_white (h c (by simp))]
    exact ih fun d hd => h d (by simp [hd])

theorem words_append_of_solid {w after : List Char} (hne : w ≠ [])
    (h : ∀ c ∈ w, isWhiteSpace c = false) (hafter : ∀ c ∈ after.head?, isWhiteSpace c) :
    words (w ++ after) = w :: words after := by
  cases after with
  | nil =>
    have hs := splitWhere_append h hafter
    rw [words, hs]
    simp [splitWhere, words, hne]
  | cons c after =>
    have hc : isWhiteSpace c := hafter c rfl
    have hs := splitWhere_append h hafter
    simp [words, hs, splitWhere, hne, hc]

theorem white_or_exists_word (cs : List Char) :
    (∀ c ∈ cs, isWhiteSpace c) ∨ ∃ before w after, cs = before ++ w ++ after ∧
      IsWord w before after ∧ (∀ c ∈ before, isWhiteSpace c) ∧ words cs = w :: words after := by
  let before := cs.takeWhile isWhiteSpace
  let rest := cs.dropWhile isWhiteSpace
  have hbefore : ∀ c ∈ before, isWhiteSpace c := fun c hc => List.mem_takeWhile_imp hc
  have hcs : cs = before ++ rest := List.takeWhile_append_dropWhile.symm
  by_cases hne : rest = []
  · left
    rw [hne, List.append_nil] at hcs
    rwa [hcs]
  right
  let w := rest.takeWhile (!isWhiteSpace ·)
  let after := rest.dropWhile (!isWhiteSpace ·)
  have hrest : rest = w ++ after := List.takeWhile_append_dropWhile.symm
  have hsolid : ∀ c ∈ w, isWhiteSpace c = false := by
    intro c hc
    simpa using List.mem_takeWhile_imp hc
  have hhead : isWhiteSpace (rest.head hne) = false := by
    simpa using List.head_dropWhile_not isWhiteSpace hne
  have hw : w ≠ [] := by
    intro he
    have := List.takeWhile_eq_nil_iff.mp he (List.length_pos_iff.mpr hne)
    rw [List.head_eq_getElem] at hhead
    simp [hhead] at this
  have hafter : ∀ c ∈ after.head?, isWhiteSpace c := by
    intro c hc
    simpa using solid_head?_dropWhile (!isWhiteSpace ·) rest c hc
  refine ⟨before, w, after, by rw [List.append_assoc, ← hrest, ← hcs], ⟨hw, hsolid, ?_, hafter⟩,
    hbefore, ?_⟩
  · exact fun c hc => hbefore c (List.mem_of_getLast? hc)
  · rw [hcs, hrest, words_append_of_white hbefore, words_append_of_solid hw hsolid hafter]

theorem words_eq_nil_iff {cs : List Char} : words cs = [] ↔ ∀ c ∈ cs, isWhiteSpace c := by
  constructor
  · intro h
    rcases white_or_exists_word cs with white | ⟨before, w, after, _, _, _, hwords⟩
    · exact white
    · rw [h] at hwords
      cases hwords
  · intro h
    have nothing : words (cs ++ []) = words [] := words_append_of_white h
    rw [List.append_nil] at nothing
    rw [nothing]
    rfl

theorem firstWord_of_head? {cs w : List Char} (h : (words cs).head? = some w) :
    FirstWord cs w := by
  rcases white_or_exists_word cs with white | ⟨before, first, after, hcs, word, white, hwords⟩
  · rw [words_eq_nil_iff.mpr white] at h
    cases h
  · rw [hwords] at h
    cases h
    exact ⟨before, after, hcs, word, white⟩

theorem lastWord_of_getLast? {cs w : List Char} (h : (words cs).getLast? = some w) :
    LastWord cs w := by
  rcases white_or_exists_word cs with white | ⟨before, first, after, hcs, word, white, hwords⟩
  · rw [words_eq_nil_iff.mpr white] at h
    cases h
  rw [hwords, List.getLast?_cons] at h
  cases hafter : (words after).getLast? with
  | none =>
    have hnil : words after = [] := List.getLast?_eq_none_iff.mp hafter
    rw [hafter] at h
    cases h
    exact ⟨before, after, hcs, word, words_eq_nil_iff.mp hnil⟩
  | some last =>
    rw [hafter] at h
    cases h
    have shorter : after.length < cs.length := by
      have := List.length_pos_iff.mpr word.nonempty
      rw [hcs]
      simp only [List.length_append]
      omega
    obtain ⟨b, a, hb, inner, trailing⟩ := lastWord_of_getLast? hafter
    refine ⟨before ++ first ++ b, a, by rw [hcs, hb]; simp, ⟨inner.nonempty, inner.solid, ?_,
      inner.bounded.2⟩, trailing⟩
    intro c hc
    rcases List.eq_nil_or_concat b with rfl | ⟨init, d, rfl⟩
    · -- The word would go on in the first one, which white space ends.
      obtain ⟨e, rest, rfl⟩ := List.exists_cons_of_ne_nil inner.nonempty
      have hsolid := inner.solid e (by simp)
      have hwhite := word.bounded.2 e (by simp [hb])
      simp [hsolid] at hwhite
    · have hd := inner.bounded.1 d (by simp)
      simp only [List.append_assoc, List.getLast?_append] at hc
      simp_all
termination_by cs.length

end Mustache.Text

namespace Mustache.Delimiters

theorem ofSwitch?_eq_none_iff {source : List Char} :
    ofSwitch? source = none ↔ ∀ c ∈ source, Text.isWhiteSpace c := by
  rw [← Text.words_eq_nil_iff]
  unfold ofSwitch?
  split
  next h => simp [h]
  next h => simp [h]

theorem words_of_ofSwitch? {source : List Char} {tags : Delimiters}
    (h : ofSwitch? source = some tags) :
    Text.FirstWord source tags.opening.chars ∧ Text.LastWord source tags.closing.chars := by
  unfold ofSwitch? at h
  split at h
  · cases h
  next first rest hwords =>
    cases h
    have hhead : (Text.words source).head? = some first := by rw [hwords]; rfl
    have hlast : (Text.words source).getLast? = some ((first :: rest).getLast (by simp)) := by
      rw [hwords]
      exact List.getLast?_eq_some_getLast _
    exact ⟨Text.firstWord_of_head? hhead, Text.lastWord_of_getLast? hlast⟩

end Mustache.Delimiters
