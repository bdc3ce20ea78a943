import Mathlib.Data.List.DropRight
import Mathlib.Data.List.TakeWhile
import Mustache.Text.Blank

namespace Mustache.Text

/-- A text without the white space around it. -/
structure Trimmed (cs trimmed : List Char) : Prop where
  around : ∃ before after, cs = before ++ trimmed ++ after ∧
    (∀ c ∈ before, isWhiteSpace c) ∧ ∀ c ∈ after, isWhiteSpace c
  first : ∀ c ∈ trimmed.head?, isWhiteSpace c = false
  last : ∀ c ∈ trimmed.getLast?, isWhiteSpace c = false

/-- A text without any white space, between white space. -/
theorem trimmed_append {before trimmed after : List Char} (hbefore : ∀ c ∈ before, isWhiteSpace c)
    (hafter : ∀ c ∈ after, isWhiteSpace c) (h : ∀ c ∈ trimmed, isWhiteSpace c = false) :
    Trimmed (before ++ trimmed ++ after) trimmed where
  around := ⟨before, after, rfl, hbefore, hafter⟩
  first c hc := h c (List.mem_of_head? hc)
  last c hc := h c (List.mem_of_getLast? hc)

theorem trimEnd_cons (c : Char) (cs : List Char) :
    trimEnd (c :: cs) = if trimEnd cs = [] ∧ isWhiteSpace c then [] else c :: trimEnd cs := by
  simp [trimEnd]

theorem trimEnd_concat_of_solid {c : Char} (h : isWhiteSpace c = false) (cs : List Char) :
    trimEnd (cs ++ [c]) = cs ++ [c] := by
  induction cs with
  | nil => simp [trimEnd, h]
  | cons d cs ih =>
    rw [List.cons_append, trimEnd_cons, ih]
    simp

theorem trimEnd_eq_rdropWhile (cs : List Char) : trimEnd cs = cs.rdropWhile isWhiteSpace := by
  induction cs using List.reverseRecOn with
  | nil => rfl
  | append_singleton cs c ih =>
    by_cases hc : isWhiteSpace c = true
    · rw [List.rdropWhile_concat_pos _ _ _ hc, ← ih]
      simp [trimEnd, hc]
    · have hsolid : isWhiteSpace c = false := by simpa using hc
      rw [List.rdropWhile_concat_neg _ _ _ hc, trimEnd_concat_of_solid hsolid]

theorem solid_head?_dropWhile (p : Char → Bool) (cs : List Char) :
    ∀ c ∈ (cs.dropWhile p).head?, p c = false := by
  intro c hc
  have := List.head?_dropWhile_not p cs
  rw [hc] at this
  simpa using this

theorem dropWhile_append_of_head? {p : Char → Bool} {before cs : List Char}
    (hbefore : ∀ c ∈ before, p c) (hcs : ∀ c ∈ cs.head?, p c = false) :
    (before ++ cs).dropWhile p = cs := by
  rw [List.dropWhile_append_of_pos hbefore]
  cases cs with
  | nil => rfl
  | cons c cs => simp [hcs c rfl]

theorem trimmed_trim (cs : List Char) : Trimmed cs (trim cs) := by
  let before := cs.takeWhile isWhiteSpace
  let after := (trimStart cs).rtakeWhile isWhiteSpace
  have htrim : trim cs = (trimStart cs).rdropWhile isWhiteSpace := trimEnd_eq_rdropWhile _
  have hstart : cs = before ++ trimStart cs := List.takeWhile_append_dropWhile.symm
  have hend : trimStart cs = trim cs ++ after := by
    rw [htrim, List.rdropWhile_append_rtakeWhile]
  refine ⟨⟨before, after, ?_, ?_, ?_⟩, ?_, ?_⟩
  · rw [List.append_assoc, ← hend, ← hstart]
  · exact fun c hc => List.mem_takeWhile_imp hc
  · exact fun c hc => List.mem_rtakeWhile_imp hc
  · intro c hc
    have hhead : c ∈ (trimStart cs).head? := by
      rw [hend, List.head?_append]
      simp [Option.mem_def.mp hc]
    exact solid_head?_dropWhile isWhiteSpace cs c hhead
  · rw [htrim, List.rdropWhile, List.getLast?_reverse]
    exact solid_head?_dropWhile isWhiteSpace _

theorem Trimmed.trim_eq {cs trimmed : List Char} (h : Trimmed cs trimmed) :
    trim cs = trimmed := by
  obtain ⟨⟨before, after, rfl, hbefore, hafter⟩, first, last⟩ := h
  cases trimmed with
  | nil =>
    -- Nothing is left, so the white space is all taken from the start.
    have white : ∀ c ∈ before ++ [] ++ after, isWhiteSpace c := by
      intro c hc
      rw [List.append_nil] at hc
      exact (List.mem_append.mp hc).elim (hbefore c) (hafter c)
    rw [trim, trimStart, List.dropWhile_eq_nil_iff.mpr white]
    rfl
  | cons d trimmed =>
    have hhead : ∀ c ∈ (d :: trimmed ++ after).head?, isWhiteSpace c = false := first
    have hlast : ∀ c ∈ (d :: trimmed).reverse.head?, isWhiteSpace c = false := by
      rwa [List.head?_reverse]
    have hafter' : ∀ c ∈ after.reverse, isWhiteSpace c :=
      fun c hc => hafter c (List.mem_reverse.mp hc)
    rw [trim, trimStart, List.append_assoc, dropWhile_append_of_head? hbefore hhead,
      trimEnd_eq_rdropWhile, List.rdropWhile, List.reverse_append,
      dropWhile_append_of_head? hafter' hlast, List.reverse_reverse]

/-- Trimming takes the white space off both ends of a text and nothing else. -/
theorem trim_eq_iff {cs trimmed : List Char} : trim cs = trimmed ↔ Trimmed cs trimmed :=
  ⟨fun h => h ▸ trimmed_trim cs, Trimmed.trim_eq⟩

end Mustache.Text
