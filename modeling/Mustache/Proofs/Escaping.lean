import Mathlib.Data.List.TakeWhile
import Mustache.Render.Escape

namespace Mustache

namespace Escape

variable {c : Char} {name cs rest : List Char}

theorem not_special_iff :
    isSpecial c = false ↔ c ≠ '&' ∧ c ≠ '<' ∧ c ≠ '>' ∧ c ≠ '"' ∧ c ≠ '\'' := by
  simp [isSpecial, and_assoc]

theorem not_special_of_isEntityChar (h : isEntityChar c = true) : isSpecial c = false := by
  rw [not_special_iff]
  refine ⟨?_, ?_, ?_, ?_, ?_⟩ <;> rintro rfl <;> revert h <;> decide

theorem exists_of_startsEntity (h : startsEntity cs = true) :
    ∃ name rest, cs = name ++ ';' :: rest ∧ name ≠ [] ∧ ∀ c ∈ name, isEntityChar c = true := by
  unfold startsEntity at h
  split at h
  next first name rest htake hdrop =>
    refine ⟨first :: name, rest, ?_, List.cons_ne_nil _ _, ?_⟩
    · rw [← htake, ← hdrop, List.takeWhile_append_dropWhile]
    · intro c hc
      rw [← htake] at hc
      exact List.mem_takeWhile_imp hc
  next => cases h

theorem startsEntity_append (nonempty : name ≠ []) (hn : ∀ c ∈ name, isEntityChar c = true) :
    startsEntity (name ++ ';' :: rest) = true := by
  obtain ⟨first, name, rfl⟩ := List.exists_cons_of_ne_nil nonempty
  have stop : isEntityChar ';' = false := rfl
  have htake : (first :: name ++ ';' :: rest).takeWhile isEntityChar = first :: name := by
    rw [List.takeWhile_append_of_pos hn, List.takeWhile_cons_of_neg (by simp [stop]),
      List.append_nil]
  have hdrop : (first :: name ++ ';' :: rest).dropWhile isEntityChar = ';' :: rest := by
    rw [List.dropWhile_append_of_pos hn, List.dropWhile_cons_of_neg (by simp [stop])]
  simp only [startsEntity, htake, hdrop]

theorem escapeChar_of_plain (h : isSpecial c = false) (rest : List Char) :
    escapeChar c rest = [c] := by
  obtain ⟨hamp, hlt, hgt, hquot, hapos⟩ := not_special_iff.mp h
  simp only [escapeChar, if_neg hamp, if_neg hlt, if_neg hgt, if_neg hquot, if_neg hapos]

theorem escapeChars_append (hn : ∀ c ∈ name, isSpecial c = false) :
    escapeChars (name ++ cs) = name ++ escapeChars cs := by
  induction name with
  | nil => rfl
  | cons c name ih =>
    obtain ⟨hc, hname⟩ := List.forall_mem_cons.mp hn
    rw [List.cons_append, escapeChars, escapeChar_of_plain hc, ih hname]
    rfl

/-- What follows the ampersand of an entity is left alone, so that it is one in escaped text too. -/
theorem escapeChars_entity (hn : ∀ c ∈ name, isEntityChar c = true) :
    escapeChars (name ++ ';' :: cs) = name ++ ';' :: escapeChars cs := by
  have hchars : ∀ c ∈ name ++ [';'], isSpecial c = false := by
    intro c hc
    rcases List.mem_append.mp hc with hc | hc
    · exact not_special_of_isEntityChar (hn c hc)
    · rw [List.mem_singleton.mp hc]
      rfl
  have happend : escapeChars (name ++ [';'] ++ cs) = name ++ [';'] ++ escapeChars cs :=
    escapeChars_append hchars
  simpa only [List.append_assoc, List.singleton_append] using happend

/-- A name or number that stands for a character, between an ampersand and a semicolon. -/
structure Reference where
  name : List Char
  char : Char
deriving DecidableEq

namespace Reference

def spelling (r : Reference) : List Char :=
  '&' :: (r.name ++ [';'])

theorem spelling_append (r : Reference) (cs : List Char) :
    r.spelling ++ cs = '&' :: (r.name ++ ';' :: cs) := by
  simp [spelling]

def named : List Reference :=
  [⟨['a', 'm', 'p'], '&'⟩, ⟨['l', 't'], '<'⟩, ⟨['g', 't'], '>'⟩, ⟨['q', 'u', 'o', 't'], '"'⟩]

def apostrophe : Reference :=
  ⟨['#', '3', '9'], '\''⟩

/-- The references that are written for characters. -/
def all : List Reference :=
  named ++ [apostrophe]

theorem isEntityChar_of_named {r : Reference} (h : r ∈ named) :
    r.name ≠ [] ∧ ∀ c ∈ r.name, isEntityChar c = true := by
  have nonempty : ∀ r ∈ named, r.name ≠ [] := by decide
  have chars : ∀ r ∈ named, r.name.all isEntityChar = true := by decide
  exact ⟨nonempty r h, List.all_eq_true.mp (chars r h)⟩

end Reference

/-- A character is kept, as plain text or as the start of an entity, or a reference is written. -/
theorem escapeChar_cases (c : Char) (rest : List Char) :
    escapeChar c rest = [c] ∧ (isSpecial c = false ∨ c = '&' ∧ startsEntity rest = true) ∨
      ∃ r ∈ Reference.all, r.char = c ∧ escapeChar c rest = r.spelling := by
  unfold escapeChar
  split
  next hamp =>
    subst hamp
    split
    next starts => exact .inl ⟨rfl, .inr ⟨rfl, starts⟩⟩
    next => exact .inr ⟨⟨['a', 'm', 'p'], '&'⟩, by decide, rfl, rfl⟩
  next hamp =>
  split
  next hlt => exact .inr ⟨⟨['l', 't'], '<'⟩, by decide, hlt.symm, rfl⟩
  next hlt =>
  split
  next hgt => exact .inr ⟨⟨['g', 't'], '>'⟩, by decide, hgt.symm, rfl⟩
  next hgt =>
  split
  next hquot => exact .inr ⟨⟨['q', 'u', 'o', 't'], '"'⟩, by decide, hquot.symm, rfl⟩
  next hquot =>
  split
  next hapos => exact .inr ⟨.apostrophe, by decide, hapos.symm, rfl⟩
  next hapos => exact .inl ⟨rfl, .inl (not_special_iff.mpr ⟨hamp, hlt, hgt, hquot, hapos⟩)⟩

theorem escapeChars_spelling {r : Reference} (h : r ∈ Reference.named) :
    escapeChars (r.spelling ++ cs) = r.spelling ++ escapeChars cs := by
  obtain ⟨nonempty, hn⟩ := Reference.isEntityChar_of_named h
  have starts : startsEntity (r.name ++ ';' :: cs) = true := startsEntity_append nonempty hn
  have kept : escapeChar '&' (r.name ++ ';' :: cs) = ['&'] := by
    simp only [escapeChar, starts, if_true]
  rw [r.spelling_append, r.spelling_append, escapeChars, kept, escapeChars_entity hn,
    List.singleton_append]

/-- The number of the apostrophe is no name, so its ampersand is escaped. -/
theorem escapeChars_apostrophe :
    escapeChars (Reference.apostrophe.spelling ++ cs) =
      amp ++ ['#', '3', '9', ';'] ++ escapeChars cs :=
  rfl

theorem length_le_escapeChars (cs : List Char) : cs.length ≤ (escapeChars cs).length := by
  induction cs with
  | nil => exact Nat.le_refl 0
  | cons c cs ih =>
    have hpos : 0 < (escapeChar c cs).length := by
      rcases escapeChar_cases c cs with ⟨kept, -⟩ | ⟨r, -, -, written⟩
      · simp [kept]
      · simp [written, Reference.spelling]
    rw [escapeChars, List.length_append, List.length_cons]
    omega

theorem escapeChars_cons_eq_self_iff :
    escapeChars (c :: cs) = c :: cs ↔ escapeChar c cs = [c] ∧ escapeChars cs = cs := by
  rw [escapeChars]
  constructor
  · intro h
    have hlength := congrArg List.length h
    have hle := length_le_escapeChars cs
    rw [List.length_append, List.length_cons] at hlength
    rcases escapeChar_cases c cs with ⟨kept, -⟩ | ⟨r, -, -, written⟩
    · rw [kept] at h
      exact ⟨kept, (List.cons.inj h).2⟩
    · -- A reference is longer than the character, and nothing behind it gets shorter.
      rw [written, Reference.spelling, List.length_cons, List.length_append,
        List.length_singleton] at hlength
      omega
  · rintro ⟨kept, rest⟩
    rw [kept, rest]
    rfl

/-- Escaped text has only ampersands that start entities, but for the numbers of apostrophes. -/
theorem escapeChars_escapeChars_iff (cs : List Char) :
    escapeChars (escapeChars cs) = escapeChars cs ↔ '\'' ∉ cs := by
  induction cs with
  | nil => exact ⟨fun _ => nofun, fun _ => rfl⟩
  | cons c cs ih =>
    rw [List.mem_cons, not_or, escapeChars]
    rcases escapeChar_cases c cs with ⟨kept, plain | ⟨rfl, starts⟩⟩ | ⟨r, hr, rfl, written⟩
    · obtain ⟨-, -, -, -, hapos⟩ := not_special_iff.mp plain
      rw [kept, List.singleton_append, escapeChars_cons_eq_self_iff, ih]
      simp [escapeChar_of_plain plain, hapos.symm]
    · obtain ⟨name, rest, rfl, nonempty, hn⟩ := exists_of_startsEntity starts
      have again : escapeChar '&' (escapeChars (name ++ ';' :: rest)) = ['&'] := by
        rw [escapeChars_entity hn, escapeChar, if_pos rfl, if_pos (startsEntity_append nonempty hn)]
      rw [kept, List.singleton_append, escapeChars_cons_eq_self_iff, ih]
      simp [again]
    · rw [written]
      rcases List.mem_append.mp hr with hr | hr
      · have hapos : ∀ r ∈ Reference.named, '\'' ≠ r.char := by decide
        rw [escapeChars_spelling hr, List.append_cancel_left_eq, ih]
        simp [hapos r hr]
      · rw [List.mem_singleton.mp hr, escapeChars_apostrophe]
        simp [Reference.apostrophe, Reference.spelling, amp]

end Escape

/-- Text that is taken over as it stands has no character to escape. -/
theorem escapeHtml_eq (s : String) :
    escapeHtml s = String.ofList (Escape.escapeChars s.toList) := by
  unfold escapeHtml
  split
  next => rfl
  next none =>
    have plain : ∀ c ∈ s.toList, Escape.isSpecial c = false := by simpa using none
    have kept : Escape.escapeChars (s.toList ++ []) = s.toList ++ [] :=
      Escape.escapeChars_append plain
    rw [List.append_nil] at kept
    rw [kept, String.ofList_toList]

theorem toList_escapeHtml (s : String) :
    (escapeHtml s).toList = Escape.escapeChars s.toList := by
  rw [escapeHtml_eq, String.toList_ofList]

/-- Escaping a text twice is escaping it once, unless there is an apostrophe in it, whose number is
escaped in turn. -/
theorem escapeHtml_idem_iff (s : String) :
    escapeHtml (escapeHtml s) = escapeHtml s ↔ '\'' ∉ s.toList := by
  rw [← Escape.escapeChars_escapeChars_iff, ← String.toList_inj, toList_escapeHtml,
    toList_escapeHtml]

end Mustache
