import Mathlib.Data.List.Find
import Mustache.Proofs.Escaping

namespace Mustache

namespace Escape

variable {c : Char} {name cs rest : List Char} {references : List Reference}

/-- Puts the characters that the references stand for in their places, in one pass from left to
right. -/
def decode (references : List Reference) : List Char → List Char
  | [] => []
  | c :: cs =>
    match references.find? (·.spelling.isPrefixOf (c :: cs)) with
    | some r => r.char :: decode references ((c :: cs).drop r.spelling.length)
    | none => c :: decode references cs
termination_by cs => cs.length
decreasing_by
  · simp only [Reference.spelling, List.length_cons, List.drop_succ_cons, List.length_drop]
    omega
  · exact Nat.lt_succ_self _

theorem decode_of_none (h : references.find? (·.spelling.isPrefixOf (c :: cs)) = none) :
    decode references (c :: cs) = c :: decode references cs := by
  rw [decode, h]

theorem find?_of_ne_ampersand (hc : c ≠ '&') (references : List Reference) (cs : List Char) :
    references.find? (·.spelling.isPrefixOf (c :: cs)) = none := by
  rw [List.find?_eq_none]
  intro r _ starts
  obtain ⟨behind, h⟩ := List.isPrefixOf_iff_prefix.mp starts
  exact hc (List.cons.inj h).1.symm

theorem exists_of_find? {r : Reference}
    (h : references.find? (·.spelling.isPrefixOf cs) = some r) :
    r ∈ references ∧ ∃ rest, cs = r.spelling ++ rest := by
  have starts := List.find?_some h
  obtain ⟨rest, hrest⟩ := List.isPrefixOf_iff_prefix.mp starts
  exact ⟨List.mem_of_find?_eq_some h, rest, hrest.symm⟩

theorem takeWhile_ne_semicolon (h : ';' ∉ name) :
    (name ++ ';' :: rest).takeWhile (· ≠ ';') = name := by
  have hn : ∀ c ∈ name, decide (c ≠ ';') = true := by
    intro c hc
    exact decide_eq_true fun he => h (he ▸ hc)
  rw [List.takeWhile_append_of_pos hn, List.takeWhile_cons_of_neg (by simp), List.append_nil]

namespace Reference

theorem semicolon_not_mem {r : Reference} (h : r ∈ all) : ';' ∉ r.name := by
  have checked : ∀ r ∈ all, ';' ∉ r.name := by decide
  exact checked r h

theorem find?_all {r : Reference} (h : r ∈ all) : all.find? (·.name = r.name) = some r := by
  have checked : ∀ r ∈ all, all.find? (·.name = r.name) = some r := by decide
  exact checked r h

/-- The number of the apostrophe is not the name of an entity. -/
theorem find?_all_eq (hn : ∀ c ∈ name, isEntityChar c = true) :
    all.find? (·.name = name) = named.find? (·.name = name) := by
  have hne : apostrophe.name ≠ name := by
    rintro rfl
    exact absurd (hn '#' (by decide)) (by decide)
  rw [all, List.find?_append, List.find?_singleton, if_neg (by simpa using hne), Option.or_none]

/-- The name of a reference is all that stands between its ampersand and the next semicolon. -/
theorem spelling_prefix_iff {r : Reference} (hr : ';' ∉ r.name) (hname : ';' ∉ name) :
    r.spelling <+: '&' :: (name ++ ';' :: rest) ↔ r.name = name := by
  constructor
  · rintro ⟨behind, h⟩
    rw [spelling_append, List.cons.injEq] at h
    have htake := congrArg (List.takeWhile (· ≠ ';')) h.2
    rwa [takeWhile_ne_semicolon hr, takeWhile_ne_semicolon hname] at htake
  · rintro rfl
    exact ⟨rest, r.spelling_append rest⟩

end Reference

section

variable (solid : ∀ r ∈ references, ';' ∉ r.name)

include solid

theorem find?_reference (hname : ';' ∉ name) :
    references.find? (·.spelling.isPrefixOf ('&' :: (name ++ ';' :: rest))) =
      references.find? (·.name = name) := by
  apply List.find?_congr
  intro r hr
  rw [Bool.eq_iff_iff, List.isPrefixOf_iff_prefix, decide_eq_true_iff]
  exact Reference.spelling_prefix_iff (solid r hr) hname

theorem decode_spelling {r : Reference} (hr : r ∈ references)
    (found : references.find? (·.name = r.name) = some r) (cs : List Char) :
    decode references (r.spelling ++ cs) = r.char :: decode references cs := by
  have hfind :
      references.find? (·.spelling.isPrefixOf ('&' :: (r.name ++ ';' :: cs))) = some r := by
    rw [find?_reference solid (solid r hr), found]
  rw [r.spelling_append, decode, hfind, ← r.spelling_append]
  simp only [List.drop_left]

end

/-- Decoding keeps step with escaping: a reference in escaped text was written for a character, or
the text has had it by name before. -/
theorem decode_escapeChars (cs : List Char) :
    decode Reference.all (escapeChars cs) = decode Reference.named cs := by
  have solid : ∀ r ∈ Reference.all, ';' ∉ r.name := fun _ => Reference.semicolon_not_mem
  have solidNamed : ∀ r ∈ Reference.named, ';' ∉ r.name :=
    fun r hr => solid r (List.mem_append_left _ hr)
  fun_induction decode Reference.named cs with
  | case1 => rw [escapeChars, decode]
  | case2 c cs r found ih =>
    obtain ⟨hr, rest, hrest⟩ := exists_of_find? found
    have hall := List.mem_append_left [Reference.apostrophe] hr
    rw [hrest, List.drop_left] at ih ⊢
    rw [escapeChars_spelling hr, decode_spelling solid hall (Reference.find?_all hall), ih]
  | case3 c cs absent ih =>
    rw [escapeChars]
    rcases escapeChar_cases c cs with ⟨kept, plain | ⟨rfl, starts⟩⟩ | ⟨r, hr, rfl, written⟩
    · have hamp := (not_special_iff.mp plain).1
      rw [kept, List.singleton_append, decode_of_none (find?_of_ne_ampersand hamp _ _), ih]
    · -- The entity is none of the references, and it has the same name in the escaped text.
      obtain ⟨name, rest, rfl, -, hn⟩ := exists_of_startsEntity starts
      have hname : ';' ∉ name := fun hmem => absurd (hn ';' hmem) (by decide)
      have unread : Reference.all.find? (·.spelling.isPrefixOf
          ('&' :: escapeChars (name ++ ';' :: rest))) = none := by
        rw [find?_reference solidNamed hname] at absent
        rw [escapeChars_entity hn, find?_reference solid hname, Reference.find?_all_eq hn, absent]
      rw [kept, List.singleton_append, decode_of_none unread, ih]
    · rw [written, decode_spelling solid hr (Reference.find?_all hr), ih]

theorem decode_of_no_entity
    (h : ∀ before after, cs = before ++ '&' :: after → startsEntity after = false) :
    decode Reference.named cs = cs := by
  induction cs with
  | nil => rw [decode]
  | cons c cs ih =>
    have hcs := ih fun before after he => h (c :: before) after (by rw [he]; rfl)
    have unread : Reference.named.find? (·.spelling.isPrefixOf (c :: cs)) = none := by
      by_contra hfound
      obtain ⟨r, hr⟩ := Option.ne_none_iff_exists'.mp hfound
      obtain ⟨hmem, rest, hrest⟩ := exists_of_find? hr
      obtain ⟨nonempty, hn⟩ := Reference.isEntityChar_of_named hmem
      have starts : startsEntity (r.name ++ ';' :: rest) = true := startsEntity_append nonempty hn
      rw [h [] _ (by rw [hrest, r.spelling_append]; rfl)] at starts
      cases starts
    rw [decode_of_none unread, hcs]

end Escape

/-- Reads all references that escaping can write. -/
def unescape (s : String) : String :=
  String.ofList (Escape.decode Escape.Reference.all s.toList)

/-- Reads the references that have a name. -/
def unescapeNamed (s : String) : String :=
  String.ofList (Escape.decode Escape.Reference.named s.toList)

/-- Escaping loses no more than the difference between a character and a reference to it by name,
and nothing of a text without entities. It is the same whether or not the text is looked through for
special characters beforehand. -/
theorem unescape_escapeHtml (s : String) :
    escapeHtml s = String.ofList (Escape.escapeChars s.toList) ∧
      unescape (escapeHtml s) = unescapeNamed s ∧
      ((∀ before name after, s.toList = before ++ '&' :: (name ++ ';' :: after) →
          (∀ c ∈ name, c.isAlphanum = true ∨ c = '_') → name = []) →
        unescape (escapeHtml s) = s) := by
  have named : unescape (escapeHtml s) = unescapeNamed s := by
    rw [unescape, unescapeNamed, toList_escapeHtml, Escape.decode_escapeChars]
  refine ⟨escapeHtml_eq s, named, fun h => ?_⟩
  have hnone : ∀ before after, s.toList = before ++ '&' :: after →
      Escape.startsEntity after = false := by
    intro before after he
    by_contra starts
    obtain ⟨name, rest, rfl, nonempty, hn⟩ :=
      Escape.exists_of_startsEntity (eq_true_of_ne_false starts)
    exact nonempty (h before name rest he fun c hc => by
      simpa [Escape.isEntityChar] using hn c hc)
  rw [named, unescapeNamed, Escape.decode_of_no_entity hnone, String.ofList_toList]

/-- Without its semicolon a name is no entity. -/
theorem unescape_escapeHtml_markup :
    let text := "&lt <b> & 'c'"
    escapeHtml text = "&amp;lt &lt;b&gt; &amp; &#39;c&#39;" ∧
      unescape (escapeHtml text) = text := by
  intro text
  have solid : ';' ∉ text.toList := by decide
  refine ⟨by decide +kernel, (unescape_escapeHtml text).2.2 fun before name after he _ => ?_⟩
  exact absurd (by simp [he]) solid

end Mustache
