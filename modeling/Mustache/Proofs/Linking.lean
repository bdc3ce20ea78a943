import Mathlib.Logic.ExistsUnique
import Mustache.Proofs.Assembly
import Mustache.Render.Execute

namespace Mustache

namespace Op

/-- A section with a body of `n` operations starts at `i`. -/
def SectionAt (ops : List Op) (i : Nat) (name : String) (n : Nat) : Prop :=
  ∃ inverted raw, ops[i]? = some (.openSection name inverted n raw)

def EndAt (ops : List Op) (j : Nat) (name : String) : Prop :=
  ops[j]? = some (.closeSection name)

/-- The sections of some operations, from start to end. -/
structure Linked (ops : List Op) : Prop where
  /-- A section ends right after its body, under its own name. -/
  ended : ∀ {i name n}, SectionAt ops i name n → EndAt ops (i + 1 + n) name
  /-- Each end is that of one section only. -/
  started : ∀ {j name}, EndAt ops j name → ∃! i, ∃ n, SectionAt ops i name n ∧ i + 1 + n = j
  /-- Of two sections the second one starts after the first has ended, or ends before it does. -/
  nested : ∀ {i name n i' name' n'}, SectionAt ops i name n → SectionAt ops i' name' n' → i < i' →
    i + 1 + n < i' ∨ i' + 1 + n' < i + 1 + n

/-- Literals have a text, and no two of them are neighbours. -/
structure Merged (ops : List Op) : Prop where
  filled : ∀ {i : Nat} {text}, ops[i]? = some (literal text) → text ≠ ""
  apart : ∀ {i : Nat} {text}, ops[i]? = some (literal text) →
    ∀ next, ops[i + 1]? ≠ some (literal next)

structure WellLinked (ops : List Op) : Prop where
  linked : Linked ops
  merged : Merged ops

/-- The operations that the executor goes through: those of the program, and those of the body of
any section among them. -/
inductive Slice (program : Program) : List Op → Prop where
  | whole : Slice program program.ops
  | body {ops : List Op} {i n : Nat} {name : String} (outer : Slice program ops)
      (starts : SectionAt ops i name n) : Slice program (body n (ops.drop (i + 1)))

theorem getElem?_append_iff {xs ys : List Op} {i : Nat} {op : Op} :
    (xs ++ ys)[i]? = some op ↔
      xs[i]? = some op ∨ ∃ k, i = xs.length + k ∧ ys[k]? = some op := by
  constructor
  · intro h
    by_cases hi : i < xs.length
    · exact .inl (by rwa [List.getElem?_append_left hi] at h)
    · rw [List.getElem?_append_right (by omega)] at h
      exact .inr ⟨i - xs.length, by omega, h⟩
  · rintro (h | ⟨k, rfl, h⟩)
    · obtain ⟨hi, _⟩ := List.getElem?_eq_some_iff.mp h
      rwa [List.getElem?_append_left hi]
    · rwa [List.getElem?_append_right (by omega), Nat.add_sub_cancel_left]

theorem sectionAt_append_iff {xs ys : List Op} {i n : Nat} {name : String} :
    SectionAt (xs ++ ys) i name n ↔
      SectionAt xs i name n ∨ ∃ k, i = xs.length + k ∧ SectionAt ys k name n := by
  constructor
  · rintro ⟨inverted, raw, h⟩
    rcases getElem?_append_iff.mp h with h | ⟨k, hk, h⟩
    · exact .inl ⟨inverted, raw, h⟩
    · exact .inr ⟨k, hk, inverted, raw, h⟩
  · rintro (⟨inverted, raw, h⟩ | ⟨k, hk, inverted, raw, h⟩)
    · exact ⟨inverted, raw, getElem?_append_iff.mpr (.inl h)⟩
    · exact ⟨inverted, raw, getElem?_append_iff.mpr (.inr ⟨k, hk, h⟩)⟩

theorem SectionAt.lt_length {ops : List Op} {i n : Nat} {name : String}
    (h : SectionAt ops i name n) : i < ops.length := by
  obtain ⟨_, _, h⟩ := h
  exact (List.getElem?_eq_some_iff.mp h).1

theorem EndAt.lt_length {ops : List Op} {j : Nat} {name : String} (h : EndAt ops j name) :
    j < ops.length :=
  (List.getElem?_eq_some_iff.mp h).1

theorem SectionAt.length_eq {ops : List Op} {i n n' : Nat} {name name' : String}
    (h : SectionAt ops i name n) (h' : SectionAt ops i name' n') : n = n' := by
  obtain ⟨_, _, h⟩ := h
  obtain ⟨_, _, h'⟩ := h'
  rw [h] at h'
  cases h'
  rfl

/-- It is enough that each end has a section: nesting leaves no room for a second one. -/
theorem Linked.of_exists {ops : List Op}
    (ended : ∀ {i name n}, SectionAt ops i name n → EndAt ops (i + 1 + n) name)
    (started : ∀ {j name}, EndAt ops j name → ∃ i n, SectionAt ops i name n ∧ i + 1 + n = j)
    (nested : ∀ {i name n i' name' n'}, SectionAt ops i name n → SectionAt ops i' name' n' →
      i < i' → i + 1 + n < i' ∨ i' + 1 + n' < i + 1 + n) : Linked ops := by
  refine ⟨ended, ?_, nested⟩
  intro j name h
  obtain ⟨i, n, hs, hj⟩ := started h
  refine ⟨i, ⟨n, hs, hj⟩, ?_⟩
  rintro i' ⟨n', hs', hj'⟩
  rcases Nat.lt_trichotomy i' i with hlt | heq | hgt
  · have := nested hs' hs hlt
    omega
  · exact heq
  · have := nested hs hs' hgt
    omega

theorem linked_nil : Linked [] := by
  refine .of_exists ?_ ?_ ?_
  · intro i name n h
    exact absurd h.lt_length (by simp)
  · intro j name h
    exact absurd h.lt_length (by simp)
  · intro i name n i' name' n' h
    exact absurd h.lt_length (by simp)

theorem Linked.append {xs ys : List Op} (hx : Linked xs) (hy : Linked ys) :
    Linked (xs ++ ys) := by
  refine .of_exists ?_ ?_ ?_
  · intro i name n h
    rcases sectionAt_append_iff.mp h with hs | ⟨k, rfl, hs⟩
    · exact getElem?_append_iff.mpr (.inl (hx.ended hs))
    · exact getElem?_append_iff.mpr (.inr ⟨k + 1 + n, by omega, hy.ended hs⟩)
  · intro j name h
    rcases getElem?_append_iff.mp h with hend | ⟨k, rfl, hend⟩
    · obtain ⟨i, ⟨n, hs, hj⟩, _⟩ := hx.started hend
      exact ⟨i, n, sectionAt_append_iff.mpr (.inl hs), hj⟩
    · obtain ⟨i, ⟨n, hs, hj⟩, _⟩ := hy.started hend
      exact ⟨xs.length + i, n, sectionAt_append_iff.mpr (.inr ⟨i, rfl, hs⟩), by omega⟩
  · intro i name n i' name' n' h h' hlt
    rcases sectionAt_append_iff.mp h with hs | ⟨k, rfl, hs⟩
    · have hend := (hx.ended hs).lt_length
      rcases sectionAt_append_iff.mp h' with hs' | ⟨k', rfl, hs'⟩
      · exact hx.nested hs hs' hlt
      · omega
    · rcases sectionAt_append_iff.mp h' with hs' | ⟨k', rfl, hs'⟩
      · have := hs'.lt_length
        omega
      · have := hy.nested hs hs' (by omega)
        omega

theorem linked_singleton {op : Op}
    (hopen : ∀ name inverted n raw, op ≠ .openSection name inverted n raw)
    (hclose : ∀ name, op ≠ .closeSection name) : Linked [op] := by
  have none_starts {i n : Nat} {name : String} : ¬ SectionAt [op] i name n := by
    rintro ⟨inverted, raw, h⟩
    obtain ⟨_, h⟩ := List.getElem?_eq_some_iff.mp h
    exact hopen _ _ _ _ (by simpa using h)
  refine .of_exists ?_ ?_ ?_
  · intro i name n h
    exact absurd h none_starts
  · intro j name h
    obtain ⟨_, h⟩ := List.getElem?_eq_some_iff.mp h
    exact absurd (by simpa using h) (hclose name)
  · intro i name n i' name' n' h
    exact absurd h none_starts

theorem Linked.block {ops : List Op} (h : Linked ops) (name : String) (inverted : Bool)
    (raw : String) :
    Linked (.openSection name inverted ops.length raw :: (ops ++ [.closeSection name])) := by
  -- What starts in the whole is the section itself or lies within the body.
  have starts {i n : Nat} {other : String}
      (hs : SectionAt (.openSection name inverted ops.length raw :: (ops ++ [.closeSection name]))
        i other n) :
      (i = 0 ∧ n = ops.length ∧ other = name) ∨ ∃ k, i = k + 1 ∧ SectionAt ops k other n := by
    cases i with
    | zero =>
      obtain ⟨_, _, hs⟩ := hs
      simp only [List.getElem?_cons_zero, Option.some.injEq, openSection.injEq] at hs
      exact .inl ⟨rfl, hs.2.2.1.symm, hs.1.symm⟩
    | succ k =>
      rcases sectionAt_append_iff.mp hs with hs | ⟨m, hm, _, _, hs⟩
      · exact .inr ⟨k, rfl, hs⟩
      · cases m <;> simp at hs
  refine .of_exists ?_ ?_ ?_
  · intro i other n h'
    rcases starts h' with ⟨rfl, rfl, rfl⟩ | ⟨k, rfl, hs⟩
    · simp [EndAt, Nat.add_comm]
    · have hend : EndAt (ops ++ [.closeSection name]) (k + 1 + n) other :=
        getElem?_append_iff.mpr (.inl (h.ended hs))
      rw [show k + 1 + 1 + n = (k + 1 + n) + 1 by omega]
      exact hend
  · intro j other hend
    cases j with
    | zero => cases hend
    | succ j =>
      rcases getElem?_append_iff.mp hend with hend | ⟨m, hm, hend⟩
      · obtain ⟨i, ⟨n, hs, hj⟩, _⟩ := h.started hend
        exact ⟨i + 1, n, sectionAt_append_iff.mpr (.inl hs), by omega⟩
      · cases m with
        | zero =>
          cases hend
          exact ⟨0, ops.length, ⟨inverted, raw, rfl⟩, by omega⟩
        | succ m => cases hend
  · intro i first n i' second n' h₁ h₂ hlt
    rcases starts h₂ with ⟨rfl, _, _⟩ | ⟨k', rfl, hs'⟩
    · omega
    · rcases starts h₁ with ⟨rfl, rfl, rfl⟩ | ⟨k, rfl, hs⟩
      · have := (h.ended hs').lt_length
        omega
      · have := h.nested hs hs' (by omega)
        omega

theorem merged_nil : Merged [] :=
  ⟨fun h => by simp at h, fun h => by simp at h⟩

/-- An operation at the end of others: a literal needs a text and none before it. -/
theorem Merged.concat {ops : List Op} (h : Merged ops) {op : Op}
    (hop : ∀ text, op = literal text →
      text ≠ "" ∧ ∀ last, ops.getLast? ≠ some (literal last)) : Merged (ops ++ [op]) := by
  constructor
  · intro i text hi
    rcases getElem?_append_iff.mp hi with hi | ⟨k, rfl, hk⟩
    · exact h.filled hi
    · obtain ⟨_, hk⟩ := List.getElem?_eq_some_iff.mp hk
      exact (hop text (by simpa using hk)).1
  · intro i text hi next hnext
    rcases getElem?_append_iff.mp hnext with hnext | ⟨k, hk, hnext⟩
    · obtain ⟨hlt, _⟩ := List.getElem?_eq_some_iff.mp hnext
      rw [List.getElem?_append_left (by omega)] at hi
      exact h.apart hi next hnext
    · obtain ⟨hzero, hnext⟩ := List.getElem?_eq_some_iff.mp hnext
      have hk0 : k = 0 := by simpa using hzero
      rw [List.getElem?_append_left (by omega)] at hi
      refine (hop next (by simpa using hnext)).2 text ?_
      rw [List.getLast?_eq_getElem?, ← hi]
      congr 1
      omega

/-- Linking leaves literals alone. -/
theorem link_eq_literal_iff {n : Nat} {raw text : String} {op : Op} :
    op.link n raw = literal text ↔ op = literal text := by
  cases op <;> simp [link]

theorem Merged.modify {ops : List Op} (h : Merged ops) (start n : Nat) (raw : String) :
    Merged (ops.modify start (link n raw)) := by
  have same (i : Nat) (text : String) :
      (ops.modify start (link n raw))[i]? = some (literal text) ↔
        ops[i]? = some (literal text) := by
    rw [List.getElem?_modify]
    split <;> simp [Option.map_eq_some_iff, link_eq_literal_iff]
  constructor
  · intro i text hi
    exact h.filled ((same i text).mp hi)
  · intro i text hi next hnext
    exact h.apart ((same i text).mp hi) next ((same _ next).mp hnext)

theorem getElem?_body {ops : List Op} {i n : Nat} (h : i + 1 + n ≤ ops.length) (k : Nat) :
    (body n (ops.drop (i + 1)))[k]? = if k < n then ops[i + 1 + k]? else none := by
  have hn : n ≤ (ops.drop (i + 1)).length := by
    rw [List.length_drop]
    omega
  simp only [body, body?, hn, if_true, Option.getD_some, List.getElem?_take, List.getElem?_drop]

theorem SectionAt.outer {ops : List Op} {i n : Nat} (h : i + 1 + n ≤ ops.length) {k m : Nat}
    {name : String} (hs : SectionAt (body n (ops.drop (i + 1))) k name m) :
    k < n ∧ SectionAt ops (i + 1 + k) name m := by
  obtain ⟨inverted, raw, hs⟩ := hs
  rw [getElem?_body h] at hs
  split at hs
  next hk => exact ⟨hk, inverted, raw, hs⟩
  next => cases hs

theorem EndAt.outer {ops : List Op} {i n : Nat} (h : i + 1 + n ≤ ops.length) {k : Nat}
    {name : String} (hs : EndAt (body n (ops.drop (i + 1))) k name) :
    k < n ∧ EndAt ops (i + 1 + k) name := by
  rw [EndAt, getElem?_body h] at hs
  split at hs
  next hk => exact ⟨hk, hs⟩
  next => cases hs

/-- From its start on, a section is its opening operation, the body, and the end. -/
theorem Linked.exists_body {ops : List Op} (h : Linked ops) {i n : Nat} {name raw : String}
    {inverted : Bool} (hi : ops[i]? = some (.openSection name inverted n raw)) :
    ∃ body rest, body.length = n ∧
      ops.drop i = .openSection name inverted n raw :: (body ++ .closeSection name :: rest) := by
  obtain ⟨hlt, hend⟩ := List.getElem?_eq_some_iff.mp (h.ended ⟨inverted, raw, hi⟩)
  obtain ⟨hi', hopen⟩ := List.getElem?_eq_some_iff.mp hi
  refine ⟨(ops.drop (i + 1)).take n, ops.drop (i + 1 + n + 1), ?_, ?_⟩
  · rw [List.length_take, List.length_drop]
    omega
  · rw [← hend, ← List.drop_eq_getElem_cons hlt, ← List.drop_drop (i := n), List.take_append_drop,
      ← hopen, ← List.drop_eq_getElem_cons hi']

/-- The body of a section is linked within itself. -/
theorem Linked.body {ops : List Op} (h : Linked ops) {i n : Nat} {name : String}
    (hs : SectionAt ops i name n) : Linked (Op.body n (ops.drop (i + 1))) := by
  have hlen : i + 1 + n ≤ ops.length := Nat.le_of_lt (h.ended hs).lt_length
  refine .of_exists ?_ ?_ ?_
  · intro k inner m hin
    obtain ⟨hk, hout⟩ := hin.outer hlen
    have hm : k + 1 + m < n := by
      have := h.nested hs hout (by omega)
      omega
    have hend := h.ended hout
    rw [EndAt, getElem?_body hlen, if_pos hm, ← hend]
    congr 1
    omega
  · intro k inner hin
    obtain ⟨hk, hout⟩ := hin.outer hlen
    obtain ⟨i', ⟨m, hs', hj⟩, _⟩ := h.started hout
    -- The section of an end inside the body does not start before the body.
    have hi' : i < i' := by
      rcases Nat.lt_trichotomy i' i with hlt | rfl | hgt
      · have := h.nested hs' hs hlt
        omega
      · have := hs.length_eq hs'
        omega
      · exact hgt
    obtain ⟨inverted, raw, hop⟩ := hs'
    refine ⟨i' - (i + 1), m, ⟨inverted, raw, ?_⟩, by omega⟩
    rw [getElem?_body hlen, if_pos (by omega), ← hop]
    congr 1
    omega
  · intro k inner m k' inner' m' hin hin' hlt
    have := h.nested (hin.outer hlen).2 (hin'.outer hlen).2 (by omega)
    omega

theorem Merged.body {ops : List Op} (h : Merged ops) {i n : Nat} (hlen : i + 1 + n ≤ ops.length) :
    Merged (Op.body n (ops.drop (i + 1))) := by
  have outer {k : Nat} {text : String}
      (hk : (Op.body n (ops.drop (i + 1)))[k]? = some (literal text)) :
      ops[i + 1 + k]? = some (literal text) := by
    rw [getElem?_body hlen] at hk
    split at hk
    · exact hk
    · cases hk
  constructor
  · intro k text hk
    exact h.filled (outer hk)
  · intro k text hk next hnext
    exact h.apart (outer hk) next (outer hnext)

theorem WellLinked.lt_length {ops : List Op} (h : WellLinked ops) {i n : Nat} {name : String}
    (hs : SectionAt ops i name n) : i + 1 + n < ops.length :=
  (h.linked.ended hs).lt_length

theorem WellLinked.isSome_body? {ops : List Op} (h : WellLinked ops) {i n : Nat} {name : String}
    (hs : SectionAt ops i name n) : (body? n (ops.drop (i + 1))).isSome := by
  have := h.lt_length hs
  have hn : n ≤ (ops.drop (i + 1)).length := by
    rw [List.length_drop]
    omega
  rw [body?, if_pos hn]
  rfl

theorem WellLinked.body {ops : List Op} (h : WellLinked ops) {i n : Nat} {name : String}
    (hs : SectionAt ops i name n) : WellLinked (Op.body n (ops.drop (i + 1))) :=
  ⟨h.linked.body hs, h.merged.body (Nat.le_of_lt (h.lt_length hs))⟩

theorem Slice.wellLinked {program : Program} (h : WellLinked program.ops) {ops : List Op}
    (slice : Slice program ops) : WellLinked ops := by
  induction slice with
  | whole => exact h
  | body _ starts ih => exact ih.body starts

end Op

mutual

theorem Node.linked_flatten (node : Node) : Op.Linked node.flatten := by
  cases node with
  | text s => exact Op.linked_singleton (by simp) (by simp)
  | variableTag name escaped =>
    cases escaped <;> exact Op.linked_singleton (by simp) (by simp)
  | inclusion name => exact Op.linked_singleton (by simp) (by simp)
  | block name inverted raw children =>
    exact (Node.linked_flattenAll children).block name inverted raw

theorem Node.linked_flattenAll (nodes : List Node) : Op.Linked (Node.flattenAll nodes) := by
  cases nodes with
  | nil => exact Op.linked_nil
  | cons node nodes => exact (Node.linked_flatten node).append (Node.linked_flattenAll nodes)

end

end Mustache
