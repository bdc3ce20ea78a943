namespace Mustache.Text

/-- The text before and after the leftmost occurrence of `needle`, if it occurs. -/
def breakOn (needle : List Char) : List Char → Option (List Char × List Char)
  | [] => if needle = [] then some ([], []) else none
  | c :: cs =>
    if needle.isPrefixOf (c :: cs) then some ([], (c :: cs).drop needle.length)
    else (breakOn needle cs).map fun (before, after) => (c :: before, after)

/-- Nothing is lost: the parts around an occurrence and the needle make up the text. -/
theorem breakOn_eq_some {needle cs before after : List Char}
    (h : breakOn needle cs = some (before, after)) : cs = before ++ needle ++ after := by
  induction cs generalizing before with
  | nil =>
    simp only [breakOn] at h
    split at h <;> simp_all
  | cons c cs ih =>
    simp only [breakOn] at h
    split at h
    next hp =>
      obtain ⟨t, ht⟩ := List.isPrefixOf_iff_prefix.mp hp
      simp only [Option.some.injEq, Prod.mk.injEq] at h
      obtain ⟨rfl, rfl⟩ := h
      simp [← ht]
    next =>
      obtain ⟨⟨b, a⟩, hb, he⟩ := Option.map_eq_some_iff.mp h
      simp only [Prod.mk.injEq] at he
      obtain ⟨rfl, rfl⟩ := he
      simp [ih hb]

theorem length_after_breakOn {needle cs before after : List Char}
    (h : breakOn needle cs = some (before, after)) :
    before.length + needle.length + after.length = cs.length := by
  have := congrArg List.length (breakOn_eq_some h)
  simp only [List.length_append] at this
  omega

end Mustache.Text
