import Mustache.Source.Piece

namespace Mustache

namespace Tag

def opens (t : Tag) : Bool :=
  t.sigil = .sectionOpen || t.sigil = .invertedOpen

def closes (t : Tag) : Bool :=
  t.sigil = .sectionClose

/-- The tags that open or close a section, among others. -/
def nesting (tags : List Tag) : List Tag :=
  tags.filter fun t => t.opens || t.closes

def opened (t : Tag) : OpenSection :=
  ⟨t.name, t.line, t.span⟩

/-- What a tag does to the open sections, innermost first. -/
def follow (sections : List OpenSection) (t : Tag) : Except FaultSite (List OpenSection) :=
  if t.opens then
    if t.name = "" then .error ⟨.emptySectionName, t.line, t.span⟩ else .ok (t.opened :: sections)
  else if t.closes then
    match sections with
    | [] => .error (t.unmatched [])
    | innermost :: outer =>
      if innermost.name = t.name then .ok outer else .error (t.unmatched (innermost :: outer))
  else .ok sections

/-- The sections that are open after some tags, or the site of the first fault among them. -/
def openAfter : List OpenSection → List Tag → Except FaultSite (List OpenSection)
  | sections, [] => .ok sections
  | sections, t :: ts =>
    match t.follow sections with
    | .error site => .error site
    | .ok sections => openAfter sections ts

/-- Opening and closing tags in which every section that is opened is also closed, by a tag of its
name. -/
inductive Balanced : List Tag → Prop where
  | nil : Balanced []
  | wrap {o c : Tag} {inner rest : List Tag} (opens : o.opens) (closes : c.closes)
      (name : c.name = o.name) (inside : Balanced inner) (behind : Balanced rest) :
      Balanced (o :: inner ++ c :: rest)

/-- The tag opens the innermost of the sections that are left open by some tags. -/
def Innermost (o : Tag) (tags : List Tag) : Prop :=
  o.opens ∧ ∃ before inner, nesting tags = before ++ o :: inner ∧ Balanced inner

@[simp] theorem nesting_append (xs ys : List Tag) :
    nesting (xs ++ ys) = nesting xs ++ nesting ys := by
  simp [nesting]

theorem opens_eq_false_of_closes {t : Tag} (h : t.closes) : t.opens = false := by
  have hs : t.sigil = .sectionClose := by simpa [closes] using h
  simp [opens, hs]

theorem Balanced.append {xs ys : List Tag} (hx : Balanced xs) (hy : Balanced ys) :
    Balanced (xs ++ ys) := by
  induction hx with
  | nil => exact hy
  | wrap opens closes name inside _ _ ih =>
    simpa using Balanced.wrap opens closes name inside ih

theorem follow_of_neutral {t : Tag} (ho : t.opens = false) (hc : t.closes = false)
    (sections : List OpenSection) : t.follow sections = .ok sections := by
  simp [follow, ho, hc]

theorem follow_of_opens {t : Tag} (ho : t.opens) (hn : t.name ≠ "")
    (sections : List OpenSection) : t.follow sections = .ok (t.opened :: sections) := by
  simp [follow, ho, hn]

theorem follow_of_closes {o t : Tag} (hc : t.closes) (hn : t.name = o.name)
    (sections : List OpenSection) : t.follow (o.opened :: sections) = .ok sections := by
  simp [follow, opens_eq_false_of_closes hc, hc, hn, opened]

theorem openAfter_append (sections : List OpenSection) (xs ys : List Tag) :
    openAfter sections (xs ++ ys) =
      match openAfter sections xs with
      | .error site => .error site
      | .ok left => openAfter left ys := by
  induction xs generalizing sections with
  | nil => rfl
  | cons t ts ih =>
    simp only [List.cons_append, openAfter]
    split
    · rfl
    · exact ih _

theorem openAfter_nesting (sections : List OpenSection) (tags : List Tag) :
    openAfter sections (nesting tags) = openAfter sections tags := by
  induction tags generalizing sections with
  | nil => rfl
  | cons t ts ih =>
    by_cases h : (t.opens || t.closes) = true
    · simp only [nesting, List.filter_cons, h, if_true, openAfter]
      split
      · rfl
      · exact ih _
    · have hf : t.opens = false ∧ t.closes = false := by simpa using h
      rw [openAfter, follow_of_neutral hf.1 hf.2]
      simpa [nesting, hf.1, hf.2] using ih sections

/-- A balanced word of named sections leaves the open sections as they were. -/
theorem openAfter_of_balanced {tags : List Tag} (balanced : Balanced tags)
    (named : ∀ t ∈ tags, t.opens → t.name ≠ "") (sections : List OpenSection) :
    openAfter sections tags = .ok sections := by
  induction balanced generalizing sections with
  | nil => rfl
  | @wrap o c inner rest opens closes name _ _ ihInner ihRest =>
    have hinner := ihInner (fun t ht => named t (by simp [ht])) (o.opened :: sections)
    have hrest := ihRest (fun t ht => named t (by simp [ht])) sections
    rw [List.cons_append, openAfter, follow_of_opens opens (named o (by simp) opens)]
    simp only [openAfter_append, hinner, openAfter, follow_of_closes closes name, hrest]

theorem named_of_openAfter {sections left : List OpenSection} {tags : List Tag}
    (h : openAfter sections tags = .ok left) : ∀ t ∈ tags, t.opens → t.name ≠ "" := by
  induction tags generalizing sections with
  | nil => simp
  | cons u us ih =>
    simp only [openAfter] at h
    split at h
    · cases h
    next next hu =>
      intro t ht ho
      rcases List.mem_cons.mp ht with rfl | ht
      · intro hn
        simp [follow, ho, hn] at hu
      · exact ih h t ht ho

/-- The opening tags that the open sections come from, with balanced words after each of them. -/
inductive Left : List Tag → List OpenSection → Prop where
  | none {tags : List Tag} (balanced : Balanced tags) : Left tags []
  | some {o : Tag} {before inner : List Tag} {outer : List OpenSection} (opens : o.opens)
      (around : Left before outer) (balanced : Balanced inner) :
      Left (before ++ o :: inner) (o.opened :: outer)

theorem Left.append_balanced {tags more : List Tag} {sections : List OpenSection}
    (h : Left tags sections) (hm : Balanced more) : Left (tags ++ more) sections := by
  cases h with
  | none balanced => exact .none (balanced.append hm)
  | some opens around balanced =>
    simpa using Left.some opens around (balanced.append hm)

/-- One tag more: an opening tag is left open, and a closing tag makes a balanced word of what the
innermost section holds. -/
theorem Left.follow {before : List Tag} {t : Tag} {sections next : List OpenSection}
    (h : Left before sections) (ht : t.follow sections = .ok next) :
    Left (before ++ nesting [t]) next := by
  unfold Tag.follow at ht
  by_cases ho : t.opens = true
  · simp only [ho, if_true] at ht
    split at ht
    · cases ht
    · cases ht
      simpa [nesting, ho] using Left.some ho h .nil
  · by_cases hc : t.closes = true
    · simp only [ho, hc, if_true] at ht
      cases h with
      | none => cases ht
      | @some o outside inner outer opens around balanced =>
        simp only [Bool.false_eq_true, if_false] at ht
        split at ht
        next hn =>
          cases ht
          have closed : Balanced (o :: inner ++ [t]) :=
            .wrap opens hc hn.symm balanced .nil
          simpa [nesting, hc] using around.append_balanced closed
        next => cases ht
    · have hk : nesting [t] = [] := by simp [nesting, ho, hc]
      simp only [ho, hc] at ht
      cases ht
      simpa [hk] using h

theorem left_of_openAfter {before tags : List Tag} {sections left : List OpenSection}
    (h : Left before sections) (ht : openAfter sections tags = .ok left) :
    Left (before ++ nesting tags) left := by
  induction tags generalizing before sections with
  | nil =>
    cases ht
    simpa [nesting] using h
  | cons t ts ih =>
    simp only [openAfter] at ht
    split at ht
    · cases ht
    next next hn =>
      have := ih (h.follow hn) ht
      rwa [List.append_assoc, ← nesting_append] at this

/-- The tags are balanced exactly if following them from the start leaves no section open. -/
theorem balanced_iff_openAfter {tags : List Tag} (named : ∀ t ∈ tags, t.opens → t.name ≠ "") :
    Balanced (nesting tags) ↔ openAfter [] tags = .ok [] := by
  constructor
  · intro balanced
    rw [← openAfter_nesting]
    exact openAfter_of_balanced balanced (fun t ht => named t (List.mem_filter.mp ht).1) []
  · intro h
    have left := left_of_openAfter (Left.none .nil) h
    rw [List.nil_append] at left
    generalize hw : nesting tags = word at left
    cases left with
    | none balanced => exact balanced

theorem openAfter_of_innermost {tags : List Tag} {left : List OpenSection} {o : Tag}
    (h : openAfter [] tags = .ok left) (innermost : Innermost o tags) :
    ∃ outer, left = o.opened :: outer := by
  obtain ⟨opens, before, inner, hw, balanced⟩ := innermost
  have named := named_of_openAfter h
  have hin (t : Tag) (ht : t ∈ before ++ o :: inner) : t.opens → t.name ≠ "" :=
    named t (List.mem_filter.mp (hw ▸ ht)).1
  rw [← openAfter_nesting, hw, openAfter_append] at h
  split at h
  · cases h
  next outer _ =>
    have hinner : openAfter (o.opened :: outer) inner = .ok (o.opened :: outer) :=
      openAfter_of_balanced balanced (fun t ht => hin t (by simp [ht])) _
    simp only [openAfter, follow_of_opens opens (hin o (by simp) opens), hinner] at h
    exact ⟨outer, (Except.ok.inj h).symm⟩

theorem innermost_of_openAfter {tags : List Tag} {s : OpenSection} {outer : List OpenSection}
    (h : openAfter [] tags = .ok (s :: outer)) : ∃ o, Innermost o tags ∧ s = o.opened := by
  have left := left_of_openAfter (Left.none .nil) h
  rw [List.nil_append] at left
  generalize hw : nesting tags = word at left
  cases left with
  | some opens _ balanced => exact ⟨_, ⟨opens, _, _, hw, balanced⟩, rfl⟩

end Tag
end Mustache
