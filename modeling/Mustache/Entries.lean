namespace Mustache.Entries

variable {α : Type}

/-- Adds an entry in the order of keys; one of the same key is replaced. -/
def put (key : String) (value : α) : List (String × α) → List (String × α)
  | [] => [(key, value)]
  | (k, v) :: rest =>
    if key < k then (key, value) :: (k, v) :: rest
    else if key = k then (key, value) :: rest
    else (k, v) :: put key value rest

/-- The entries in the order of their keys. Of several with one key the last counts. -/
def ofPairs (pairs : List (String × α)) : List (String × α) :=
  pairs.foldl (fun entries (key, value) => put key value entries) []

theorem lookup_put_self (key : String) (value : α) (entries : List (String × α)) :
    (put key value entries).lookup key = some value := by
  induction entries with
  | nil => simp [put]
  | cons entry rest ih =>
    obtain ⟨k, v⟩ := entry
    simp only [put]
    split
    · simp
    · split
      · simp
      next hne =>
        have : (key == k) = false := by simpa using hne
        simp [List.lookup_cons, this, ih]

theorem lookup_put_of_ne {key other : String} (h : other ≠ key) (value : α)
    (entries : List (String × α)) :
    (put key value entries).lookup other = entries.lookup other := by
  have hk : (other == key) = false := by simpa using h
  induction entries with
  | nil => simp [put, List.lookup_cons, hk]
  | cons entry rest ih =>
    obtain ⟨k, v⟩ := entry
    simp only [put]
    split
    · simp only [List.lookup_cons, hk]
    · split
      next he => subst he; simp only [List.lookup_cons, hk]
      next => simp only [List.lookup_cons, ih]

theorem isSome_lookup_iff {κ : Type} [BEq κ] [LawfulBEq κ] {key : κ} {entries : List (κ × α)} :
    (entries.lookup key).isSome ↔ key ∈ entries.map (·.1) := by
  simp

theorem mem_of_lookup_eq_some {κ : Type} [BEq κ] [LawfulBEq κ] {key : κ}
    {entries : List (κ × α)} {value : α} (h : entries.lookup key = some value) :
    (key, value) ∈ entries := by
  obtain ⟨before, after, rfl, -⟩ := List.lookup_eq_some_iff.mp h
  simp

/-- Of the entries whose keys satisfy `p`, those with other keys are not found. -/
theorem lookup_filter {κ : Type} [BEq κ] [LawfulBEq κ] (p : κ → Bool) (key : κ)
    (entries : List (κ × α)) :
    (entries.filter fun entry => p entry.1).lookup key =
      if p key then entries.lookup key else none := by
  induction entries with
  | nil => simp
  | cons entry entries ih =>
    obtain ⟨k, v⟩ := entry
    by_cases hk : (key == k) = true
    · obtain rfl := eq_of_beq hk
      cases hp : p key <;> simp [hp, ih]
    · have hk' : (key == k) = false := by simpa using hk
      cases hp : p k <;> simp [hp, List.lookup_cons, hk', ih]

end Mustache.Entries
