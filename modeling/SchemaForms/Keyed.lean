/-!
Lists of values under keys, in order of first insertion. Putting a value under a key that is
already there keeps the place and replaces the value.
-/

namespace SchemaForms.Keyed

def put {α β : Type} [DecidableEq α] (key : α) (value : β) : List (α × β) → List (α × β)
  | [] => [(key, value)]
  | entry :: others =>
    if entry.1 = key then (key, value) :: others else entry :: put key value others

theorem lookup_put {α β : Type} [DecidableEq α] (key other : α) (value : β)
    (entries : List (α × β)) :
    (put key value entries).lookup other =
      if other = key then some value else entries.lookup other := by
  induction entries with
  | nil =>
    by_cases h : other = key
    · simp [put, h]
    · have hne : (other == key) = false := by simpa using h
      simp [put, h, List.lookup_cons, hne]
  | cons entry others ih =>
    obtain ⟨held, old⟩ := entry
    by_cases hheld : held = key
    · subst hheld
      by_cases h : other = held
      · simp [put, h]
      · have hne : (other == held) = false := by simpa using h
        simp [put, h, List.lookup_cons, hne]
    · by_cases h : other = held
      · subst h
        simp [put, hheld]
      · have hne : (other == held) = false := by simpa using h
        simp [put, hheld, List.lookup_cons, hne, ih]

theorem keys_put_of_mem {α β : Type} [DecidableEq α] {key : α} (value : β)
    {entries : List (α × β)} (h : key ∈ entries.map Prod.fst) :
    (put key value entries).map Prod.fst = entries.map Prod.fst := by
  induction entries with
  | nil => simp at h
  | cons entry others ih =>
    by_cases hentry : entry.1 = key
    · simp [put, hentry]
    · simp only [List.map_cons, List.mem_cons] at h
      rcases h with h | h
      · exact absurd h.symm hentry
      · simp [put, hentry, ih h]

theorem keys_put_of_not_mem {α β : Type} [DecidableEq α] {key : α} (value : β)
    {entries : List (α × β)} (h : key ∉ entries.map Prod.fst) :
    (put key value entries).map Prod.fst = entries.map Prod.fst ++ [key] := by
  induction entries with
  | nil => simp [put]
  | cons entry others ih =>
    simp only [List.map_cons, List.mem_cons, not_or] at h
    simp [put, Ne.symm h.1, ih h.2]

end SchemaForms.Keyed
