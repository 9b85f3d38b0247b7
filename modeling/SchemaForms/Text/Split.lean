import SchemaForms.Text.Blank

/-!
Cutting a text at separators. `pieces` cuts at every separator and keeps empty pieces, so there is
one piece more than there are separators. `cutFirst` and `cutLast` cut once, at the first or at
the last occurrence, and answer `none` where there is none.
-/

namespace SchemaForms.Text

def pieces (isSeparator : Char → Bool) : List Char → List (List Char)
  | [] => [[]]
  | c :: cs =>
    match pieces isSeparator cs with
    | [] => [[c]]
    | piece :: rest => if isSeparator c then [] :: piece :: rest else (c :: piece) :: rest

theorem pieces_ne_nil (isSeparator : Char → Bool) (cs : List Char) :
    pieces isSeparator cs ≠ [] := by
  cases cs with
  | nil => simp [pieces]
  | cons c cs =>
    simp only [pieces]
    split
    · simp
    · split <;> simp

def cutFirst (separator : Char) : List Char → Option (List Char × List Char)
  | [] => none
  | c :: cs =>
    if c = separator then some ([], cs)
    else (cutFirst separator cs).map fun (before, after) => (c :: before, after)

def cutLast (separator : Char) : List Char → Option (List Char × List Char)
  | [] => none
  | c :: cs =>
    match cutLast separator cs with
    | some (before, after) => some (c :: before, after)
    | none => if c = separator then some ([], cs) else none

theorem cutFirst_eq {separator : Char} {cs before after : List Char}
    (h : cutFirst separator cs = some (before, after)) :
    cs = before ++ separator :: after ∧ separator ∉ before := by
  induction cs generalizing before after with
  | nil => simp [cutFirst] at h
  | cons c cs ih =>
    simp only [cutFirst] at h
    split at h
    · simp only [Option.some.injEq, Prod.mk.injEq] at h
      obtain ⟨rfl, rfl⟩ := h
      simp_all
    · simp only [Option.map_eq_some_iff, Prod.mk.injEq, Prod.exists] at h
      obtain ⟨b, a, hcut, rfl, rfl⟩ := h
      obtain ⟨rfl, hmem⟩ := ih hcut
      simp only [List.cons_append, List.mem_cons, not_or, true_and]
      exact ⟨fun heq => by simp_all, hmem⟩

/-- The words of a list value: maximal runs of characters that are not ASCII blanks. -/
def words (s : String) : List String :=
  ((pieces isAsciiBlank s.toList).filter (!·.isEmpty)).map String.ofList

end SchemaForms.Text
