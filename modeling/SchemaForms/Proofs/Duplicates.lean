import SchemaForms.Proofs.Schema.Tables
import Mathlib.Data.List.Induction

/-!
What is listed more than once. Of equal names the first one counts. A list of values under keys that
is filled one entry after the other keeps, for each key, the place of its first entry and the value
of its last one.
-/

namespace SchemaForms

section Duplicates

variable {α : Type} [BEq α] [LawfulBEq α] {left left' right : List α}

theorem nodup_eraseDups (as : List α) : as.eraseDups.Nodup := by
  cases as with
  | nil => simp
  | cons a others =>
    rw [List.eraseDups_cons, List.nodup_cons]
    exact ⟨by simp [List.mem_eraseDups], nodup_eraseDups _⟩
termination_by as.length
decreasing_by exact Nat.lt_succ_of_le (List.length_filter_le _ _)

theorem eraseDups_of_nodup (h : left.Nodup) : left.eraseDups = left := by
  induction left with
  | nil => rfl
  | cons a others ih =>
    rw [List.nodup_cons] at h
    have hothers : others.filter (fun b => !b == a) = others := by
      refine List.filter_eq_self.mpr fun b hb => ?_
      simpa using ne_of_mem_of_not_mem hb h.1
    rw [List.eraseDups_cons, hothers, ih h.2]

theorem eraseDups_append_of_subset (h : right ⊆ left) :
    (left ++ right).eraseDups = left.eraseDups := by
  have hnothing : right.removeAll left = [] := by
    rw [List.removeAll, List.filter_eq_nil_iff]
    intro a ha
    simpa using h ha
  rw [List.eraseDups_append, hnothing, List.eraseDups_nil, List.append_nil]

/-- A new name comes last. -/
theorem eraseDups_concat_of_not_mem {a : α} (h : a ∉ left) :
    (left ++ [a]).eraseDups = left.eraseDups ++ [a] := by
  have hnew : [a].removeAll left = [a] := by
    rw [List.removeAll, List.filter_eq_self]
    intro b hb
    obtain rfl := List.mem_singleton.mp hb
    simpa using h
  rw [List.eraseDups_append, hnew, eraseDups_of_nodup (List.nodup_singleton a)]

/-- What is met before counts only up to duplicates. -/
theorem eraseDups_append_congr (h : left.eraseDups = left'.eraseDups) (right : List α) :
    (left ++ right).eraseDups = (left' ++ right).eraseDups := by
  have hsame : ∀ a, a ∈ left ↔ a ∈ left' := by
    intro a
    rw [← List.mem_eraseDups, h, List.mem_eraseDups]
  have hrest : right.removeAll left = right.removeAll left' := by
    refine List.filter_congr fun a _ => ?_
    simp [hsame a]
  rw [List.eraseDups_append, List.eraseDups_append, h, hrest]

theorem eraseDups_eraseDups (as : List α) : as.eraseDups.eraseDups = as.eraseDups :=
  eraseDups_of_nodup (nodup_eraseDups as)

end Duplicates

namespace Keyed

variable {α β : Type} [DecidableEq α]

/-- Puts entries one after the other. -/
def putAll (entries held : List (α × β)) : List (α × β) :=
  entries.foldl (fun held entry => put entry.1 entry.2 held) held

theorem putAll_concat (entries : List (α × β)) (entry : α × β) (held : List (α × β)) :
    putAll (entries ++ [entry]) held = put entry.1 entry.2 (putAll entries held) := by
  rw [putAll, List.foldl_concat, putAll]

/-- The keys stay in the order in which they were first put. -/
theorem keys_putAll (entries : List (α × β)) :
    keys (putAll entries []) = (keys entries).eraseDups := by
  induction entries using List.reverseRecOn with
  | nil => rfl
  | append_singleton entries entry ih =>
    have hkeys : keys (entries ++ [entry]) = keys entries ++ [entry.1] := List.map_append
    rw [putAll_concat, hkeys]
    by_cases hmem : entry.1 ∈ keys entries
    · have hheld : entry.1 ∈ keys (putAll entries []) := by rwa [ih, List.mem_eraseDups]
      rw [keys, keys_put_of_mem _ hheld, ← keys, ih,
        eraseDups_append_of_subset (by simpa using hmem)]
    · have hheld : entry.1 ∉ keys (putAll entries []) := by rwa [ih, List.mem_eraseDups]
      rw [keys, keys_put_of_not_mem _ hheld, ← keys, ih, eraseDups_concat_of_not_mem hmem]

/-- The last entry under a key is found. -/
theorem lookup_putAll (key : α) (entries held : List (α × β)) :
    (putAll entries held).lookup key = (entries.reverse.lookup key).or (held.lookup key) := by
  induction entries using List.reverseRecOn with
  | nil => rfl
  | append_singleton entries entry ih =>
    rw [putAll_concat, lookup_put, List.reverse_concat, ih]
    by_cases hkey : key = entry.1
    · rw [if_pos hkey, hkey, List.lookup_cons_self, Option.some_or]
    · have hne : (key == entry.1) = false := by simpa using hkey
      rw [if_neg hkey, List.lookup_cons, hne]

end Keyed

end SchemaForms
