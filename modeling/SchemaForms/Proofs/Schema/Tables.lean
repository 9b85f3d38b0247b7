import SchemaForms.Keyed
import Mathlib.Data.List.Nodup
import Mathlib.Data.List.Perm.Basic
import Mathlib.Data.Option.Basic
import Mathlib.Tactic.Common

/-!
Lists of values under keys, side by side. Two of them are alike when what is found under a key is
related, in whatever order the keys were inserted. Entries under different keys may be put in either
order.
-/

namespace SchemaForms

section Rel

variable {α β : Type} {R S : α → α → Prop} {left right : Option α}

theorem rel_mono (h : Option.Rel R left right) (hweaker : ∀ a b, R a b → S a b) :
    Option.Rel S left right := by
  cases h with
  | some hrelated => exact .some (hweaker _ _ hrelated)
  | none => exact .none

theorem isSome_eq_of_rel (h : Option.Rel R left right) : left.isSome = right.isSome := by
  cases h <;> rfl

theorem map_eq_of_rel (h : Option.Rel R left right) {f : α → β} (hf : ∀ a b, R a b → f a = f b) :
    left.map f = right.map f := by
  cases h with
  | some hrelated => exact congrArg some (hf _ _ hrelated)
  | none => rfl

theorem any_eq_of_rel (h : Option.Rel R left right) {p q : α → Bool}
    (hp : ∀ a b, R a b → p a = q b) : left.any p = right.any q := by
  cases h with
  | some hrelated => exact hp _ _ hrelated
  | none => rfl

theorem bind_eq_of_rel (h : Option.Rel R left right) {f g : α → Option β}
    (hf : ∀ a b, R a b → f a = g b) : left.bind f = right.bind g := by
  cases h with
  | some hrelated => exact hf _ _ hrelated
  | none => rw [Option.bind_none, Option.bind_none]

end Rel

namespace Keyed

variable {α β : Type} [DecidableEq α]

/-- Puts an entry, if there is one. -/
def put? (entry : Option (α × β)) (entries : List (α × β)) : List (α × β) :=
  match entry with
  | none => entries
  | some (key, value) => put key value entries

def keys (entries : List (α × β)) : List α := entries.map Prod.fst

theorem nodup_keys_put {key : α} {value : β} {entries : List (α × β)} (h : (keys entries).Nodup) :
    (keys (put key value entries)).Nodup := by
  by_cases hmem : key ∈ keys entries
  · rwa [keys, keys_put_of_mem value hmem]
  · rw [keys, keys_put_of_not_mem value hmem]
    exact List.nodup_append.mpr ⟨h, List.nodup_singleton key, by
      rintro held hheld _ hkey rfl
      exact hmem (List.mem_singleton.mp hkey ▸ hheld)⟩

theorem nodup_keys_put? {entry : Option (α × β)} {entries : List (α × β)}
    (h : (keys entries).Nodup) : (keys (put? entry entries)).Nodup := by
  cases entry with
  | none => exact h
  | some entry => exact nodup_keys_put h

theorem mem_keys {key : α} {entries : List (α × β)} :
    key ∈ keys entries ↔ (entries.lookup key).isSome := by
  induction entries with
  | nil => simp [keys]
  | cons entry others ih =>
    by_cases h : key = entry.1
    · simp [keys, h]
    · have hne : (key == entry.1) = false := by simpa using h
      rw [List.lookup_cons, hne, ← ih]
      simp [keys, h]

/-- Where no key is listed twice, every entry is found. -/
theorem lookup_eq_some_iff_mem {key : α} {value : β} {entries : List (α × β)}
    (h : (keys entries).Nodup) : entries.lookup key = some value ↔ (key, value) ∈ entries := by
  constructor
  · intro hlookup
    obtain ⟨before, after, rfl, -⟩ := List.lookup_eq_some_iff.mp hlookup
    simp
  · intro hmem
    obtain ⟨before, after, rfl⟩ := List.append_of_mem hmem
    refine List.lookup_eq_some_iff.mpr ⟨before, after, rfl, ?_⟩
    intro entry hentry
    rw [keys, List.map_append, List.map_cons] at h
    have hne : entry.1 ≠ key := by
      intro heq
      exact (List.nodup_append.mp h).2.2 entry.1 (List.mem_map_of_mem hentry) key
        List.mem_cons_self heq
    simpa using hne.symm

/-- Without repeated keys, the entries are what is found under the keys. -/
theorem map_eq_of_nodup {γ : Type} {entries : List (α × β)} (h : (keys entries).Nodup)
    (f : β → γ) :
    entries.map (fun entry => some (f entry.2)) =
      (keys entries).map fun key => (entries.lookup key).map f := by
  induction entries with
  | nil => rfl
  | cons entry others ih =>
    obtain ⟨hnew, hothers⟩ := List.nodup_cons.mp h
    rw [List.map_cons, keys, List.map_cons, List.map_cons, ih hothers]
    refine congrArg₂ _ (by rw [List.lookup_cons_self, Option.map_some]) ?_
    refine List.map_congr_left fun key hkey => ?_
    have hne : (key == entry.1) = false := by
      refine beq_false_of_ne ?_
      rintro rfl
      exact hnew hkey
    rw [List.lookup_cons, hne]

/-- Under each key there are related values, or nothing in both. -/
structure Alike (R : β → β → Prop) (left right : List (α × β)) : Prop where
  lookup : ∀ key, Option.Rel R (left.lookup key) (right.lookup key)
  left_nodup : (keys left).Nodup
  right_nodup : (keys right).Nodup

variable {R S : β → β → Prop} {left right : List (α × β)}

theorem Alike.mono (h : Alike R left right) (hweaker : ∀ a b, R a b → S a b) :
    Alike S left right :=
  ⟨fun key => rel_mono (h.lookup key) hweaker, h.left_nodup, h.right_nodup⟩

theorem Alike.refl {entries : List (α × β)} (hnodup : (keys entries).Nodup)
    (h : ∀ entry ∈ entries, R entry.2 entry.2) : Alike R entries entries := by
  refine ⟨fun key => ?_, hnodup, hnodup⟩
  cases hfound : entries.lookup key with
  | none => exact .none
  | some value =>
    obtain ⟨before, after, rfl, -⟩ := List.lookup_eq_some_iff.mp hfound
    exact .some (h (key, value) (by simp))

/-- Entries with one key and related values. -/
def Entry (R : β → β → Prop) (left right : α × β) : Prop := left.1 = right.1 ∧ R left.2 right.2

omit [DecidableEq α] in
theorem Entry.exists_mem {entry entry' : Option (α × β)} (h : Option.Rel (Entry R) entry entry')
    {held : α × β} (hheld : held ∈ entry) : ∃ held' ∈ entry', Entry R held held' := by
  cases h with
  | none => exact nomatch hheld
  | some hrelated =>
    obtain rfl := Option.some.inj hheld
    exact ⟨_, rfl, hrelated⟩

omit [DecidableEq α] in
theorem Entry.forall_ne {entry entry' : Option (α × β)} (h : Option.Rel (Entry R) entry entry')
    {key : α} (hne : ∀ held ∈ entry, held.1 ≠ key) : ∀ held ∈ entry', held.1 ≠ key := by
  cases h with
  | none => exact fun _ hheld => nomatch hheld
  | some hrelated =>
    rintro _ ⟨⟩
    exact hrelated.1 ▸ hne _ rfl

theorem Alike.put? (h : Alike R left right) {entry entry' : Option (α × β)}
    (hentry : Option.Rel (Entry R) entry entry') :
    Alike R (put? entry left) (put? entry' right) := by
  refine ⟨fun key => ?_, nodup_keys_put? h.left_nodup, nodup_keys_put? h.right_nodup⟩
  cases hentry with
  | none => exact h.lookup key
  | @some entry entry' hrelated =>
    obtain ⟨held, value⟩ := entry
    obtain ⟨_, value'⟩ := entry'
    obtain ⟨rfl, hvalue⟩ := hrelated
    simp only [Keyed.put?, lookup_put]
    split
    · exact .some hvalue
    · exact h.lookup key

/-- Entries under different keys may be put the other way round. -/
theorem Alike.put?_swapped (h : Alike R left right) {first first' second second' : Option (α × β)}
    (hfirst : Option.Rel (Entry R) first first') (hsecond : Option.Rel (Entry R) second second')
    (hne : ∀ entry ∈ first, ∀ other ∈ second, entry.1 ≠ other.1) :
    Alike R (Keyed.put? second (Keyed.put? first left))
      (Keyed.put? first' (Keyed.put? second' right)) := by
  refine ⟨fun key => ?_, nodup_keys_put? (nodup_keys_put? h.left_nodup),
    nodup_keys_put? (nodup_keys_put? h.right_nodup)⟩
  cases hfirst with
  | none => exact (h.put? hsecond).lookup key
  | @some entry entry' hrelated =>
    cases hsecond with
    | none => exact (h.put? (.some hrelated)).lookup key
    | @some other other' hothers =>
      have hkeys := hne entry rfl other rfl
      obtain ⟨held, value⟩ := entry
      obtain ⟨_, value'⟩ := entry'
      obtain ⟨rfl, hvalue⟩ := hrelated
      obtain ⟨held', value₂⟩ := other
      obtain ⟨_, value₂'⟩ := other'
      obtain ⟨rfl, hvalue₂⟩ := hothers
      simp only [Keyed.put?, lookup_put]
      by_cases hkey : key = held
      · subst hkey
        rw [if_neg hkeys, if_pos rfl, if_pos rfl]
        exact .some hvalue
      · rw [if_neg hkey, if_neg hkey]
        split
        · exact .some hvalue₂
        · exact h.lookup key

theorem Alike.keys_perm (h : Alike R left right) : (keys left).Perm (keys right) := by
  refine (List.perm_ext_iff_of_nodup h.left_nodup h.right_nodup).mpr fun key => ?_
  rw [mem_keys, mem_keys, isSome_eq_of_rel (h.lookup key)]

theorem Alike.length_eq (h : Alike R left right) : left.length = right.length := by
  have hlength := h.keys_perm.length_eq
  rwa [keys, keys, List.length_map, List.length_map] at hlength

/-- What related values have in common occurs in both as often. -/
theorem Alike.map_perm {γ : Type} (h : Alike R left right) {f : β → γ}
    (hf : ∀ a b, R a b → f a = f b) :
    (left.map fun entry => f entry.2).Perm (right.map fun entry => f entry.2) := by
  have hlookup : ∀ key, (left.lookup key).map f = (right.lookup key).map f :=
    fun key => map_eq_of_rel (h.lookup key) hf
  have hperm := h.keys_perm.map fun key => (left.lookup key).map f
  rw [← map_eq_of_nodup h.left_nodup, funext hlookup, ← map_eq_of_nodup h.right_nodup] at hperm
  have hsome := hperm.filterMap id
  rwa [List.filterMap_map, List.filterMap_map, Function.id_comp, List.filterMap_eq_map'] at hsome

end Keyed

end SchemaForms
