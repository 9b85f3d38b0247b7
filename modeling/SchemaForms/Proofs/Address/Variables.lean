import SchemaForms.Address.Fresh
import SchemaForms.Proofs.Address.Parts

/-!
Variables in addresses. An item has the variables of its siblings and one more at the end. A fresh
variable is none of those in use as long as the numbers after the stem fit a word. Variables that
were made fresh one after another are counted: the number after a stem is below the number of
variables, so it fits whenever the length of the address does.
-/

namespace SchemaForms

namespace Text

theorem digitsValue?_toDigits (number : Nat) :
    digitsValue? (Nat.toDigits 10 number) = some number := by
  have hall : (Nat.toDigits 10 number).all Char.isDigit = true := by
    rw [List.all_eq_true]
    intro c hc
    exact Nat.isDigit_of_mem_toDigits (by omega) (by omega) hc
  have hne : (Nat.toDigits 10 number).isEmpty = false := by
    simp [Nat.toDigits_ne_nil]
  have hvalue : (Nat.toDigits 10 number).foldl
      (fun value c => 10 * value + (c.toNat - '0'.toNat)) 0 = number :=
    Nat.ofDigitChars_toDigits (by omega) (by omega)
  simp only [digitsValue?, hne, hall, hvalue, Bool.not_false, Bool.and_self, ite_true]

theorem unsigned?_toDigits (number : Nat) (h : number ≤ maxWord) :
    unsigned? (Nat.toDigits 10 number) = some number := by
  unfold unsigned?
  split
  · rename_i rest hplus
    have hdigit : '+'.isDigit = true :=
      Nat.isDigit_of_mem_toDigits (b := 10) (n := number) (by omega) (by omega)
        (by rw [hplus]; exact List.mem_cons_self)
    exact absurd hdigit (by decide)
  · simp [digitsValue?_toDigits, h]

theorem all_isDigit_of_digitsValue? {cs : List Char} {number : Nat}
    (h : digitsValue? cs = some number) : ∀ c ∈ cs, c.isDigit = true := by
  unfold digitsValue? at h
  split at h
  · rename_i hdigits
    simpa using (Bool.and_eq_true_iff.mp hdigits).2
  · contradiction

/-- Only digits and a plus sign are read as a count. -/
theorem isDigit_of_unsigned? {cs : List Char} {number : Nat} (h : unsigned? cs = some number)
    {c : Char} (hc : c ∈ cs) : c = '+' ∨ c.isDigit = true := by
  have hvalue := (Option.filter_eq_some_iff.mp h).1
  split at hvalue
  · rcases List.mem_cons.mp hc with hplus | hrest
    · exact Or.inl hplus
    · exact Or.inr (all_isDigit_of_digitsValue? hvalue c hrest)
  · exact Or.inr (all_isDigit_of_digitsValue? hvalue c hc)

theorem unsigned?_le {cs : List Char} {number : Nat} (h : unsigned? cs = some number) :
    number ≤ maxWord := by
  have hle := (Option.filter_eq_some_iff.mp h).2
  simpa using hle

end Text

namespace Bindings

theorem lookup_erase (bindings : Bindings) (name var : String) :
    (bindings.erase name).lookup var = if var = name then none else bindings.lookup var := by
  induction bindings with
  | nil => simp [erase]
  | cons entry others ih =>
    obtain ⟨held, number⟩ := entry
    simp only [erase, List.filter_cons] at ih ⊢
    by_cases hheld : held = name
    · subst hheld
      simp only [ne_eq, not_true_eq_false, decide_false, Bool.false_eq_true, ite_false, ih]
      by_cases hvar : var = held
      · simp [hvar]
      · have hne : (var == held) = false := by simpa using hvar
        simp [hvar, List.lookup_cons, hne]
    · simp only [ne_eq, hheld, not_false_eq_true, decide_true, ite_true]
      by_cases hvar : var = held
      · subst hvar
        simp [hheld]
      · have hne : (var == held) = false := by simpa using hvar
        simp only [List.lookup_cons, hne]
        exact ih

theorem lookup_insert (bindings : Bindings) (name var : String) (position : Nat) :
    (bindings.insert name position).lookup var =
      if var = name then some position else bindings.lookup var := by
  by_cases hvar : var = name
  · simp [insert, hvar]
  · have hne : (var == name) = false := by simpa using hvar
    simp [insert, hvar, List.lookup_cons, hne, lookup_erase]

end Bindings

namespace Address

theorem vars_length_le (address : Address) : address.vars.length ≤ address.depth :=
  List.length_filterMap_le ..

theorem vars_item (siblings : Address) (var : String) (hne : siblings.segments ≠ [])
    (helement : siblings.isAttribute = false) :
    (siblings.siblingPath.withIndex (.var var)).vars = siblings.siblingPath.vars ++ [var] := by
  rcases segments_eq siblings with hnil | ⟨ancestors, leaf, h⟩
  · exact absurd hnil hne
  · cases leaf with
    | attr name => simp [isAttribute, leaf?, h, Segment.isAttribute] at helement
    | element name index =>
      simp [vars, withIndex, siblingPath, h, setLeafIndex_append, Segment.withIndex,
        Segment.index?, Index.varName?]

theorem vars_siblingPath_subset (address : Address) :
    address.siblingPath.vars ⊆ address.vars := by
  rcases segments_eq address with h | ⟨ancestors, leaf, h⟩
  · simp [vars, siblingPath, h, setLeafIndex]
  · cases leaf <;>
      simp [vars, siblingPath, h, setLeafIndex_append, Segment.withIndex, Segment.index?]

theorem vars_subset_of_parent? {address parent : Address} (h : address.parent? = some parent) :
    parent.vars ⊆ address.vars := by
  obtain ⟨-, leaf, heq⟩ := segments_of_parent? h
  simp [vars, heq]

/-- Where the leaf has no variable, the parent has all of them. -/
theorem vars_eq_of_parent? {address parent : Address} (h : address.parent? = some parent)
    (hleaf : address.siblingPath.vars = address.vars) : parent.vars = address.vars := by
  obtain ⟨-, leaf, heq⟩ := segments_of_parent? h
  rw [← hleaf]
  cases leaf <;>
    simp [vars, siblingPath, heq, setLeafIndex_append, Segment.withIndex, Segment.index?]

/-- Substitution of all variables leaves none. -/
theorem vars_substitute (address : Address) (bindings : Bindings)
    (h : ∀ var ∈ address.vars, (bindings.lookup var).isSome) :
    (address.substitute bindings).vars = [] := by
  simp only [vars, substitute, List.filterMap_map, List.filterMap_eq_nil_iff] at h ⊢
  intro segment hsegment
  cases segment with
  | attr name => rfl
  | element name index =>
    cases index with
    | none => rfl
    | some index =>
      cases index with
      | position number => rfl
      | var name =>
        have hbound := h name (List.mem_filterMap.mpr ⟨_, hsegment, rfl⟩)
        obtain ⟨number, hnumber⟩ := Option.isSome_iff_exists.mp hbound
        simp [Segment.substitute, Segment.index?, Index.substitute, hnumber, Index.varName?]

theorem substitute_congr (address : Address) (left right : Bindings)
    (h : ∀ var ∈ address.vars, left.lookup var = right.lookup var) :
    address.substitute left = address.substitute right := by
  simp only [substitute, Address.mk.injEq]
  apply List.map_congr_left
  intro segment hsegment
  cases segment with
  | attr name => rfl
  | element name index =>
    cases index with
    | none => rfl
    | some index =>
      cases index with
      | position number => rfl
      | var name =>
        have hsame := h name (List.mem_filterMap.mpr ⟨_, hsegment, rfl⟩)
        simp [Segment.substitute, Index.substitute, hsame]

section Stem

/-- A stem is a leaf followed by Index, so it does not end like a number. -/
theorem getLast?_variableStem (leaf : PrefixedName) :
    (variableStem leaf).toList.getLast? = some 'x' := by
  simp [variableStem]

theorem suffixNumber?_le {stem name : String} {number : Nat}
    (h : suffixNumber? stem name = some number) : number ≤ Text.maxWord := by
  unfold suffixNumber? at h
  split at h
  · contradiction
  · obtain rfl := Option.some.inj h
    exact Nat.zero_le _
  · exact Text.unsigned?_le h

/-- A number other than zero is written after the stem. -/
theorem exists_digits_of_suffixNumber? {stem name : String} {number : Nat}
    (h : suffixNumber? stem name = some number) (hpos : 0 < number) :
    ∃ digits, name.toList = stem.toList ++ digits ∧ Text.unsigned? digits = some number := by
  unfold suffixNumber? at h
  split at h
  · contradiction
  · obtain rfl := Option.some.inj h
    contradiction
  · rename_i digits _ hstarts
    exact ⟨digits, (List.isPrefixOf?_eq_some_iff_append_eq.mp hstarts).symm, h⟩

theorem suffixNumber?_stem (stem : String) : suffixNumber? stem stem = some 0 := by
  have hstarts : stem.toList.isPrefixOf? stem.toList = some [] :=
    List.isPrefixOf?_eq_some_iff_append_eq.mpr (List.append_nil _)
  simp [suffixNumber?, hstarts]

theorem suffixNumber?_numbered (stem : String) (number : Nat) (h : number ≤ Text.maxWord) :
    suffixNumber? stem (stem ++ toString number) = some number := by
  have hdigits : (toString number).toList = Nat.toDigits 10 number := by
    rw [Nat.toString_eq_ofList_toDigits, String.toList_ofList]
  have hstarts : stem.toList.isPrefixOf? (stem ++ toString number).toList =
      some (Nat.toDigits 10 number) :=
    List.isPrefixOf?_eq_some_iff_append_eq.mpr (by rw [String.toList_append, hdigits])
  unfold suffixNumber?
  rw [hstarts]
  split
  · contradiction
  · rename_i hnil
    exact absurd (Option.some.inj hnil) Nat.toDigits_ne_nil
  · rename_i digits hnonempty hsome
    rw [← Option.some.inj hsome]
    exact Text.unsigned?_toDigits number h

/-- What follows a stem in a numbered variable is the number and nothing else: a shorter stem would
leave a letter in the number, and a longer one would end in a digit. -/
theorem suffix_eq_of_stem {leaf other : PrefixedName} {digits suffix : List Char}
    (hdigits : ∀ c ∈ digits, c.isDigit = true)
    (hsuffix : ∀ c ∈ suffix, c = '+' ∨ c.isDigit = true)
    (h : (variableStem other).toList ++ suffix = (variableStem leaf).toList ++ digits) :
    suffix = digits := by
  rcases List.append_eq_append_iff.mp h with ⟨middle, hleaf, hrest⟩ | ⟨middle, hother, hrest⟩
  · rcases List.eq_nil_or_concat' middle with rfl | ⟨front, last, rfl⟩
    · simpa using hrest
    · have hlast := getLast?_variableStem leaf
      rw [hleaf, ← List.append_assoc, List.getLast?_concat] at hlast
      obtain rfl := Option.some.inj hlast
      have hmem : 'x' ∈ suffix := by simp [hrest]
      have hbad := hsuffix 'x' hmem
      exact absurd hbad (by decide)
  · rcases List.eq_nil_or_concat' middle with rfl | ⟨front, last, rfl⟩
    · simpa using hrest.symm
    · have hlast := getLast?_variableStem other
      rw [hother, ← List.append_assoc, List.getLast?_concat] at hlast
      obtain rfl := Option.some.inj hlast
      have hmem : 'x' ∈ digits := by simp [hrest]
      have hbad := hdigits 'x' hmem
      exact absurd hbad (by decide)

/-- The stem alone counts as zero, whatever the stem that it is read by. -/
theorem eq_zero_of_suffixNumber?_stem {leaf other : PrefixedName} {number : Nat}
    (h : suffixNumber? (variableStem other) (variableStem leaf) = some number) : number = 0 := by
  unfold suffixNumber? at h
  split at h
  · contradiction
  · exact (Option.some.inj h).symm
  · rename_i suffix hne hstarts
    have happend := List.isPrefixOf?_eq_some_iff_append_eq.mp hstarts
    have hends : (variableStem other).toList ++ suffix = (variableStem leaf).toList ++ [] := by
      simpa using happend
    have hnil := suffix_eq_of_stem (by simp) (fun c hc => Text.isDigit_of_unsigned? h hc) hends
    exact absurd hnil hne

/-- A numbered variable has the same number under every stem that it can be read by. -/
theorem eq_of_suffixNumber?_numbered {leaf other : PrefixedName} {number read : Nat}
    (hnumber : number ≤ Text.maxWord)
    (h : suffixNumber? (variableStem other) (variableStem leaf ++ toString number) = some read) :
    read = number := by
  have hdigits : (toString number).toList = Nat.toDigits 10 number := by
    rw [Nat.toString_eq_ofList_toDigits, String.toList_ofList]
  have hall : ∀ c ∈ Nat.toDigits 10 number, c.isDigit = true := fun c hc =>
    Nat.isDigit_of_mem_toDigits (by omega) (by omega) hc
  unfold suffixNumber? at h
  split at h
  · contradiction
  · rename_i hstarts
    have happend := List.isPrefixOf?_eq_some_iff_append_eq.mp hstarts
    rw [String.toList_append, hdigits] at happend
    have hnil := suffix_eq_of_stem hall (by simp) happend
    exact absurd hnil.symm Nat.toDigits_ne_nil
  · rename_i suffix hne hstarts
    have happend := List.isPrefixOf?_eq_some_iff_append_eq.mp hstarts
    rw [String.toList_append, hdigits] at happend
    have hsame := suffix_eq_of_stem hall (fun c hc => Text.isDigit_of_unsigned? h hc) happend
    rw [hsame, Text.unsigned?_toDigits number hnumber] at h
    exact (Option.some.inj h).symm

end Stem

/-- Below a leaf, either no variable has the stem of the leaf and the stem is fresh, or the number
after the largest one in use is appended. -/
theorem freshVariable_cases (address : Address) (leaf : PrefixedName)
    (hleaf : address.leafName? = some leaf) :
    (address.freshVariable = variableStem leaf ∧
      ∀ var ∈ address.vars, suffixNumber? (variableStem leaf) var = none) ∨
    ∃ largest, address.freshVariable = variableStem leaf ++ toString (largest + 1) ∧
      (∃ var ∈ address.vars, suffixNumber? (variableStem leaf) var = some largest) ∧
      ∀ var ∈ address.vars, ∀ number,
        suffixNumber? (variableStem leaf) var = some number → number ≤ largest := by
  cases hmax : (address.vars.filterMap (suffixNumber? (variableStem leaf))).max? with
  | none =>
    left
    refine ⟨by simp [freshVariable, hleaf, hmax], ?_⟩
    intro var hvar
    have hnil := List.max?_eq_none_iff.mp hmax
    exact List.filterMap_eq_nil_iff.mp hnil var hvar
  | some largest =>
    right
    obtain ⟨hmem, hle⟩ := List.max?_eq_some_iff.mp hmax
    refine ⟨largest, by simp [freshVariable, hleaf, hmax], List.mem_filterMap.mp hmem, ?_⟩
    intro var hvar number hnumber
    exact hle number (List.mem_filterMap.mpr ⟨var, hvar, hnumber⟩)

/-- No variable of the address has a number, whatever the stem, that nothing can be added to. -/
def NumbersFit (address : Address) : Prop :=
  ∀ var ∈ address.vars, ∀ leaf : PrefixedName,
    suffixNumber? (variableStem leaf) var ≠ some Text.maxWord

/-- The variable that is made has the stem of the leaf, alone or with a number that fits a word. It
is none of those in use if one can be added to every number after that stem. -/
theorem freshVariable_fresh (address : Address) (leaf : PrefixedName)
    (hleaf : address.leafName? = some leaf)
    (hroom : ∀ var ∈ address.vars, suffixNumber? (variableStem leaf) var ≠ some Text.maxWord) :
    address.freshVariable ∉ address.vars ∧ (address.freshVariable = variableStem leaf ∨
      ∃ number, 0 < number ∧ number ≤ Text.maxWord ∧
        address.freshVariable = variableStem leaf ++ toString number) := by
  rcases freshVariable_cases address leaf hleaf with ⟨heq, hnone⟩ | ⟨largest, heq, hused, hle⟩
  · refine ⟨fun hmem => ?_, Or.inl heq⟩
    have hstem := hnone _ hmem
    rw [heq, suffixNumber?_stem] at hstem
    contradiction
  · obtain ⟨var, hvar, hlargest⟩ := hused
    have hbound : largest + 1 ≤ Text.maxWord := by
      have hword := suffixNumber?_le hlargest
      have hne : largest ≠ Text.maxWord := by
        intro hmax
        exact hroom var hvar (hmax ▸ hlargest)
      omega
    refine ⟨fun hmem => ?_, Or.inr ⟨largest + 1, by omega, hbound, heq⟩⟩
    have hnext := suffixNumber?_numbered (variableStem leaf) (largest + 1) hbound
    have hlarger := hle _ hmem (largest + 1) (by rw [heq]; exact hnext)
    omega

/-- Only the root has no leaf, and it has no variables. -/
theorem vars_of_leafName?_eq_none {address : Address} (h : address.leafName? = none) :
    address.vars = [] := by
  have hnil : address.segments = [] := by
    simpa [leafName?, leaf?] using h
  simp [vars, hnil]

theorem freshVariable_not_mem_vars (address : Address) (hfit : address.NumbersFit) :
    address.freshVariable ∉ address.vars := by
  cases hleaf : address.leafName? with
  | none => simp [vars_of_leafName?_eq_none hleaf]
  | some leaf =>
    exact (freshVariable_fresh address leaf hleaf fun var hvar => hfit var hvar leaf).1

/-- Whatever the names and variables of an address are, and also if its own leaf has a variable: if
none of them is the stem of the leaf followed by the largest number of a word, then the variable
that is made differs from all of them. -/
theorem freshVariable_differs (address : Address)
    (hends : ∀ leaf ∈ address.leafName?, ∀ var ∈ address.vars, ∀ digits,
      var.toList = (variableStem leaf).toList ++ digits →
        Text.unsigned? digits ≠ some Text.maxWord) :
    (∀ var ∈ address.vars, address.freshVariable ≠ var) ∧
      ∀ leaf ∈ address.leafName?, address.freshVariable = variableStem leaf ∨
        ∃ number, 0 < number ∧ number ≤ Text.maxWord ∧
          address.freshVariable = variableStem leaf ++ toString number := by
  cases hleaf : address.leafName? with
  | none => simp [vars_of_leafName?_eq_none hleaf]
  | some leaf =>
    have hroom : ∀ var ∈ address.vars,
        suffixNumber? (variableStem leaf) var ≠ some Text.maxWord := by
      intro var hvar hnumber
      obtain ⟨digits, hdigits, hmax⟩ := exists_digits_of_suffixNumber? hnumber (by decide)
      exact hends leaf hleaf var hvar digits hdigits hmax
    obtain ⟨hfresh, hform⟩ := freshVariable_fresh address leaf hleaf hroom
    refine ⟨fun var hvar heq => hfresh (heq ▸ hvar), fun other hother => ?_⟩
    obtain rfl := Option.some.inj hother
    exact hform

/-- Two names that flatten alike, a number with zeros before it, a variable that ends in no number
and one on the leaf itself. -/
theorem freshVariable_differs_flattenedAlike :
    let address : Address := ⟨[.element ⟨some "a", "bc"⟩ (some (.var "abcIndex")),
      .element ⟨some "ab", "c"⟩ (some (.var "abcIndex007")),
      .element ⟨none, "abc"⟩ (some (.var "abcIndexes")),
      .element ⟨some "a", "bc"⟩ (some (.var "abcIndex2"))]⟩
    (∀ var ∈ address.vars, address.freshVariable ≠ var) ∧ address.freshVariable = "abcIndex8" := by
  intro address
  have hnumbers : ∀ var ∈ address.vars,
      Text.unsigned? (var.toList.drop "abcIndex".toList.length) ≠ some Text.maxWord := by
    decide
  refine ⟨(freshVariable_differs address ?_).1, by decide⟩
  intro leaf hleaf var hvar digits hdigits
  obtain rfl := Option.some.inj hleaf
  have hdrop : var.toList.drop "abcIndex".toList.length = digits := by
    rw [hdigits]
    exact List.drop_left
  rw [← hdrop]
  exact hnumbers var hvar

/-- The numbers after stems are below a base and the number of variables. -/
def CountedFrom (base : Nat) (address : Address) : Prop :=
  ∀ var ∈ address.vars, ∀ leaf number,
    suffixNumber? (variableStem leaf) var = some number → number < base + address.vars.length

/-- Variables that were made fresh one after another. -/
def Counted (address : Address) : Prop := address.CountedFrom 0

theorem CountedFrom.numbersFit {base : Nat} {address : Address} (h : address.CountedFrom base)
    (hdepth : base + address.depth ≤ Text.maxWord) : address.NumbersFit := by
  intro var hvar leaf hmax
  have hlt := h var hvar leaf _ hmax
  have hle := vars_length_le address
  omega

theorem countedFrom_of_vars_eq {base : Nat} {left right : Address} (h : left.vars = right.vars)
    (hcounted : left.CountedFrom base) : right.CountedFrom base := by
  simpa only [CountedFrom, h] using hcounted

theorem counted_of_vars_nil {address : Address} (h : address.vars = []) : address.Counted := by
  simp [Counted, CountedFrom, h]

/-- A fresh variable is numbered at most by the base and the number of variables before it, so an
item under it is counted again. -/
theorem CountedFrom.item {base : Nat} {siblings : Address} (hcounted : siblings.CountedFrom base)
    (hdepth : base + siblings.depth ≤ Text.maxWord) (hsiblings : siblings.siblingPath = siblings)
    (hne : siblings.segments ≠ []) (helement : siblings.isAttribute = false) :
    (siblings.withIndex (.var siblings.freshVariable)).CountedFrom base := by
  have hvars := vars_item siblings siblings.freshVariable hne helement
  rw [hsiblings] at hvars
  have hlength := vars_length_le siblings
  have hfresh : ∀ leaf number,
      suffixNumber? (variableStem leaf) siblings.freshVariable = some number →
        number ≤ base + siblings.vars.length := by
    intro leaf number hnumber
    obtain ⟨own, hown⟩ : ∃ own, siblings.leafName? = some own := by
      rcases segments_eq siblings with hnil | ⟨ancestors, segment, h⟩
      · exact absurd hnil hne
      · exact ⟨segment.name, by simp [leafName?, leaf?, h]⟩
    rcases freshVariable_cases siblings own hown with ⟨heq, -⟩ | ⟨largest, heq, hused, -⟩
    · rw [heq] at hnumber
      rw [eq_zero_of_suffixNumber?_stem hnumber]
      exact Nat.zero_le _
    · obtain ⟨var, hvar, hlargest⟩ := hused
      have hlt := hcounted var hvar own largest hlargest
      rw [heq] at hnumber
      rw [eq_of_suffixNumber?_numbered (by omega) hnumber]
      exact hlt
  intro var hvar leaf number hnumber
  rw [hvars] at hvar ⊢
  rw [List.length_append, List.length_singleton]
  rcases List.mem_append.mp hvar with hold | hnew
  · have hlt := hcounted var hold leaf number hnumber
    omega
  · rw [List.mem_singleton.mp hnew] at hnumber
    have hle := hfresh leaf number hnumber
    omega

end Address

end SchemaForms
