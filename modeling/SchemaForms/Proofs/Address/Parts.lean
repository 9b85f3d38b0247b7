import SchemaForms.Address.Basic
import Mathlib.Data.List.Basic
import Mathlib.Tactic.Common

/-!
Addresses taken apart. An address is empty or has a leaf, and what is said of a child, of an
attribute, of the path that siblings share and of an item follows from what is done to the leaf.
The address in the schema forgets indices, so all of these have the schema address that one
expects, whatever positions are put for variables.
-/

namespace SchemaForms

namespace Segment

@[simp] theorem withoutIndex_withIndex (index : Option Index) (segment : Segment) :
    (segment.withIndex index).withoutIndex = segment.withoutIndex := by
  cases segment <;> rfl

@[simp] theorem withoutIndex_substitute (bindings : Bindings) (segment : Segment) :
    (segment.substitute bindings).withoutIndex = segment.withoutIndex := by
  cases segment <;> rfl

@[simp] theorem isAttribute_substitute (bindings : Bindings) (segment : Segment) :
    (segment.substitute bindings).isAttribute = segment.isAttribute := by
  cases segment <;> rfl

end Segment

namespace Address

theorem segments_eq (address : Address) : address.segments = [] ∨
    ∃ ancestors leaf, address.segments = ancestors ++ [leaf] :=
  List.eq_nil_or_concat' address.segments

theorem setLeafIndex_append (index : Option Index) (ancestors : List Segment) (leaf : Segment) :
    setLeafIndex index (ancestors ++ [leaf]) = ancestors ++ [leaf.withIndex index] := by
  induction ancestors with
  | nil => rfl
  | cons first rest ih =>
    cases rest with
    | nil => rfl
    | cons second rest => simpa [setLeafIndex] using ih

theorem setLeafIndex_length (index : Option Index) (segments : List Segment) :
    (setLeafIndex index segments).length = segments.length := by
  rcases List.eq_nil_or_concat' segments with rfl | ⟨ancestors, leaf, rfl⟩
  · rfl
  · simp [setLeafIndex_append]

theorem dropLast_setLeafIndex (index : Option Index) (segments : List Segment) :
    (setLeafIndex index segments).dropLast = segments.dropLast := by
  rcases List.eq_nil_or_concat' segments with rfl | ⟨ancestors, leaf, rfl⟩
  · rfl
  · simp [setLeafIndex_append]

theorem setLeafIndex_withoutIndex (index : Option Index) (segments : List Segment) :
    (setLeafIndex index segments).map Segment.withoutIndex =
      segments.map Segment.withoutIndex := by
  rcases List.eq_nil_or_concat' segments with rfl | ⟨ancestors, leaf, rfl⟩
  · rfl
  · simp [setLeafIndex_append]

section Child

variable (address : Address) (name : PrefixedName)

@[simp] theorem vars_child : (address.child name).vars = address.vars := by
  simp [vars, child, Segment.index?]

@[simp] theorem vars_attr : (address.attr name).vars = address.vars := by
  simp [vars, attr, Segment.index?]

@[simp] theorem siblingPath_child : (address.child name).siblingPath = address.child name := by
  simp [siblingPath, child, setLeafIndex_append, Segment.withIndex]

@[simp] theorem siblingPath_attr : (address.attr name).siblingPath = address.attr name := by
  simp [siblingPath, attr, setLeafIndex_append, Segment.withIndex]

@[simp] theorem leaf?_child : (address.child name).leaf? = some (.element name none) := by
  simp [leaf?, child]

@[simp] theorem leaf?_attr : (address.attr name).leaf? = some (.attr name) := by
  simp [leaf?, attr]

@[simp] theorem isAttribute_child : (address.child name).isAttribute = false := by
  simp [isAttribute, Segment.isAttribute]

@[simp] theorem isAttribute_attr : (address.attr name).isAttribute = true := by
  simp [isAttribute, Segment.isAttribute]

@[simp] theorem depth_child : (address.child name).depth = address.depth + 1 := by
  simp [depth, child]

@[simp] theorem depth_attr : (address.attr name).depth = address.depth + 1 := by
  simp [depth, attr]

@[simp] theorem schemaAddress_child :
    (address.child name).schemaAddress = address.schemaAddress.child name := by
  simp [schemaAddress, child, Segment.withoutIndex, Segment.withIndex]

@[simp] theorem schemaAddress_attr :
    (address.attr name).schemaAddress = address.schemaAddress.attr name := by
  simp [schemaAddress, attr, Segment.withoutIndex, Segment.withIndex]

theorem parent?_child (h : address.segments ≠ []) :
    (address.child name).parent? = some address := by
  have hlength : 0 < address.segments.length := List.length_pos_iff.mpr h
  simp [parent?, isRoot, child, Nat.not_le.mpr hlength]

theorem parent?_attr (h : address.segments ≠ []) : (address.attr name).parent? = some address := by
  have hlength : 0 < address.segments.length := List.length_pos_iff.mpr h
  simp [parent?, isRoot, attr, Nat.not_le.mpr hlength]

end Child

/-- Below elements, an address that is no attribute's is all elements. -/
theorem forall_isAttribute_of_leaf {address : Address}
    (habove : ∀ segment ∈ address.segments.dropLast, segment.isAttribute = false)
    (hleaf : address.isAttribute = false) :
    ∀ segment ∈ address.segments, segment.isAttribute = false := by
  rcases segments_eq address with hnil | ⟨ancestors, leaf, hsegments⟩
  · simp [hnil]
  · rw [hsegments, List.dropLast_concat] at habove
    have hown : leaf.isAttribute = false := by simpa [isAttribute, leaf?, hsegments] using hleaf
    intro segment hsegment
    rw [hsegments] at hsegment
    rcases List.mem_append.mp hsegment with hancestor | hlast
    · exact habove segment hancestor
    · exact List.mem_singleton.mp hlast ▸ hown

/-- A parent is not empty, and only its leaf is missing. -/
theorem segments_of_parent? {address parent : Address} (h : address.parent? = some parent) :
    parent.segments ≠ [] ∧ ∃ leaf, address.segments = parent.segments ++ [leaf] := by
  unfold parent? at h
  split at h
  · contradiction
  · rename_i hroot
    simp only [isRoot, decide_eq_true_eq, Nat.not_le] at hroot
    obtain rfl := Option.some.inj h
    constructor
    · intro hnil
      have hlength := congrArg List.length hnil
      simp only [List.length_dropLast, List.length_nil] at hlength
      omega
    · rcases segments_eq address with hnil | ⟨ancestors, leaf, heq⟩
      · simp [hnil] at hroot
      · exact ⟨leaf, by simp [heq]⟩

theorem schemaAddress_of_parent? {address parent : Address} (h : address.parent? = some parent) :
    address.schemaAddress.parent? = some parent.schemaAddress := by
  obtain ⟨hne, leaf, heq⟩ := segments_of_parent? h
  have hlength : 0 < parent.segments.length := List.length_pos_iff.mpr hne
  simp [parent?, isRoot, schemaAddress, heq, Nat.not_le.mpr hlength]

theorem parent?_substitute {address parent : Address} (bindings : Bindings)
    (h : address.parent? = some parent) :
    (address.substitute bindings).parent? = some (parent.substitute bindings) := by
  obtain ⟨hne, leaf, heq⟩ := segments_of_parent? h
  have hlength : 0 < parent.segments.length := List.length_pos_iff.mpr hne
  simp [parent?, isRoot, substitute, heq, Nat.not_le.mpr hlength]

theorem exists_parent {address : Address} (h : 2 ≤ address.depth) :
    ∃ parent, address.parent? = some parent := by
  have hroot : ¬ address.segments.length ≤ 1 := Nat.not_le.mpr h
  simp [parent?, isRoot, hroot]

theorem parent?_substitute_eq_none (bindings : Bindings) {address : Address} :
    (address.substitute bindings).parent? = none ↔ address.parent? = none := by
  simp [parent?, isRoot, substitute]

/-- An index at the leaf does not change the parent. -/
@[simp] theorem parent?_withIndex (address : Address) (index : Index) :
    (address.withIndex index).parent? = address.parent? := by
  simp [parent?, isRoot, withIndex, setLeafIndex_length, dropLast_setLeafIndex]

@[simp] theorem parent?_siblingPath (address : Address) :
    address.siblingPath.parent? = address.parent? := by
  simp [parent?, isRoot, siblingPath, setLeafIndex_length, dropLast_setLeafIndex]

/-- Siblings that are elements share a path whose leaf has no index. -/
theorem segments_of_siblingPath {address : Address} (hne : address.segments ≠ [])
    (helement : address.isAttribute = false) (h : address.siblingPath = address) :
    ∃ ancestors name, address.segments = ancestors ++ [.element name none] := by
  rcases segments_eq address with hnil | ⟨ancestors, leaf, hsegments⟩
  · exact absurd hnil hne
  · cases leaf with
    | attr name => simp [isAttribute, leaf?, hsegments, Segment.isAttribute] at helement
    | element name index =>
      have hsame := congrArg segments h
      simp only [siblingPath, hsegments, setLeafIndex_append, Segment.withIndex] at hsame
      exact ⟨ancestors, name, by rw [hsegments, hsame]⟩

/-- An item has its index at the leaf of the path that it shares with its siblings. -/
theorem segments_of_item {siblings : Address} (index : Index) (hne : siblings.segments ≠ [])
    (helement : siblings.isAttribute = false) (h : siblings.siblingPath = siblings) :
    ∃ ancestors name, siblings.segments = ancestors ++ [.element name none] ∧
      (siblings.withIndex index).segments = ancestors ++ [.element name (some index)] := by
  obtain ⟨ancestors, name, hsegments⟩ := segments_of_siblingPath hne helement h
  refine ⟨ancestors, name, hsegments, ?_⟩
  rw [withIndex, hsegments, setLeafIndex_append]
  rfl

theorem substitute_withIndex (address : Address) (index : Index) (bindings : Bindings) :
    (address.withIndex index).substitute bindings =
      (address.substitute bindings).withIndex (index.substitute bindings) := by
  rcases segments_eq address with h | ⟨ancestors, leaf, h⟩
  · simp [withIndex, substitute, h, setLeafIndex]
  · cases leaf <;>
      simp [withIndex, substitute, h, setLeafIndex_append, Segment.withIndex, Segment.substitute]

section Leaf

variable (address : Address)

@[simp] theorem depth_siblingPath : address.siblingPath.depth = address.depth :=
  setLeafIndex_length none address.segments

@[simp] theorem depth_withIndex (index : Index) : (address.withIndex index).depth = address.depth :=
  setLeafIndex_length (some index) address.segments

@[simp] theorem siblingPath_withIndex (index : Index) :
    (address.withIndex index).siblingPath = address.siblingPath := by
  rcases segments_eq address with h | ⟨ancestors, leaf, h⟩
  · simp [withIndex, siblingPath, h, setLeafIndex]
  · cases leaf <;> simp [withIndex, siblingPath, h, setLeafIndex_append, Segment.withIndex]

@[simp] theorem siblingPath_siblingPath :
    address.siblingPath.siblingPath = address.siblingPath := by
  rcases segments_eq address with h | ⟨ancestors, leaf, h⟩
  · simp [siblingPath, h, setLeafIndex]
  · cases leaf <;> simp [siblingPath, h, setLeafIndex_append, Segment.withIndex]

@[simp] theorem isAttribute_siblingPath :
    address.siblingPath.isAttribute = address.isAttribute := by
  rcases segments_eq address with h | ⟨ancestors, leaf, h⟩
  · simp [isAttribute, leaf?, siblingPath, h, setLeafIndex]
  · cases leaf <;> simp [isAttribute, leaf?, siblingPath, h, setLeafIndex_append] <;> rfl

@[simp] theorem schemaAddress_siblingPath :
    address.siblingPath.schemaAddress = address.schemaAddress := by
  simp [schemaAddress, siblingPath, setLeafIndex_withoutIndex]

@[simp] theorem schemaAddress_withIndex (index : Index) :
    (address.withIndex index).schemaAddress = address.schemaAddress := by
  simp [schemaAddress, withIndex, setLeafIndex_withoutIndex]

@[simp] theorem schemaAddress_substitute (bindings : Bindings) :
    (address.substitute bindings).schemaAddress = address.schemaAddress := by
  simp [schemaAddress, substitute]

@[simp] theorem siblingPath_substitute (bindings : Bindings) :
    (address.substitute bindings).siblingPath = address.siblingPath.substitute bindings := by
  rcases segments_eq address with h | ⟨ancestors, leaf, h⟩
  · simp [siblingPath, substitute, h, setLeafIndex]
  · cases leaf <;>
      simp [siblingPath, substitute, h, setLeafIndex_append, Segment.withIndex, Segment.substitute]

@[simp] theorem isAttribute_substitute (bindings : Bindings) :
    (address.substitute bindings).isAttribute = address.isAttribute := by
  rcases segments_eq address with h | ⟨ancestors, leaf, h⟩
  · simp [isAttribute, leaf?, substitute, h]
  · simp [isAttribute, leaf?, substitute, h]

@[simp] theorem depth_schemaAddress : address.schemaAddress.depth = address.depth := by
  simp [depth, schemaAddress]

@[simp] theorem isAttribute_schemaAddress :
    address.schemaAddress.isAttribute = address.isAttribute := by
  rcases segments_eq address with h | ⟨ancestors, leaf, h⟩
  · simp [isAttribute, leaf?, schemaAddress, h]
  · cases leaf <;> simp [isAttribute, leaf?, schemaAddress, h] <;> rfl

end Leaf

end Address

end SchemaForms
