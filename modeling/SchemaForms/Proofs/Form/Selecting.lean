import SchemaForms.Form.Selection
import SchemaForms.Proofs.Address.Parts

/-!
Positions among siblings. Rows are numbered through all occurrences of an address, and a position is
counted among the children of each parent on its own. The two agree where the path to the siblings
selects one parent. Where it selects several, a number may be beyond the children of each of them,
and then it stands for nothing.
-/

namespace SchemaForms

/-- An element without attributes and namespaces. -/
def Xml.Element.plain (name text : String) (children : List Xml.Element) : Xml.Element :=
  ⟨⟨none, name⟩, [], [], text, children⟩

namespace Instance

variable (record : Instance)

/-- Several parents are selected, and none of them has as many children as the position says. -/
def Astray (address : Address) : Prop :=
  ∃ first between name number,
    address.segments = first :: between ++ [.element name (some (.position number))] ∧
      (∀ segment ∈ between, segment.isAttribute = false) ∧
      1 < (record.elements ⟨first :: between⟩).length ∧
      ∀ parent ∈ record.elements ⟨first :: between⟩,
        (record.childrenNamed name parent).length < number

/-- The address selects something, or its position is astray. -/
def Selects (address : Address) : Prop := 0 < record.count address ∨ record.Astray address

variable {record}

theorem Selects.ne_nil {address : Address} (h : record.Selects address) :
    address.segments ≠ [] := by
  intro hnil
  rcases h with hcount | ⟨first, between, name, number, hsegments, -⟩
  · have hleaf : address.leaf? = none := by simp [Address.leaf?, hnil]
    simp [count, hleaf, elements, hnil] at hcount
  · simp [hnil] at hsegments

theorem pick_position_eq_nil {elements : List Xml.Element} {number : Nat} (hpos : 1 ≤ number) :
    pick (some (.position number)) elements = [] ↔ elements.length < number := by
  have hlength : (pick (some (.position number)) elements).length =
      min 1 (elements.length - (number - 1)) := by
    simp [pick, List.length_take, List.length_drop]
  rw [← List.length_eq_zero_iff, hlength]
  omega

/-- The last step of a path goes down from everything that the path selects so far. -/
theorem descend_concat {ancestors : List Segment}
    (h : ∀ segment ∈ ancestors, segment.isAttribute = false) (name : PrefixedName)
    (index : Option Index) (parents : List Xml.Element) :
    record.descend (ancestors ++ [.element name index]) parents =
      (record.descend ancestors parents).flatMap fun parent =>
        pick index (record.childrenNamed name parent) := by
  induction ancestors generalizing parents with
  | nil => simp [descend]
  | cons segment rest ih =>
    cases segment with
    | attr own => simp [Segment.isAttribute] at h
    | element own position =>
      simp only [List.cons_append, descend]
      exact ih (fun other hother => h other (List.mem_cons_of_mem _ hother)) _

/-- Below an attribute a path goes no further. -/
theorem descend_attribute {ancestors : List Segment} (leaf : Segment)
    (h : ¬ ∀ segment ∈ ancestors, segment.isAttribute = false) (parents : List Xml.Element) :
    record.descend (ancestors ++ [leaf]) parents = record.descend ancestors parents := by
  induction ancestors generalizing parents with
  | nil => simp at h
  | cons segment rest ih =>
    cases segment with
    | attr own => simp [descend]
    | element own position =>
      simp only [List.cons_append, descend]
      apply ih
      intro hrest
      apply h
      intro other hother
      rcases List.mem_cons.mp hother with rfl | hmem
      · rfl
      · exact hrest other hmem

theorem count_of_segments {address : Address} {first : Segment} {between : List Segment}
    {name : PrefixedName} {index : Option Index}
    (h : address.segments = first :: between ++ [.element name index]) :
    record.count address = if record.namespaces.matchesElement first.name record.root then
      (record.descend (between ++ [.element name index]) [record.root]).length else 0 := by
  have hleaf : address.leaf? = some (.element name index) := by
    rw [Address.leaf?, h, List.getLast?_concat]
  simp only [count, hleaf, elements, h, List.cons_append]
  split <;> rfl

/-- A position that is astray selects nothing. -/
theorem count_of_astray {address : Address} (h : record.Astray address) :
    record.count address = 0 := by
  obtain ⟨first, between, name, number, hsegments, helements, hmany, hfewer⟩ := h
  by_cases hroot : record.namespaces.matchesElement first.name record.root
  · simp only [elements, if_pos hroot] at hfewer
    rw [count_of_segments hsegments, if_pos hroot, descend_concat helements,
      List.length_eq_zero_iff, List.flatMap_eq_nil_iff]
    intro parent hparent
    have hless := hfewer parent hparent
    exact (pick_position_eq_nil (by omega)).mpr hless
  · simp [elements, hroot] at hmany

/-- A position that does not exceed the number of siblings selects one of them, unless there are
several parents with fewer children each. -/
theorem descend_position {ancestors : List Segment}
    (helements : ∀ segment ∈ ancestors, segment.isAttribute = false) (name : PrefixedName)
    {number : Nat} (hpos : 1 ≤ number) {parents : List Xml.Element}
    (hle : number ≤ (record.descend (ancestors ++ [.element name none]) parents).length) :
    0 < (record.descend (ancestors ++ [.element name (some (.position number))]) parents).length ∨
      1 < (record.descend ancestors parents).length ∧
        ∀ parent ∈ record.descend ancestors parents,
          (record.childrenNamed name parent).length < number := by
  rw [descend_concat helements] at hle ⊢
  by_cases hfewer : ∀ parent ∈ record.descend ancestors parents,
      (record.childrenNamed name parent).length < number
  · right
    refine ⟨?_, hfewer⟩
    by_contra hone
    cases hselected : record.descend ancestors parents with
    | nil =>
      simp only [hselected, List.flatMap_nil, List.length_nil] at hle
      omega
    | cons parent others =>
      have hnil : others = [] := by
        apply List.length_eq_zero_iff.mp
        simp only [hselected, List.length_cons] at hone
        omega
      have hless := hfewer parent (by simp [hselected])
      simp only [hselected, hnil, List.flatMap_cons, List.flatMap_nil, List.append_nil, pick] at hle
      omega
  · left
    rw [List.length_pos_iff]
    intro hnil
    apply hfewer
    intro parent hparent
    exact (pick_position_eq_nil hpos).mp (List.flatMap_eq_nil_iff.mp hnil parent hparent)

/-- Each number of a row selects something, unless it is astray. -/
theorem selects_position {siblings : Address} {number : Nat} (hne : siblings.segments ≠ [])
    (helement : siblings.isAttribute = false) (hleaf : siblings.siblingPath = siblings)
    (hpos : 1 ≤ number) (hle : number ≤ record.count siblings) :
    record.Selects (siblings.withIndex (.position number)) := by
  obtain ⟨ancestors, name, hsegments, hitem⟩ :=
    Address.segments_of_item (.position number) hne helement hleaf
  cases ancestors with
  | nil =>
    left
    have hsame : record.count (siblings.withIndex (.position number)) = record.count siblings := by
      rw [List.nil_append] at hitem hsegments
      simp only [count, Address.leaf?, elements, hitem, hsegments]
      rfl
    omega
  | cons first between =>
    rw [count_of_segments hsegments] at hle
    rw [Selects, count_of_segments hitem]
    by_cases hroot : record.namespaces.matchesElement first.name record.root
    · rw [if_pos hroot] at hle ⊢
      by_cases helements : ∀ segment ∈ between, segment.isAttribute = false
      · have hpath : record.elements ⟨first :: between⟩ = record.descend between [record.root] := by
          simp [elements, hroot]
        rcases descend_position helements name hpos hle with hselected | ⟨hmany, hfewer⟩
        · exact Or.inl hselected
        · right
          exact ⟨first, between, name, number, hitem, helements, by rwa [hpath], by rwa [hpath]⟩
      · left
        rw [descend_attribute _ helements] at hle ⊢
        omega
    · rw [if_neg hroot] at hle
      omega

/-- The document element is selected by its name, with any index. -/
theorem count_root {address : Address} {name : PrefixedName} {index : Option Index}
    (haddress : address.segments = [.element name index])
    (hmatches : record.namespaces.matchesElement name record.root = true) :
    record.count address = 1 := by
  simp [count, Address.leaf?, haddress, elements, Segment.name, hmatches, descend]

theorem descend_nil (segments : List Segment) : record.descend segments [] = [] := by
  induction segments with
  | nil => rfl
  | cons segment rest ih =>
    cases segment with
    | attr name => rfl
    | element name index => exact ih

/-- What a path selects is below what its beginning selects. -/
theorem descend_front_ne_nil {front rest : List Segment} {parents : List Xml.Element}
    (h : record.descend (front ++ rest) parents ≠ []) : record.descend front parents ≠ [] := by
  induction front generalizing parents with
  | nil =>
    intro hnil
    have hparents : parents = [] := by simpa [descend] using hnil
    rw [List.nil_append, hparents, descend_nil] at h
    exact h rfl
  | cons segment front ih =>
    cases segment with
    | attr name => simpa [descend] using h
    | element name index =>
      simp only [List.cons_append, descend] at h ⊢
      exact ih h

/-- The step to an attribute goes nowhere. -/
theorem descend_attr (ancestors : List Segment) (name : PrefixedName)
    (parents : List Xml.Element) :
    record.descend (ancestors ++ [.attr name]) parents = record.descend ancestors parents := by
  induction ancestors generalizing parents with
  | nil => rfl
  | cons segment rest ih =>
    cases segment with
    | attr own => rfl
    | element own index => exact ih _

/-- The parent of what is selected is selected. -/
theorem elements_parent_ne_nil {address parent : Address} (hparent : address.parent? = some parent)
    (h : 0 < record.count address) : record.elements parent ≠ [] := by
  obtain ⟨hne, leaf, hsegments⟩ := Address.segments_of_parent? hparent
  have hleaf : address.leaf? = some leaf := by
    rw [Address.leaf?, hsegments, List.getLast?_concat]
  cases leaf with
  | attr name =>
    intro hnil
    simp [count, hleaf, parentElements, hparent, hnil] at h
  | element name index =>
    obtain ⟨first, between, hfirst⟩ := List.exists_cons_of_ne_nil hne
    rw [hfirst, List.cons_append] at hsegments
    simp only [count, hleaf, elements, hsegments] at h
    simp only [elements, hfirst]
    split at h
    · rename_i hroot
      rw [if_pos hroot]
      exact descend_front_ne_nil (List.length_pos_iff.mp h)
    · simp at h

/-- What occurs is an element that is selected, or an attribute of one. -/
theorem elements_ne_nil {address : Address} (h : 0 < record.count address) :
    record.elements address ≠ [] := by
  cases hleaf : address.leaf? with
  | none => simpa [count, hleaf, List.length_pos_iff] using h
  | some leaf =>
    cases leaf with
    | element name index => simpa [count, hleaf, List.length_pos_iff] using h
    | attr name =>
      cases hparent : address.parent? with
      | none => simp [count, hleaf, parentElements, hparent, elements, Address.empty] at h
      | some parent =>
        obtain ⟨hne, leaf, hsegments⟩ := Address.segments_of_parent? hparent
        have hattr : leaf = .attr name := by simpa [Address.leaf?, hsegments] using hleaf
        have hsame : record.elements address = record.elements parent := by
          obtain ⟨first, between, hfirst⟩ := List.exists_cons_of_ne_nil hne
          simp only [elements, hsegments, hfirst, hattr, List.cons_append, descend_attr]
        rw [hsame]
        exact elements_parent_ne_nil hparent h

end Instance

end SchemaForms
