import SchemaForms.Proofs.Address.Patterns
import SchemaForms.Proofs.Form.Selecting

/-!
What the places of an address select. An element can be selected at a place by taking its own
position wherever a variable asks for one; where there is no variable, the siblings of the elements
on the way are selected with them. A path that leads to another one selects something whenever the
other one does.
-/

namespace SchemaForms

namespace Instance

variable {record : Instance}

/-- What is selected below several parents is what is selected below each. -/
theorem descend_eq_flatMap (segments : List Segment) (parents : List Xml.Element) :
    record.descend segments parents =
      parents.flatMap fun parent => record.descend segments [parent] := by
  induction segments generalizing parents with
  | nil => simp [descend]
  | cons segment rest ih =>
    cases segment with
    | attr name => simp [descend]
    | element name index =>
      simp only [descend]
      rw [ih, List.flatMap_assoc]
      congr 1
      funext parent
      rw [List.flatMap_singleton, ih]

theorem mem_descend_cons {name : PrefixedName} {index : Option Index} {rest : List Segment}
    {parent element : Xml.Element} :
    element ∈ record.descend (.element name index :: rest) [parent] ↔
      ∃ child ∈ pick index (record.childrenNamed name parent),
        element ∈ record.descend rest [child] := by
  simp only [descend, List.flatMap_singleton]
  rw [descend_eq_flatMap, List.mem_flatMap]

theorem pick_subset (index : Option Index) (elements : List Xml.Element) :
    pick index elements ⊆ elements := by
  unfold pick
  split
  · exact fun element h => List.mem_of_mem_drop (List.mem_of_mem_take h)
  · exact List.Subset.refl _

theorem descend_ne_nil_of_leadsTo {path others : List Segment}
    (h : Address.pathLeadsTo path others = true) {parents wider : List Xml.Element}
    (hsubset : parents ⊆ wider) (hselects : record.descend others parents ≠ []) :
    record.descend path wider ≠ [] := by
  induction path generalizing others parents wider with
  | nil =>
    intro hnil
    obtain rfl : wider = [] := hnil
    rw [List.subset_nil.mp hsubset, descend_nil] at hselects
    exact hselects rfl
  | cons segment path ih =>
    cases others with
    | nil => simp [Address.pathLeadsTo] at h
    | cons other others =>
      obtain ⟨hsegment, hrest⟩ := Bool.and_eq_true_iff.mp h
      obtain ⟨hattribute, hsame⟩ := Segment.leadsTo_iff.mp hsegment
      cases other with
      | attr name =>
        have hsegment : segment = .attr name := hsame.elim id id
        simp [hsegment, Segment.isAttribute] at hattribute
      | element name index =>
        have hsegment : segment = .element name index ∨ segment = .element name none := hsame
        simp only [descend] at hselects
        rcases hsegment with rfl | rfl
        · refine ih hrest (fun child hchild => ?_) hselects
          obtain ⟨parent, hparent, hpicked⟩ := List.mem_flatMap.mp hchild
          exact List.mem_flatMap.mpr ⟨parent, hsubset hparent, hpicked⟩
        · refine ih hrest (fun child hchild => ?_) hselects
          obtain ⟨parent, hparent, hpicked⟩ := List.mem_flatMap.mp hchild
          exact List.mem_flatMap.mpr ⟨parent, hsubset hparent, pick_subset _ _ hpicked⟩

/-- A path that leads to something that is selected selects something. -/
theorem elements_ne_nil_of_leadsTo {address other : Address} (h : address.leadsTo other = true)
    (hselects : record.elements other ≠ []) : record.elements address ≠ [] := by
  obtain ⟨path⟩ := address
  obtain ⟨others⟩ := other
  simp only [Address.leadsTo, Bool.and_eq_true] at h
  cases path with
  | nil => simp at h
  | cons segment path =>
    cases others with
    | nil => simp [Address.pathLeadsTo] at h
    | cons other others =>
      obtain ⟨hsegment, hrest⟩ := Bool.and_eq_true_iff.mp h.2
      simp only [elements, Segment.name_of_leadsTo hsegment] at hselects ⊢
      split at hselects
      · rename_i hroot
        rw [if_pos hroot]
        exact descend_ne_nil_of_leadsTo hrest (List.Subset.refl _) hselects
      · contradiction

theorem count_eq_length {address : Address} (h : address.isAttribute = false) :
    record.count address = (record.elements address).length := by
  unfold count
  split
  · rename_i name hleaf
    simp [Address.isAttribute, hleaf, Segment.isAttribute] at h
  · rfl

theorem count_pos_of_leadsTo {address other : Address} (h : address.leadsTo other = true)
    (hselects : record.elements other ≠ []) : 0 < record.count address := by
  have helement := Address.isAttribute_eq_false (Address.isAttribute_of_leadsTo h)
  rw [count_eq_length helement, List.length_pos_iff]
  exact elements_ne_nil_of_leadsTo h hselects

/-- A position that selects something is not beyond the number of siblings. -/
theorem le_count_of_position {siblings : Address}
    (hpath : ∀ segment ∈ siblings.segments, segment.isAttribute = false)
    (hleaf : siblings.siblingPath = siblings) (hbelow : 2 ≤ siblings.depth) {number : Nat}
    (hpos : 1 ≤ number) (hselects : record.elements (siblings.withIndex (.position number)) ≠ []) :
    number ≤ record.count siblings := by
  have hne : siblings.segments ≠ [] := by
    intro hnil
    simp [Address.depth, hnil] at hbelow
  have helement := Address.isAttribute_eq_false hpath
  obtain ⟨ancestors, name, hsegments, hitem⟩ :=
    Address.segments_of_item (.position number) hne helement hleaf
  obtain ⟨first, between, rfl⟩ : ∃ first between, ancestors = first :: between := by
    apply List.exists_cons_of_ne_nil
    rintro rfl
    simp [Address.depth, hsegments] at hbelow
  have hbetween : ∀ segment ∈ between, segment.isAttribute = false := by
    intro segment hsegment
    apply hpath
    simp [hsegments, hsegment]
  rw [count_of_segments hsegments]
  simp only [elements, hitem, List.cons_append] at hselects
  split at hselects
  · rename_i hroot
    rw [if_pos hroot, descend_concat hbetween]
    rw [descend_concat hbetween] at hselects
    obtain ⟨element, hselected⟩ := List.exists_mem_of_ne_nil _ hselects
    obtain ⟨parent, hparent, hpicked⟩ := List.mem_flatMap.mp hselected
    have hmany : number ≤ (record.childrenNamed name parent).length := by
      by_contra hfewer
      rw [(pick_position_eq_nil hpos).mpr (by omega)] at hpicked
      contradiction
    have hsublist := List.sublist_flatten_of_mem (List.mem_map_of_mem
      (f := fun parent => pick none (record.childrenNamed name parent)) hparent)
    exact Nat.le_trans hmany hsublist.length_le
  · contradiction

theorem descend_withoutIndex {segments : List Segment}
    (h : ∀ segment ∈ segments, segment.HasNoPosition) (parents : List Xml.Element) :
    record.descend (segments.map Segment.withoutIndex) parents =
      record.descend segments parents := by
  induction segments generalizing parents with
  | nil => rfl
  | cons segment rest ih =>
    obtain ⟨hsegment, hrest⟩ := List.forall_mem_cons.mp h
    cases segment with
    | attr name => rfl
    | element name index =>
      have hall : ∀ elements, pick index elements = elements := by
        intro elements
        cases index with
        | none => rfl
        | some index =>
          cases index with
          | position number => exact absurd rfl (hsegment number)
          | var name => rfl
      simp only [List.map_cons, Segment.withoutIndex, Segment.withIndex, descend, hall]
      exact ih hrest _

/-- An address without positions selects what it selects in the schema, whatever its root says. -/
theorem elements_schemaAddress {address : Address}
    (h : ∀ segment ∈ address.segments.tail, segment.HasNoPosition) :
    record.elements address.schemaAddress = record.elements address := by
  obtain ⟨segments⟩ := address
  cases segments with
  | nil => rfl
  | cons first rest =>
    have hname : first.withoutIndex.name = first.name := by
      cases first <;> rfl
    have hrest : ∀ segment ∈ rest, segment.HasNoPosition := h
    simp only [elements, Address.schemaAddress, List.map_cons, hname, descend_withoutIndex hrest]

/-- The value at the address of an element is the text of what is selected first. -/
theorem value?_eq_some_iff {address : Address} (hne : address.segments ≠ [])
    (helement : address.isAttribute = false) {text : String} :
    record.value? address = some text ↔ text ≠ "" ∧
      ∃ first, (record.elements address).head? = some first ∧ Text.trim first.text = text := by
  obtain ⟨leaf, hleaf⟩ : ∃ leaf, address.leaf? = some leaf := by
    simpa [Address.leaf?, ← Option.isSome_iff_exists] using hne
  cases leaf with
  | attr name => simp [Address.isAttribute, hleaf, Segment.isAttribute] at helement
  | element name index =>
    simp only [value?, hleaf, Option.filter_eq_some_iff, Option.map_eq_some_iff, ne_eq,
      decide_eq_true_eq]
    exact and_comm

/-- Where the path has no index, an element is the only one of its name below its parent. -/
def SingleBelow (record : Instance) : List Segment → Xml.Element → Prop
  | .element name none :: rest, parent =>
    (record.childrenNamed name parent).length ≤ 1 ∧
      ∀ child ∈ record.childrenNamed name parent, SingleBelow record rest child
  | .element name (some _) :: rest, parent =>
    ∀ child ∈ record.childrenNamed name parent, SingleBelow record rest child
  | _, _ => True

def SingleAlong (record : Instance) (address : Address) : Prop :=
  record.SingleBelow address.segments.tail record.root

/-- Wherever the address selects the element, it selects one with another text first. -/
def Shadowed (record : Instance) (address : Address) (element : Xml.Element) : Prop :=
  ∀ place : Address, place.IsPlaceOf address → element ∈ record.elements place →
    ∀ first, (record.elements place).head? = some first →
      Text.trim first.text ≠ Text.trim element.text

theorem eq_singleton_of_length_le {elements : List Xml.Element} {element : Xml.Element}
    (h : element ∈ elements) (hlength : elements.length ≤ 1) : elements = [element] := by
  match elements, h with
  | [_], h => rw [List.mem_singleton.mp h]

/-- Among siblings, an element is alone at its own position. -/
theorem exists_position {elements : List Xml.Element} {element : Xml.Element}
    (h : element ∈ elements) : ∃ number, 1 ≤ number ∧
      pick (some (.position number)) elements = [element] := by
  obtain ⟨i, hlt, rfl⟩ := List.mem_iff_getElem.mp h
  refine ⟨i + 1, by omega, ?_⟩
  rw [pick, Nat.add_sub_cancel, List.drop_eq_getElem_cons hlt]
  rfl

theorem singleBelow_child {name : PrefixedName} {index : Option Index} {rest : List Segment}
    {parent child : Xml.Element} (h : record.SingleBelow (.element name index :: rest) parent)
    (hchild : child ∈ record.childrenNamed name parent) : record.SingleBelow rest child := by
  cases index with
  | none => exact h.2 child hchild
  | some index => exact h child hchild

/-- One more step of a path: an index that is a variable gets the position of the child. -/
theorem exists_step_place {name : PrefixedName} {index : Option Index} {rest : List Segment}
    {parent child : Xml.Element} {inner : Bindings}
    (hvars : (Address.vars ⟨.element name index :: rest⟩).Nodup)
    (hplaces : inner.Places (Address.vars ⟨rest⟩))
    (hpicked : child ∈ pick index (record.childrenNamed name parent)) :
    ∃ bindings : Bindings, bindings.Places (Address.vars ⟨.element name index :: rest⟩) ∧
      rest.map (Segment.substitute bindings) = rest.map (Segment.substitute inner) ∧
      child ∈ pick (index.map (Index.substitute bindings)) (record.childrenNamed name parent) ∧
      (record.SingleBelow (.element name index :: rest) parent →
        pick (index.map (Index.substitute bindings)) (record.childrenNamed name parent) =
          [child]) := by
  obtain ⟨number, hpos, hposition⟩ := exists_position (pick_subset _ _ hpicked)
  obtain ⟨bindings, hbound, hsame, hown⟩ := Address.exists_placed_front hvars hplaces hpos
  refine ⟨bindings, hbound, hsame, ?_⟩
  cases index with
  | none => exact ⟨hpicked, fun hsingle => eq_singleton_of_length_le hpicked hsingle.1⟩
  | some index =>
    cases index with
    | position number =>
      refine ⟨hpicked, fun _ => eq_singleton_of_length_le hpicked ?_⟩
      exact List.length_take_le _ _
    | var var =>
      have hpick : (some (Index.var var)).map (Index.substitute bindings) =
          some (.position number) := by
        simp [Index.substitute, hown var rfl]
      rw [hpick, hposition]
      exact ⟨List.mem_singleton_self child, fun _ => rfl⟩

/-- What is reached below a parent is reached at some place, and alone there if it is single along
the path. -/
theorem exists_place_below {segments : List Segment} {parent element : Xml.Element}
    (hvars : (Address.vars ⟨segments⟩).Nodup) (h : element ∈ record.descend segments [parent]) :
    ∃ bindings : Bindings, bindings.Places (Address.vars ⟨segments⟩) ∧
      element ∈ record.descend (segments.map (Segment.substitute bindings)) [parent] ∧
      (record.SingleBelow segments parent →
        record.descend (segments.map (Segment.substitute bindings)) [parent] = [element]) := by
  induction segments generalizing parent with
  | nil =>
    obtain rfl := List.mem_singleton.mp h
    exact ⟨[], by simp [Bindings.Places, Address.vars], h, fun _ => rfl⟩
  | cons segment rest ih =>
    cases segment with
    | attr name =>
      obtain rfl := List.mem_singleton.mp h
      obtain ⟨bindings, hplaces⟩ := Bindings.exists_places (Address.vars ⟨.attr name :: rest⟩)
      exact ⟨bindings, hplaces, h, fun _ => rfl⟩
    | element name index =>
      obtain ⟨child, hpicked, hbelow⟩ := mem_descend_cons.mp h
      have hrest : (Address.vars ⟨rest⟩).Nodup := by
        rw [Address.vars_cons] at hvars
        exact (List.nodup_append.mp hvars).2.1
      obtain ⟨inner, hplaces, hmem, halone⟩ := ih hrest hbelow
      obtain ⟨bindings, hbound, hsame, hchild, hsingle⟩ :=
        exists_step_place hvars hplaces hpicked
      refine ⟨bindings, hbound, ?_, fun hbelow => ?_⟩
      · simp only [List.map_cons, Segment.substitute, hsame]
        exact mem_descend_cons.mpr ⟨child, hchild, hmem⟩
      · have hnamed := pick_subset _ _ hpicked
        simp only [List.map_cons, Segment.substitute, hsame, descend, List.flatMap_singleton,
          hsingle hbelow]
        exact halone (singleBelow_child hbelow hnamed)

/-- What an address selects is selected at some place of it. -/
theorem exists_place {address : Address} (hvars : address.vars.Nodup) {element : Xml.Element}
    (h : element ∈ record.elements address) :
    ∃ place : Address, place.IsPlaceOf address ∧ element ∈ record.elements place ∧
      (record.SingleAlong address → record.elements place = [element]) := by
  obtain ⟨segments⟩ := address
  cases segments with
  | nil => simp [elements] at h
  | cons first rest =>
    simp only [elements] at h
    split at h
    · rename_i hroot
      have hrest : (Address.vars ⟨rest⟩).Nodup := by
        rw [Address.vars_cons] at hvars
        exact (List.nodup_append.mp hvars).2.1
      obtain ⟨inner, hinner, hmem, hsingle⟩ := exists_place_below hrest h
      obtain ⟨bindings, hplaces, hsame, -⟩ :=
        Address.exists_placed_front hvars hinner (Nat.le_refl 1)
      have hname : (first.substitute bindings).name = first.name := by
        cases first <;> rfl
      refine ⟨_, ⟨bindings, hplaces, rfl⟩, ?_, fun halong => ?_⟩
      · simpa [elements, Address.substitute, hname, hroot, hsame] using hmem
      · simpa [elements, Address.substitute, hname, hroot, hsame] using hsingle halong
    · contradiction

end Instance

end SchemaForms
