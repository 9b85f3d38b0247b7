import SchemaForms.Proofs.Index.Content
import Mathlib.Data.List.Basic
import Mathlib.Data.List.Nodup
import Mathlib.Data.List.Perm.Basic

/-!
The depth of a walk. A walk is only ever inside distinct complex types and distinct groups of the
schema, and between two that it enters it follows the nesting of one content. The room of a path is
the depth that the types and groups that are left can use up. Each one that is entered takes its
part of the room, so the depth of a walk below a global element is never exhausted.
-/

namespace SchemaForms

theorem Construct.height_le_heights {construct : Construct} {constructs : List Construct}
    (h : construct ∈ constructs) : construct.height ≤ Construct.heights constructs := by
  induction constructs with
  | nil => contradiction
  | cons first others ih =>
    simp only [Construct.heights]
    rcases List.mem_cons.mp h with rfl | hmem
    · exact Nat.le_max_left _ _
    · exact Nat.le_trans (ih hmem) (Nat.le_max_right _ _)

theorem Construct.height_pos (construct : Construct) : 0 < construct.height := by
  cases construct <;> simp [Construct.height]

theorem le_foldl_max {numbers : List Nat} {number : Nat} (h : number ∈ numbers) :
    number ≤ numbers.foldl max 0 := by
  rw [List.foldl_max]
  exact Nat.le_trans (List.le_max?_getD_of_mem h) (Nat.le_max_right _ _)

theorem mem_of_lookup {α β : Type} [BEq α] [LawfulBEq α] {key : α} {value : β}
    {entries : List (α × β)} (h : entries.lookup key = some value) : (key, value) ∈ entries := by
  obtain ⟨before, after, rfl, -⟩ := List.lookup_eq_some_iff.mp h
  simp

namespace SchemaSet

variable {set : SchemaSet}

theorem index_lt_of_complex? {type : TypeId} {complex : ComplexType}
    (h : (set.types.definition type).complex? = some complex) :
    type.index < set.types.definitions.length := by
  by_contra hge
  have hnone : set.types.definitions[type.index]? = none :=
    List.getElem?_eq_none (Nat.le_of_not_lt hge)
  simp [TypeTable.definition, List.getD, hnone, TypeDefinition.complex?] at h

theorem mem_definitions_of_complex? {type : TypeId} {complex : ComplexType}
    (h : (set.types.definition type).complex? = some complex) :
    set.types.definition type ∈ set.types.definitions := by
  have hlt := index_lt_of_complex? h
  have hdefinition : set.types.definition type = set.types.definitions[type.index] := by
    simp [TypeTable.definition, List.getD, List.getElem?_eq_getElem hlt]
  exact hdefinition ▸ List.getElem_mem hlt

theorem heights_content_le {type : TypeId} {complex : ComplexType}
    (h : (set.types.definition type).complex? = some complex) :
    Construct.heights complex.content ≤ set.contentHeight := by
  refine le_foldl_max (List.mem_append_left _ (List.mem_append_left _ ?_))
  exact List.mem_filterMap.mpr ⟨_, mem_definitions_of_complex? h, by simp [h]⟩

theorem heights_attributes_le {name : ExpandedName} {group : AttributeGroup}
    (h : set.attributeGroup? name = some group) :
    Construct.heights group.attributes ≤ set.contentHeight := by
  refine le_foldl_max (List.mem_append_left _ (List.mem_append_right _ ?_))
  exact List.mem_map.mpr ⟨(name, group), mem_of_lookup h, rfl⟩

theorem heights_children_le {name : ExpandedName} {group : ModelGroup}
    (h : set.modelGroup? name = some group) :
    Construct.heights group.children ≤ set.contentHeight := by
  refine le_foldl_max (List.mem_append_right _ ?_)
  exact List.mem_map.mpr ⟨(name, group), mem_of_lookup h, rfl⟩

/-- The names of the groups of both kinds. -/
def groupNames (set : SchemaSet) : List ExpandedName :=
  set.attributeGroups.map Prod.fst ++ set.modelGroups.map Prod.fst

end SchemaSet

namespace Index

/-- The path enters complex types and groups of the schema. -/
structure Path.Declared (set : SchemaSet) (path : Path) : Prop where
  types : ∀ type ∈ path.types, ((set.types.definition type).complex?).isSome
  groups : ∀ name ∈ path.groups, name ∈ set.groupNames

/-- The path of a walk enters nothing twice. -/
structure Path.Sound (set : SchemaSet) (path : Path) : Prop where
  declared : path.Declared set
  types_nodup : path.types.Nodup
  groups_nodup : path.groups.Nodup

def Path.size (path : Path) : Nat := path.types.length + path.groups.length

/-- How many complex types and groups there are to enter. -/
def pathBound (set : SchemaSet) : Nat :=
  set.types.contentHeights.length + set.attributeGroups.length + set.modelGroups.length

/-- The depth that is left for what a walk inside the path still enters. -/
def room (set : SchemaSet) (path : Path) : Nat :=
  (pathBound set - path.size) * (set.contentHeight + 1)

variable {set : SchemaSet} {path entered : Path}

theorem Path.sound_empty : Path.Sound set ⟨[], []⟩ :=
  ⟨⟨by simp, by simp⟩, List.nodup_nil, List.nodup_nil⟩

theorem Path.Declared.append {inner outer : Path} (hinner : inner.Declared set)
    (houter : outer.Declared set) : (inner.append outer).Declared set := by
  constructor
  · intro type htype
    rcases List.mem_append.mp htype with h | h
    · exact hinner.types type h
    · exact houter.types type h
  · intro name hname
    rcases List.mem_append.mp hname with h | h
    · exact hinner.groups name h
    · exact houter.groups name h

theorem Path.declared_ofType {type : TypeId} {complex : ComplexType}
    (h : (set.types.definition type).complex? = some complex) : (ofType type).Declared set :=
  ⟨by simp [ofType, h], by simp [ofType]⟩

theorem Path.declared_ofGroup {name : ExpandedName} (h : name ∈ set.groupNames) :
    (ofGroup name).Declared set :=
  ⟨by simp [ofGroup], by simpa [ofGroup] using h⟩

theorem Path.Sound.append (h : path.Sound set) (hentered : entered.Declared set)
    (hadmits : path.Admits entered) : (entered.append path).Sound set := by
  refine ⟨hentered.append h.declared, ?_, ?_⟩
  · refine List.nodup_append.mpr ⟨hadmits.types_nodup, h.types_nodup, ?_⟩
    rintro type htype _ hother rfl
    exact hadmits.types_new type htype hother
  · refine List.nodup_append.mpr ⟨hadmits.groups_nodup, h.groups_nodup, ?_⟩
    rintro name hname _ hother rfl
    exact hadmits.groups_new name hname hother

theorem typeId_injective : Function.Injective TypeId.index := by
  rintro ⟨left⟩ ⟨right⟩ (rfl : left = right)
  rfl

/-- Distinct complex types are no more than there are in the table. -/
theorem length_le_of_complex {types : List TypeId} (hnodup : types.Nodup)
    (h : ∀ type ∈ types, ((set.types.definition type).complex?).isSome) :
    types.length ≤ set.types.contentHeights.length := by
  let places := (List.range set.types.definitions.length).filter fun index =>
    ((set.types.definition ⟨index⟩).complex?).isSome
  have hplaces : places.length = set.types.contentHeights.length := by
    have hmap : set.types.definitions =
        (List.range set.types.definitions.length).map
          fun index => set.types.definition ⟨index⟩ := by
      refine List.ext_getElem (by simp) fun index hleft hright => ?_
      simp [TypeTable.definition, List.getD, List.getElem?_eq_getElem hleft]
    rw [TypeTable.contentHeights, List.length_filterMap_eq_countP, ← List.countP_eq_length_filter]
    conv_rhs => rw [hmap, List.countP_map]
    refine List.countP_congr fun index _ => ?_
    simp
  have hsubset : types.map TypeId.index ⊆ places := by
    intro index hindex
    obtain ⟨type, htype, rfl⟩ := List.mem_map.mp hindex
    obtain ⟨complex, hcomplex⟩ := Option.isSome_iff_exists.mp (h type htype)
    refine List.mem_filter.mpr ⟨?_, h type htype⟩
    exact List.mem_range.mpr (SchemaSet.index_lt_of_complex? hcomplex)
  have hle := (List.subperm_of_subset (hnodup.map typeId_injective) hsubset).length_le
  rwa [List.length_map, hplaces] at hle

/-- Distinct types and groups are no more than the schema declares. -/
theorem Path.Sound.size_le (h : path.Sound set) : path.size ≤ pathBound set := by
  have htypes : path.types.length ≤ set.types.contentHeights.length :=
    length_le_of_complex h.types_nodup h.declared.types
  have hgroups : path.groups.length ≤ set.groupNames.length :=
    (List.subperm_of_subset h.groups_nodup h.declared.groups).length_le
  simp only [SchemaSet.groupNames, List.length_append, List.length_map] at hgroups
  simp only [size, pathBound]
  omega

/-- What is entered takes the nesting of one content from the room. -/
theorem room_append (h : (entered.append path).Sound set) (hsize : entered.size = 1) :
    room set (entered.append path) + (set.contentHeight + 1) = room set path := by
  have hle := h.size_le
  have hgrow : (entered.append path).size = path.size + 1 := by
    simp only [Path.size, Path.append, List.length_append] at hsize ⊢
    omega
  have hleft : pathBound set - path.size = pathBound set - (entered.append path).size + 1 := by
    omega
  simp only [room, hleft, Nat.succ_mul]

theorem room_le_walkDepth : room set ⟨[], []⟩ ≤ set.walkDepth :=
  Nat.mul_le_mul_right _ (by simp [Path.size, pathBound])

end Index

namespace SchemaSet

open Index

variable {set : SchemaSet}

/-- Opening a construct enters at most one type or group of the schema. What it consists of is
nested less deep, or it is the content of what was entered. -/
theorem declared_of_opened {placed middle : Placed} {first : Path}
    (h : (first, middle) ∈ set.opened placed) : first.Declared set ∧
      (first = ⟨[], []⟩ ∧ middle.construct.height < placed.construct.height ∨
        first.size = 1 ∧ middle.construct.height ≤ set.contentHeight) := by
  have hinner : ∀ (children : List Construct) (child : Construct), child ∈ children →
      placed.construct.height = Construct.heights children + 1 →
      child.height < placed.construct.height := by
    intro children child hchild hheight
    have := Construct.height_le_heights hchild
    omega
  have hderived : ∀ (method : DerivationMethod) (base : TypeRef) (children : List Construct),
      placed.construct.height = Construct.heights children + 1 →
      (first, middle) ∈ set.inherited method base ++
        children.map (fun child => ((⟨[], []⟩ : Path), (⟨none, child⟩ : Placed))) →
      first.Declared set ∧ (first = ⟨[], []⟩ ∧ middle.construct.height < placed.construct.height ∨
        first.size = 1 ∧ middle.construct.height ≤ set.contentHeight) := by
    intro method base children hheight hmem
    rcases List.mem_append.mp hmem with hbase | hown
    · obtain ⟨-, type, complex, construct, -, hcomplex, hconstruct, rfl, rfl⟩ :=
        mem_inherited.mp hbase
      exact ⟨Path.declared_ofType hcomplex, Or.inr ⟨rfl,
        Nat.le_trans (Construct.height_le_heights hconstruct) (heights_content_le hcomplex)⟩⟩
    · simp only [List.mem_map, Prod.mk.injEq] at hown
      obtain ⟨child, hchild, rfl, rfl⟩ := hown
      exact ⟨Path.sound_empty.declared, Or.inl ⟨rfl, hinner children child hchild hheight⟩⟩
  unfold opened at h
  split at h
  case h_1 method base children hconstruct =>
    exact hderived method base children (by simp [hconstruct, Construct.height]) h
  case h_2 method base children hconstruct =>
    exact hderived method base children (by simp [hconstruct, Construct.height]) h
  case h_3 kind occurs children hconstruct =>
    simp only [List.mem_map, Prod.mk.injEq] at h
    obtain ⟨child, hchild, rfl, rfl⟩ := h
    exact ⟨Path.sound_empty.declared, Or.inl ⟨rfl, hinner children child hchild
      (by simp [hconstruct, Construct.height])⟩⟩
  case h_4 name hconstruct =>
    split at h
    case h_1 group hgroup =>
      simp only [List.mem_map, Prod.mk.injEq] at h
      obtain ⟨child, hchild, rfl, rfl⟩ := h
      refine ⟨Path.declared_ofGroup (List.mem_append_left _ ?_), Or.inr ⟨rfl, ?_⟩⟩
      · exact List.mem_map.mpr ⟨_, mem_of_lookup hgroup, rfl⟩
      · exact Nat.le_trans (Construct.height_le_heights hchild) (heights_attributes_le hgroup)
    case h_2 => contradiction
  case h_5 name occurs hconstruct =>
    split at h
    case h_1 group hgroup =>
      simp only [List.mem_map, Prod.mk.injEq] at h
      obtain ⟨child, hchild, rfl, rfl⟩ := h
      refine ⟨Path.declared_ofGroup (List.mem_append_right _ ?_), Or.inr ⟨rfl, ?_⟩⟩
      · exact List.mem_map.mpr ⟨_, mem_of_lookup hgroup, rfl⟩
      · exact Nat.le_trans (Construct.height_le_heights hchild) (heights_children_le hgroup)
    case h_2 => contradiction
  case h_6 => contradiction

theorem Inlines.declared {start found : Placed} {entered : Path}
    (h : set.Inlines start entered found) : entered.Declared set := by
  induction h with
  | itself placed => exact Path.sound_empty.declared
  | opened hopened hfound ih => exact ih.append (declared_of_opened hopened).1

end SchemaSet

end SchemaForms
