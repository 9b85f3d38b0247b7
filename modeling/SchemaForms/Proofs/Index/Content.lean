import SchemaForms.Index.Build
import Mathlib.Tactic.Common

/-!
What the content of a type consists of once compositors, groups and bases are opened. A construct
that is found in another is found with the groups and the bases that were entered on the way, the
innermost first. A walk that is inside a path follows such a way exactly if it enters nothing that
it is inside of already. Ways compose.
-/

namespace SchemaForms

/-- The declaration of an element without namespace. -/
def ElementDeclaration.unqualified (name : String) (type : TypeRef) : ElementDeclaration :=
  ⟨⟨none, name⟩, 0, type, false, none⟩

/-- An element that is declared in the content of a type. -/
def Construct.particle (name : String) (type : TypeRef) (occurs : Occurs) : Construct :=
  .element (.locally (.unqualified name type)) occurs

/-- A complex type without name. -/
def TypeDefinition.containing (content : List Construct) : TypeDefinition :=
  .complex ⟨none, 0, false, false, content⟩

/-- A schema of types that are referred to by their places, and of global elements. -/
def SchemaSet.declaring (definitions : List TypeDefinition) (elements : List ElementDeclaration) :
    SchemaSet :=
  { SchemaSet.initial with
    types := ⟨definitions, []⟩
    elements := elements.map fun declaration => (declaration.name, declaration) }

theorem isComplex_of_complex? {definition : TypeDefinition} {complex : ComplexType}
    (h : definition.complex? = some complex) : definition.isComplex = true := by
  cases definition <;> simp_all [TypeDefinition.complex?, TypeDefinition.isComplex]

namespace Index

namespace Path

/-- First one path is entered, then another. -/
def append (inner outer : Path) : Path :=
  ⟨inner.types ++ outer.types, inner.groups ++ outer.groups⟩

def ofType (type : TypeId) : Path := ⟨[type], []⟩

def ofGroup (name : ExpandedName) : Path := ⟨[], [name]⟩

/-- Nothing that is entered is entered twice or is on the path already. -/
structure Admits (path entered : Path) : Prop where
  types_nodup : entered.types.Nodup
  types_new : ∀ type ∈ entered.types, type ∉ path.types
  groups_nodup : entered.groups.Nodup
  groups_new : ∀ name ∈ entered.groups, name ∉ path.groups

@[simp] theorem append_empty (path : Path) : path.append ⟨[], []⟩ = path := by
  simp [append]

@[simp] theorem empty_append (path : Path) : append ⟨[], []⟩ path = path := by
  simp [append]

theorem append_assoc (first second third : Path) :
    (first.append second).append third = first.append (second.append third) := by
  simp [append]

theorem admits_empty (path : Path) : path.Admits ⟨[], []⟩ :=
  ⟨List.nodup_nil, by simp, List.nodup_nil, by simp⟩

/-- What is entered in two parts is admitted when each part is, the second after the first. -/
theorem admits_append {path inner outer : Path} :
    path.Admits (inner.append outer) ↔ path.Admits outer ∧ (outer.append path).Admits inner := by
  constructor
  · rintro ⟨htypes, hnewTypes, hgroups, hnewGroups⟩
    simp only [append, List.nodup_append, List.mem_append] at htypes hnewTypes hgroups hnewGroups
    refine ⟨⟨htypes.2.1, fun t ht => hnewTypes t (Or.inr ht), hgroups.2.1,
      fun n hn => hnewGroups n (Or.inr hn)⟩, ⟨htypes.1, ?_, hgroups.1, ?_⟩⟩
    · intro type htype hmem
      rcases List.mem_append.mp hmem with h | h
      · exact htypes.2.2 type htype type h rfl
      · exact hnewTypes type (Or.inl htype) h
    · intro name hname hmem
      rcases List.mem_append.mp hmem with h | h
      · exact hgroups.2.2 name hname name h rfl
      · exact hnewGroups name (Or.inl hname) h
  · rintro ⟨houter, hinner⟩
    refine ⟨?_, ?_, ?_, ?_⟩
    · refine List.nodup_append.mpr ⟨hinner.types_nodup, houter.types_nodup, ?_⟩
      rintro type htype _ hother rfl
      exact hinner.types_new type htype (List.mem_append_left _ hother)
    · intro type htype
      rcases List.mem_append.mp htype with h | h
      · exact fun hmem => hinner.types_new type h (List.mem_append_right _ hmem)
      · exact houter.types_new type h
    · refine List.nodup_append.mpr ⟨hinner.groups_nodup, houter.groups_nodup, ?_⟩
      rintro name hname _ hother rfl
      exact hinner.groups_new name hname (List.mem_append_left _ hother)
    · intro name hname
      rcases List.mem_append.mp hname with h | h
      · exact fun hmem => hinner.groups_new name h (List.mem_append_right _ hmem)
      · exact houter.groups_new name h

theorem admits_ofType {path : Path} {type : TypeId} :
    path.Admits (ofType type) ↔ type ∉ path.types :=
  ⟨fun h => h.types_new type (by simp [ofType]),
    fun h => ⟨by simp [ofType], by simpa [ofType] using h, by simp [ofType], by simp [ofType]⟩⟩

theorem admits_ofGroup {path : Path} {name : ExpandedName} :
    path.Admits (ofGroup name) ↔ name ∉ path.groups :=
  ⟨fun h => h.groups_new name (by simp [ofGroup]),
    fun h => ⟨by simp [ofGroup], by simp [ofGroup], by simp [ofGroup], by simpa [ofGroup] using h⟩⟩

end Path

theorem walkAll_congr {walk walk' : Construct → Walk (List Address)} {constructs : List Construct}
    (h : ∀ construct ∈ constructs, walk construct = walk' construct) :
    walkAll walk constructs = walkAll walk' constructs := by
  induction constructs with
  | nil => rfl
  | cons first others ih =>
    obtain ⟨hfirst, hothers⟩ := List.forall_mem_cons.mp h
    rw [walkAll, walkAll, hfirst, ih hothers]

/-- A construct with the compositor right around it. -/
structure Placed where
  compositor : Option CompositorContext
  construct : Construct

/-- The compositor that a reference to a group puts around the members of the group. -/
def groupContext (group : ModelGroup) (occurs : Occurs) : CompositorContext :=
  ⟨group.kind, group.effectiveOccurs occurs, group.children.length = 1⟩

end Index

namespace SchemaSet

open Index

/-- The content of the base that an extension takes over, found by entering the base. -/
def inherited (set : SchemaSet) (method : DerivationMethod) (base : TypeRef) :
    List (Path × Placed) :=
  match method, set.types.resolve? base with
  | .extension, some type =>
    match (set.types.definition type).complex? with
    | some complex => complex.content.map fun construct => (.ofType type, ⟨none, construct⟩)
    | none => []
  | _, _ => []

/-- What a construct consists of, each with what is entered to find it. -/
def opened (set : SchemaSet) (placed : Placed) : List (Path × Placed) :=
  match placed.construct with
  | .simpleContent method base children | .complexContent method base children =>
    set.inherited method base ++ children.map fun child => (⟨[], []⟩, ⟨none, child⟩)
  | .compositor kind occurs children =>
    children.map fun child => (⟨[], []⟩, ⟨some ⟨kind, occurs, children.length = 1⟩, child⟩)
  | .attributeGroup name =>
    match set.attributeGroup? name with
    | some group => group.attributes.map fun child => (.ofGroup name, ⟨none, child⟩)
    | none => []
  | .group name occurs =>
    match set.modelGroup? name with
    | some group =>
      group.children.map fun child => (.ofGroup name, ⟨some (groupContext group occurs), child⟩)
    | none => []
  | _ => []

/-- A construct is found in another when compositors, groups and bases are opened. -/
inductive Inlines (set : SchemaSet) : Placed → Path → Placed → Prop
  | itself (placed : Placed) : Inlines set placed ⟨[], []⟩ placed
  | opened {placed middle found : Placed} {first entered : Path}
      (hopened : (first, middle) ∈ set.opened placed) (hfound : Inlines set middle entered found) :
      Inlines set placed (entered.append first) found

variable {set : SchemaSet}

theorem inlines_of_opened {placed found : Placed} {first : Path}
    (h : (first, found) ∈ set.opened placed) : set.Inlines placed first found := by
  simpa using Inlines.opened h (.itself found)

theorem Inlines.trans {start middle found : Placed} {outer inner : Path}
    (hfirst : set.Inlines start outer middle) (hsecond : set.Inlines middle inner found) :
    set.Inlines start (inner.append outer) found := by
  induction hfirst with
  | itself placed => simpa using hsecond
  | opened hopened hfound ih =>
    rw [← Path.append_assoc]
    exact .opened hopened (ih hsecond)

theorem mem_inherited {method : DerivationMethod} {base : TypeRef} {first : Path}
    {middle : Placed} : (first, middle) ∈ set.inherited method base ↔
      method = .extension ∧ ∃ type complex construct, set.types.resolve? base = some type ∧
        (set.types.definition type).complex? = some complex ∧ construct ∈ complex.content ∧
        first = .ofType type ∧ middle = ⟨none, construct⟩ := by
  unfold inherited
  cases method with
  | restriction => simp
  | extension =>
    cases hresolve : set.types.resolve? base with
    | none => simp
    | some type =>
      cases hcomplex : (set.types.definition type).complex? with
      | none => simp [hcomplex]
      | some complex =>
        simp only [hcomplex, List.mem_map, Prod.mk.injEq, true_and]
        constructor
        · rintro ⟨construct, hconstruct, rfl, rfl⟩
          exact ⟨type, complex, construct, rfl, hcomplex, hconstruct, rfl, rfl⟩
        · rintro ⟨_, _, construct, h, hother, hconstruct, rfl, rfl⟩
          obtain rfl := Option.some.inj h
          obtain rfl := Option.some.inj (hcomplex.symm.trans hother)
          exact ⟨construct, hconstruct, rfl, rfl⟩

end SchemaSet

end SchemaForms
