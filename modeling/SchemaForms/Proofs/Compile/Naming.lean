import SchemaForms.Proofs.Compile.Related
import SchemaForms.Proofs.Index.Depth

/-!
Schemas that name everything alike. Of the documents, the index and the templates only use the names
that they give to the references to elements, the uses of attributes and the wildcard. Where two
schemas differ in the documents only and give the same names to all that they declare, the same
nodes are indexed, and templates and logs are the same.
-/

namespace SchemaForms

namespace SchemaSet

/-- All constructs of the list, at whatever depth, are constructs of the schema. -/
def Holds (set : SchemaSet) (constructs : List Construct) : Prop :=
  Construct.partsOf constructs ⊆ set.constructs

/-- Schemas that differ in the documents, and give the same names to what they declare. -/
structure NamesAlike (namespaces : InstanceNamespaces) (left right : SchemaSet) : Prop where
  same : right = { left with documents := right.documents }
  elements : ∀ reference occurs, .element reference occurs ∈ left.constructs →
    right.elementName namespaces reference = left.elementName namespaces reference
  attributes : ∀ use, .attributeUse use ∈ left.constructs →
    right.attributeName namespaces use = left.attributeName namespaces use
  wildcard : right.wildcardName = left.wildcardName

section Holds

variable {set : SchemaSet} {constructs : List Construct} {construct : Construct}

theorem Holds.mono (h : set.Holds constructs) {others : List Construct}
    (hothers : others ⊆ constructs) : set.Holds others := by
  intro part hpart
  obtain ⟨construct, hconstruct, hinside⟩ := Construct.mem_partsOf.mp hpart
  exact h (Construct.mem_partsOf.mpr ⟨construct, hothers hconstruct, hinside⟩)

theorem Holds.mem (h : set.Holds constructs) (hconstruct : construct ∈ constructs) :
    construct ∈ set.constructs := by
  refine h (Construct.mem_partsOf.mpr ⟨construct, hconstruct, ?_⟩)
  rw [Construct.parts_eq]
  exact List.mem_cons_self

theorem Holds.children (h : set.Holds constructs) (hconstruct : construct ∈ constructs) :
    set.Holds construct.children := by
  intro part hpart
  refine h (Construct.mem_partsOf.mpr ⟨construct, hconstruct, ?_⟩)
  rw [Construct.parts_eq]
  exact List.mem_cons_of_mem _ hpart

theorem holds_of_subset (h : constructs ⊆ set.types.definitions.flatMap TypeDefinition.content ++
    set.attributeGroups.flatMap (·.2.attributes) ++ set.modelGroups.flatMap (·.2.children)) :
    set.Holds constructs := by
  intro part hpart
  obtain ⟨construct, hconstruct, hinside⟩ := Construct.mem_partsOf.mp hpart
  exact Construct.mem_partsOf.mpr ⟨construct, h hconstruct, hinside⟩

theorem holds_content {type : TypeId} {complex : ComplexType}
    (h : (set.types.definition type).complex? = some complex) : set.Holds complex.content := by
  refine holds_of_subset fun construct hconstruct => ?_
  refine List.mem_append_left _ (List.mem_append_left _ ?_)
  refine List.mem_flatMap.mpr ⟨_, mem_definitions_of_complex? h, ?_⟩
  cases hdefinition : set.types.definition type with
  | complex found =>
    rw [hdefinition] at h
    obtain rfl := Option.some.inj h
    exact hconstruct
  | _ =>
    rw [hdefinition] at h
    cases h

theorem holds_attributeGroup {name : ExpandedName} {group : AttributeGroup}
    (h : set.attributeGroup? name = some group) : set.Holds group.attributes := by
  refine holds_of_subset fun construct hconstruct => ?_
  refine List.mem_append_left _ (List.mem_append_right _ ?_)
  exact List.mem_flatMap.mpr ⟨_, mem_of_lookup h, hconstruct⟩

theorem holds_modelGroup {name : ExpandedName} {group : ModelGroup}
    (h : set.modelGroup? name = some group) : set.Holds group.children := by
  refine holds_of_subset fun construct hconstruct => List.mem_append_right _ ?_
  exact List.mem_flatMap.mpr ⟨_, mem_of_lookup h, hconstruct⟩

end Holds

end SchemaSet

namespace Index

/-- Content is walked in the same way, if it is held by the schema. -/
def SameContent (set : SchemaSet) (walk walk' : ContentWalk) : Prop :=
  ∀ path parent compositor constructs, set.Holds constructs →
    walkAll (walk' path parent compositor) constructs =
      walkAll (walk path parent compositor) constructs

end Index

namespace SchemaSet.NamesAlike

open Index

variable {namespaces : InstanceNamespaces} {left right : SchemaSet}
  (h : NamesAlike namespaces left right)

include h

section Walks

variable {walk walk' : ContentWalk} (hwalk : SameContent left walk walk')

include hwalk

theorem walkElement_eq (depth : Nat) (path : Path) (address : Address)
    (declaration : ElementDeclaration) (occurs : Occurs) (compositor : Option CompositorContext) :
    walkElement ⟨right, namespaces⟩ walk' depth path address declaration occurs compositor =
      walkElement ⟨left, namespaces⟩ walk depth path address declaration occurs compositor := by
  obtain ⟨documents, rfl⟩ : ∃ documents, right = { left with documents := documents } :=
    ⟨_, h.same⟩
  induction depth generalizing path address declaration with
  | zero => rfl
  | succ depth ih =>
    have hbeside : ∀ parent : Address, (fun entry : PrefixedName × ElementDeclaration =>
        walkElement ⟨{ left with documents := documents }, namespaces⟩ walk' depth path
          (parent.child entry.1) entry.2 occurs compositor) = fun entry =>
        walkElement ⟨left, namespaces⟩ walk depth path (parent.child entry.1) entry.2 occurs
          compositor := fun parent => funext fun entry => ih ..
    unfold walkElement
    refine bind_congr fun known => ?_
    split
    · rfl
    dsimp only
    cases left.types.resolve? declaration.type with
    | none => rfl
    | some type =>
      dsimp only
      refine bind_congr fun _ => ?_
      simp only [hbeside]
      cases hcomplex : (left.types.definition type).complex? with
      | none => rfl
      | some complex =>
        have hcontent := hwalk { path with types := type :: path.types } address none
          complex.content (holds_content hcomplex)
        generalize ((left.types.definition type).isComplex && decide (type ∈ path.types)) =
          isRecursive
        cases isRecursive with
        | true => rfl
        | false => exact congrArg (· >>= _) hcontent

theorem walkBase_eq (path : Path) (parent : Address) (base : TypeRef) :
    walkBase ⟨right, namespaces⟩ walk' path parent base =
      walkBase ⟨left, namespaces⟩ walk path parent base := by
  unfold walkBase
  rw [h.same]
  dsimp only
  cases left.types.resolve? base with
  | none => rfl
  | some type =>
    dsimp only
    cases hcomplex : (left.types.definition type).complex? with
    | none => rfl
    | some complex =>
      dsimp only
      rw [hwalk _ _ _ _ (holds_content hcomplex)]

theorem walkDerivation_eq (path : Path) (parent : Address) (method : DerivationMethod)
    (base : TypeRef) {children : List Construct} (hchildren : left.Holds children) :
    walkDerivation ⟨right, namespaces⟩ walk' path parent method base children =
      walkDerivation ⟨left, namespaces⟩ walk path parent method base children := by
  unfold walkDerivation
  rw [h.walkBase_eq hwalk, hwalk _ _ _ _ hchildren]

theorem walkAttributeGroup_eq (path : Path) (parent : Address) (name : ExpandedName) :
    walkAttributeGroup ⟨right, namespaces⟩ walk' path parent name =
      walkAttributeGroup ⟨left, namespaces⟩ walk path parent name := by
  have hgroup : right.attributeGroup? name = left.attributeGroup? name := by rw [h.same]; rfl
  unfold walkAttributeGroup
  rw [hgroup]
  cases hfound : left.attributeGroup? name with
  | none => rfl
  | some group =>
    dsimp only
    rw [hwalk _ _ _ _ (holds_attributeGroup hfound)]

theorem walkModelGroup_eq (path : Path) (parent : Address) (name : ExpandedName)
    (occurs : Occurs) : walkModelGroup ⟨right, namespaces⟩ walk' path parent name occurs =
      walkModelGroup ⟨left, namespaces⟩ walk path parent name occurs := by
  have hgroup : right.modelGroup? name = left.modelGroup? name := by rw [h.same]; rfl
  unfold walkModelGroup
  rw [hgroup]
  cases hfound : left.modelGroup? name with
  | none => rfl
  | some group =>
    dsimp only
    rw [hwalk _ _ _ _ (holds_modelGroup hfound)]

theorem walkParticle_eq (path : Path) (parent : Address) {reference : ElementRef}
    {occurs : Occurs} (compositor : Option CompositorContext)
    (hmem : .element reference occurs ∈ left.constructs) :
    walkParticle ⟨right, namespaces⟩ walk' path parent reference occurs compositor =
      walkParticle ⟨left, namespaces⟩ walk path parent reference occurs compositor := by
  have hdeclaration : right.declaration? reference = left.declaration? reference := by
    rw [h.same]
    cases reference <;> rfl
  have hlength : right.elements.length = left.elements.length := by rw [h.same]
  unfold walkParticle
  simp only [h.elements reference occurs hmem, hdeclaration, hlength, h.walkElement_eq hwalk]

end Walks

theorem walkAttribute_eq (parent : Address) {use : AttributeDeclaration}
    (hmem : .attributeUse use ∈ left.constructs) :
    walkAttribute ⟨right, namespaces⟩ parent use = walkAttribute ⟨left, namespaces⟩ parent use := by
  have htype : right.attributeType? use = left.attributeType? use := by rw [h.same]; rfl
  unfold walkAttribute
  rw [h.attributes use hmem, htype]

theorem walkWildcard_eq (parent : Address) (occurs : Occurs)
    (compositor : Option CompositorContext) :
    walkWildcard ⟨right, namespaces⟩ parent occurs compositor =
      walkWildcard ⟨left, namespaces⟩ parent occurs compositor := by
  have htypes : right.types = left.types := by rw [h.same]
  unfold walkWildcard
  rw [h.wildcard, htypes]

/-- What the schema holds is walked in the same way. -/
theorem sameContent_walkConstruct (depth : Nat) :
    SameContent left (walkConstruct ⟨left, namespaces⟩ depth)
      (walkConstruct ⟨right, namespaces⟩ depth) := by
  induction depth with
  | zero => exact fun _ _ _ _ _ => rfl
  | succ depth ih =>
    intro path parent compositor constructs hheld
    refine walkAll_congr fun construct hconstruct => ?_
    have hmem := hheld.mem hconstruct
    have hchildren := hheld.children hconstruct
    cases construct with
    | attributeUse use => exact h.walkAttribute_eq parent hmem
    | attributeGroup name => exact h.walkAttributeGroup_eq ih path parent name
    | simpleContent method base children =>
      exact h.walkDerivation_eq ih path parent method base hchildren
    | complexContent method base children =>
      exact h.walkDerivation_eq ih path parent method base hchildren
    | compositor kind occurs children => exact ih _ _ _ _ hchildren
    | group name occurs => exact h.walkModelGroup_eq ih path parent name occurs
    | element reference occurs => exact h.walkParticle_eq ih path parent compositor hmem
    | wildcard occurs => exact h.walkWildcard_eq parent occurs compositor
    | other tag => rfl

theorem walkRoot_eq :
    SchemaIndex.walkRoot ⟨right, namespaces⟩ =
      SchemaIndex.walkRoot ⟨left, namespaces⟩ := by
  have hdepth : right.walkDepth = left.walkDepth := by rw [h.same]; rfl
  have hlength : right.elements.length = left.elements.length := by rw [h.same]
  funext declaration
  unfold SchemaIndex.walkRoot
  simp only [hdepth, hlength, h.walkElement_eq (h.sameContent_walkConstruct _)]

/-- The same is indexed. -/
theorem build_eq (roots : List ExpandedName) : SchemaIndex.build right namespaces roots =
    (SchemaIndex.build left namespaces roots).map fun index => { index with set := right } := by
  have hroots : SchemaIndex.rootDeclaration right = SchemaIndex.rootDeclaration left := by
    rw [h.same]
    rfl
  unfold SchemaIndex.build
  rw [hroots, h.walkRoot_eq]
  cases roots.mapM (SchemaIndex.rootDeclaration left) <;> rfl

end SchemaSet.NamesAlike

/-- What a schema holds corresponds to itself. -/
def SchemaSet.held (set : SchemaSet) : Correspondence where
  type := Eq
  ref := Eq
  use left right := left = right ∧ .attributeUse left ∈ set.constructs
  element left right := left = right ∧ ∃ occurs, .element left occurs ∈ set.constructs
  constructs left right := left = right ∧ set.Holds left

namespace SchemaSet.Holds

variable {set : SchemaSet} {constructs : List Construct}

theorem corresponds (h : set.Holds constructs) :
    List.Forall₂ (Construct.Corresponds set.held) constructs constructs := by
  refine List.forall₂_same.mpr fun construct hconstruct => ?_
  have hmem := h.mem hconstruct
  have hchildren := h.children hconstruct
  cases construct with
  | attributeUse use => exact .attributeUse ⟨rfl, hmem⟩
  | attributeGroup => exact .attributeGroup
  | simpleContent => exact .simpleContent rfl ⟨rfl, hchildren⟩
  | complexContent => exact .complexContent rfl ⟨rfl, hchildren⟩
  | compositor => exact .compositor ⟨rfl, hchildren⟩
  | group => exact .group
  | element reference occurs => exact .element ⟨rfl, occurs, hmem⟩
  | wildcard => exact .wildcard
  | other => exact .other

theorem first?_corresponds (h : set.Holds constructs) :
    Option.Rel (ContentModel.Corresponds set.held) (ContentModel.first? constructs)
      (ContentModel.first? constructs) := by
  induction constructs with
  | nil => exact .none
  | cons construct others ih =>
    have hchildren := h.children List.mem_cons_self
    have hothers := ih (h.mono (List.subset_cons_self _ _))
    cases construct with
    | simpleContent => exact .some (.textOnly ⟨rfl, rfl, rfl, hchildren⟩)
    | complexContent => exact .some (.derived ⟨rfl, rfl, rfl, hchildren⟩)
    | _ => exact hothers

end SchemaSet.Holds

theorem SchemaSet.definition_corresponds (set : SchemaSet) (type : TypeId) :
    (set.types.definition type).Corresponds set.held (set.types.definition type) := by
  have hcontent : ∀ complex, (set.types.definition type).complex? = some complex →
      set.Holds complex.content := fun _ => set.holds_content
  cases hdefinition : set.types.definition type with
  | builtin => exact .builtin
  | simple => exact .simple
  | complex complex =>
    rw [hdefinition] at hcontent
    have hheld := hcontent complex rfl
    have hfirst := hheld.first?_corresponds
    refine .complex ?_
    unfold ComplexType.model
    generalize ContentModel.first? complex.content = found at hfirst
    cases hfirst with
    | none => exact .constructs ⟨rfl, hheld⟩
    | some hmodel => exact hmodel

namespace SchemaSet.NamesAlike

open Compile

variable {index : SchemaIndex} {right : SchemaSet}
  (h : NamesAlike index.namespaces index.set right) {mode : Mode} {root : Address}

include h

theorem attributeGroup (here : Address) (name : ExpandedName) :
    Together (fun group group' => group = group' ∧ index.set.Holds group.attributes)
      (Scope.attributeGroup ⟨index, mode, root⟩ here name)
      (Scope.attributeGroup ⟨{ index with set := right }, mode, root⟩ here name) := by
  have hgroup : right.attributeGroup? name = index.set.attributeGroup? name := by rw [h.same]; rfl
  unfold Scope.attributeGroup
  rw [hgroup]
  cases hfound : index.set.attributeGroup? name with
  | none => exact .error _
  | some group => exact .ok ⟨rfl, holds_attributeGroup hfound⟩

theorem usesOf (here : Address) (depth : Nat) (name : ExpandedName) :
    Opening.Alike (List.Forall₂ index.set.held.use)
      (Scope.usesOf ⟨index, mode, root⟩ here depth name)
      (Scope.usesOf ⟨{ index with set := right }, mode, root⟩ here depth name) := by
  induction depth generalizing name with
  | zero => exact .throw _
  | succ depth ih =>
    refine .openOnce .nil _ (.bind (.of_together (h.attributeGroup here name)) ?_)
    rintro group _ ⟨rfl, hheld⟩
    refine .openAll .nil (fun _ _ _ _ hfirst hothers => List.rel_append hfirst hothers)
      hheld.corresponds ?_
    intro construct construct' hconstruct
    cases hconstruct with
    | attributeUse huse => exact .pure (.cons huse .nil)
    | attributeGroup => exact ih _
    | _ => exact .pure .nil

/-- The questions that are asked for a template are answered alike. -/
theorem corresponds : (Scope.mk index mode root).Corresponds index.set.held
    ⟨{ index with set := right }, mode, root⟩ := by
  have hself : ∀ type : Option TypeId, Option.Rel Eq type type := by
    intro type
    cases type with
    | none => exact .none
    | some type => exact .some rfl
  have htypes : right.types = index.set.types := by rw [h.same]
  have hdepth : right.walkDepth = index.set.walkDepth := by rw [h.same]; rfl
  have hgroups : right.attributeGroups = index.set.attributeGroups := by rw [h.same]
  have hmodelGroup : ∀ name, right.modelGroup? name = index.set.modelGroup? name := by
    intro name
    rw [h.same]
    rfl
  refine {
    mode := rfl
    root := rfl
    nodeOf? := fun address => ?_
    hasMultiSelect := fun address => ?_
    types := ?_
    resolve? := ?_
    modelGroup? := fun name => ?_
    groupAttributes := fun here name => ?_
    elementName := ?_
    attributeName := ?_
    wildcardName := h.wildcard.symm
    walkDepth := hdepth.symm
    heights := ?_
    attributes := ?_
    others := ?_ }
  · show Option.Rel _ (index.nodeOf? address) (index.nodeOf? address)
    cases index.nodeOf? address with
    | none => exact .none
    | some node => exact .some ⟨rfl, rfl⟩
  · unfold SchemaIndex.hasMultiSelect SchemaIndex.isMultiSelect
    rw [htypes]
    rfl
  · rintro type _ rfl
    show TypeTable.SameAnswers _ index.set.types right.types type type
    rw [htypes]
    exact ⟨index.set.definition_corresponds type, rfl, rfl, rfl, rfl⟩
  · rintro reference _ rfl
    show Option.Rel Eq (index.set.types.resolve? reference) (right.types.resolve? reference)
    rw [htypes]
    exact hself _
  · show Option.Rel _ (index.set.modelGroup? name) (right.modelGroup? name)
    rw [hmodelGroup]
    cases hfound : index.set.modelGroup? name with
    | none => exact .none
    | some group => exact .some ⟨⟨rfl, holds_modelGroup hfound⟩, rfl⟩
  · unfold Scope.groupAttributes
    dsimp only
    rw [hgroups]
    exact ((h.usesOf here _ name) []).bind fun _ _ hfound => .ok hfound.1
  · rintro reference _ ⟨rfl, occurs, hmem⟩
    exact (h.elements reference occurs hmem).symm
  · rintro use _ ⟨rfl, hmem⟩
    exact (h.attributes use hmem).symm
  · rintro constructs _ ⟨rfl, -⟩
    rfl
  · rintro constructs _ ⟨rfl, hheld⟩
    exact (hheld.mono (List.filter_subset_self _)).corresponds
  · rintro constructs _ ⟨rfl, hheld⟩
    exact (hheld.mono (List.filter_subset_self _)).corresponds

/-- Templates are the same, and so are the logs. -/
theorem compile_eq (mode : Mode) (address : Address) :
    SchemaIndex.compile { index with set := right } mode address = index.compile mode address :=
  (SchemaIndex.compile_eq_of_corresponds h.corresponds rfl).symm

end SchemaSet.NamesAlike

end SchemaForms
