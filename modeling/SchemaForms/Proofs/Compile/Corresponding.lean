import SchemaForms.Compile.Tree
import SchemaForms.Proofs.Compile.Alike
import SchemaForms.Proofs.Schema.Tables
import Mathlib.Data.List.Forall2

/-!
Templates of schemas that correspond. What is shown depends on the answers to a few questions about
addresses, types, groups and names. When two schemas answer them in corresponding ways, and the
constructs of corresponding lists correspond once attributes are put first, the shapes of a node
correspond and so do the constructs and the derivations that are followed. What is made of them has
no identifiers of types in it, so the templates are the same, and so are the logs.
-/

namespace SchemaForms

/-- How what two schemas declare corresponds: identifiers of types and references to them, uses of
attributes, references to elements, and lists of constructs. -/
structure Correspondence where
  type : TypeId → TypeId → Prop
  ref : TypeRef → TypeRef → Prop
  use : AttributeDeclaration → AttributeDeclaration → Prop
  element : ElementRef → ElementRef → Prop
  constructs : List Construct → List Construct → Prop

section Components

variable (like : Correspondence)

inductive Construct.Corresponds : Construct → Construct → Prop
  | attributeUse {use use'} (h : like.use use use') :
    Corresponds (.attributeUse use) (.attributeUse use')
  | attributeGroup {name} : Corresponds (.attributeGroup name) (.attributeGroup name)
  | simpleContent {method base base' children children'} (hbase : like.ref base base')
      (hchildren : like.constructs children children') :
    Corresponds (.simpleContent method base children) (.simpleContent method base' children')
  | complexContent {method base base' children children'} (hbase : like.ref base base')
      (hchildren : like.constructs children children') :
    Corresponds (.complexContent method base children) (.complexContent method base' children')
  | compositor {kind occurs children children'} (hchildren : like.constructs children children') :
    Corresponds (.compositor kind occurs children) (.compositor kind occurs children')
  | group {name occurs} : Corresponds (.group name occurs) (.group name occurs)
  | element {reference reference' occurs} (h : like.element reference reference') :
    Corresponds (.element reference occurs) (.element reference' occurs)
  | wildcard {occurs} : Corresponds (.wildcard occurs) (.wildcard occurs)
  | other {tag} : Corresponds (.other tag) (.other tag)

structure Derivation.Corresponds (left right : Derivation) : Prop where
  method : left.method = right.method
  base : like.ref left.base right.base
  children : like.constructs left.children right.children

inductive ContentModel.Corresponds : ContentModel → ContentModel → Prop
  | textOnly {derivation derivation'} (h : derivation.Corresponds like derivation') :
    Corresponds (.textOnly derivation) (.textOnly derivation')
  | derived {derivation derivation'} (h : derivation.Corresponds like derivation') :
    Corresponds (.derived derivation) (.derived derivation')
  | constructs {content content'} (h : like.constructs content content') :
    Corresponds (.constructs content) (.constructs content')

inductive TypeDefinition.Corresponds : TypeDefinition → TypeDefinition → Prop
  | builtin {name} : Corresponds (.builtin name) (.builtin name)
  | simple {type type'} : Corresponds (.simple type) (.simple type')
  | complex {type type'} (h : type.model.Corresponds like type'.model) :
    Corresponds (.complex type) (.complex type')

structure ModelGroup.Corresponds (left right : ModelGroup) : Prop where
  children : like.constructs left.children right.children
  same : right = { left with children := right.children }

/-- Nodes that differ in the identifier of the type and in what is listed as their children. -/
structure SchemaNode.Corresponds (left right : SchemaNode) : Prop where
  type : like.type left.type right.type
  same : right = { left with type := right.type, children := right.children }

inductive Shape.Corresponds : Shape → Shape → Prop
  | attr : Corresponds .attr .attr
  | simple : Corresponds .simple .simple
  | anything : Corresponds .anything .anything
  | complex {content content'} (h : like.constructs content content') :
    Corresponds (.complex content) (.complex content')
  | textOnly {derivation derivation'} (h : derivation.Corresponds like derivation') :
    Corresponds (.textOnly derivation) (.textOnly derivation')
  | derived {derivation derivation'} (h : derivation.Corresponds like derivation') :
    Corresponds (.derived derivation) (.derived derivation')
  | recursive : Corresponds .recursive .recursive

structure Classification.Corresponds (left right : Classification) : Prop where
  shape : left.shape.Corresponds like right.shape
  isHead : left.isHead = right.isHead
  isRepeating : left.isRepeating = right.isRepeating

end Components

section Shapes

variable {like : Correspondence}

theorem TypeDefinition.Corresponds.isComplex_eq {left right : TypeDefinition}
    (h : left.Corresponds like right) : left.isComplex = right.isComplex := by
  cases h <;> rfl

theorem Shape.ofDefinition_corresponds {definition definition' : TypeDefinition}
    (h : definition.Corresponds like definition') :
    (Shape.ofDefinition definition).Corresponds like (Shape.ofDefinition definition') := by
  cases h with
  | builtin =>
    unfold ofDefinition
    dsimp only
    split
    · exact .anything
    · exact .simple
  | simple => exact .simple
  | complex hmodel =>
    unfold ofDefinition
    dsimp only
    generalize ComplexType.model _ = model at hmodel
    generalize ComplexType.model _ = model' at hmodel
    cases hmodel with
    | textOnly hderivation => exact .textOnly hderivation
    | derived hderivation => exact .derived hderivation
    | constructs hconstructs => exact .complex hconstructs

theorem Shape.Corresponds.name_eq {shape shape' : Shape} (h : shape.Corresponds like shape') :
    shape.name = shape'.name := by
  cases h <;> rfl

end Shapes

theorem Classification.Corresponds.name_eq {like : Correspondence} {left right : Classification}
    (h : left.Corresponds like right) : left.name = right.name := by
  rw [name, name, h.shape.name_eq, h.isHead, h.isRepeating]

/-- Types that both tables say the same about. -/
structure TypeTable.SameAnswers (like : Correspondence) (left right : TypeTable)
    (type type' : TypeId) : Prop where
  definition : (left.definition type).Corresponds like (right.definition type')
  enumeration : left.enumeration type = right.enumeration type'
  isComboUnion : left.isComboUnion type = right.isComboUnion type'
  isLanguage : left.isLanguage type = right.isLanguage type'
  isBoolean : left.isBoolean type = right.isBoolean type'

theorem TypeTable.SameAnswers.isEnumeration {like : Correspondence} {left right : TypeTable}
    {type type' : TypeId} (h : left.SameAnswers like right type type') :
    left.isEnumeration type = right.isEnumeration type' := by
  rw [TypeTable.isEnumeration, TypeTable.isEnumeration, h.enumeration]

namespace Compile

/-- All questions are answered in corresponding ways. -/
structure Scope.Corresponds (like : Correspondence) (left right : Scope) : Prop where
  mode : left.mode = right.mode
  root : left.root = right.root
  nodeOf? : ∀ address, Option.Rel (SchemaNode.Corresponds like) (left.index.nodeOf? address)
    (right.index.nodeOf? address)
  hasMultiSelect : ∀ address,
    left.index.hasMultiSelect address = right.index.hasMultiSelect address
  types : ∀ type type', like.type type type' → left.types.SameAnswers like right.types type type'
  resolve? : ∀ reference reference', like.ref reference reference' →
    Option.Rel like.type (left.types.resolve? reference) (right.types.resolve? reference')
  modelGroup? : ∀ name, Option.Rel (ModelGroup.Corresponds like)
    (left.index.set.modelGroup? name) (right.index.set.modelGroup? name)
  groupAttributes : ∀ here name, Together (List.Forall₂ like.use)
    (left.groupAttributes here name) (right.groupAttributes here name)
  elementName : ∀ reference reference', like.element reference reference' →
    left.index.elementName reference = right.index.elementName reference'
  attributeName : ∀ use use', like.use use use' →
    left.index.attributeName use = right.index.attributeName use'
  wildcardName : left.index.wildcardName = right.index.wildcardName
  walkDepth : left.index.set.walkDepth = right.index.set.walkDepth
  heights : ∀ constructs constructs', like.constructs constructs constructs' →
    Construct.heights constructs = Construct.heights constructs'
  attributes : ∀ constructs constructs', like.constructs constructs constructs' →
    List.Forall₂ (Construct.Corresponds like) (constructs.filter Construct.isAttribute)
      (constructs'.filter Construct.isAttribute)
  others : ∀ constructs constructs', like.constructs constructs constructs' →
    List.Forall₂ (Construct.Corresponds like) (constructs.filter (!·.isAttribute))
      (constructs'.filter (!·.isAttribute))

namespace Scope.Corresponds

variable {like : Correspondence} {scope scope' : Scope} (h : scope.Corresponds like scope')

include h

section Answers

variable (address : Address)

theorem isEdit_eq : scope.isEdit = scope'.isEdit := by rw [isEdit, isEdit, h.mode]

theorem level_eq : scope.level address = scope'.level address := by rw [level, level, h.root]

theorem isRepeating_eq {node node' : SchemaNode} (hnode : node.Corresponds like node') :
    node.isRepeating scope.index.set.types = node'.isRepeating scope'.index.set.types := by
  have henumeration := (h.types _ _ hnode.type).isEnumeration
  unfold Scope.types at henumeration
  rw [hnode.same]
  simp only [SchemaNode.isRepeating, SchemaNode.isAttribute, henumeration]

theorem indexIsRepeating_eq : scope.index.isRepeating address = scope'.index.isRepeating address :=
  any_eq_of_rel (h.nodeOf? address) fun _ _ hnode => h.isRepeating_eq hnode

theorem isRequired_eq : scope.index.isRequired address = scope'.index.isRequired address :=
  any_eq_of_rel (h.nodeOf? address) fun _ _ hnode => by rw [hnode.same]

theorem isInChoice_eq : scope.index.isInChoice address = scope'.index.isInChoice address := by
  have hcompositor : (scope.index.nodeOf? address).bind SchemaNode.compositor =
      (scope'.index.nodeOf? address).bind SchemaNode.compositor :=
    bind_eq_of_rel (h.nodeOf? address) fun _ _ hnode => by rw [hnode.same]
  rw [SchemaIndex.isInChoice, SchemaIndex.isInChoice, hcompositor]

theorem repeatingSingletonOf?_eq :
    scope.index.repeatingSingletonOf? address = scope'.index.repeatingSingletonOf? address :=
  bind_eq_of_rel (h.nodeOf? address) fun _ _ hnode => by rw [hnode.same]

theorem isRequiredBranch_eq :
    scope.index.isRequiredBranch address = scope'.index.isRequiredBranch address := by
  refine any_eq_of_rel (h.nodeOf? address) fun node node' hnode => ?_
  have hcomplex := (h.types _ _ hnode.type).definition.isComplex_eq
  unfold Scope.types at hcomplex
  rw [hcomplex, hnode.same]
  rfl

theorem node : Together (SchemaNode.Corresponds like) (scope.node address)
    (scope'.node address) := by
  have hnode := h.nodeOf? address
  unfold Scope.node
  generalize scope.index.nodeOf? address = found at hnode
  generalize scope'.index.nodeOf? address = found' at hnode
  cases hnode with
  | none => exact .error _
  | some hnode => exact .ok hnode

theorem shape_corresponds {node node' : SchemaNode} (hnode : node.Corresponds like node')
    {type type' : TypeId} (htype : like.type type type') :
    (Shape.ofNode scope.types node type).Corresponds like
      (Shape.ofNode scope'.types node' type') := by
  have hrecursive : node'.isRecursive = node.isRecursive := by rw [hnode.same]
  have hkind : node'.kind = node.kind := by rw [hnode.same]
  unfold Shape.ofNode
  rw [hrecursive, hkind]
  split
  · exact .recursive
  · cases node.kind with
    | element => exact Shape.ofDefinition_corresponds (h.types _ _ htype).definition
    | attr => exact .attr
    | wildcard => exact .anything

theorem classify : Together (Classification.Corresponds like) (scope.classify address)
    (scope'.classify address) := by
  refine (h.node address).bind fun node node' hnode => ?_
  refine .ok ⟨h.shape_corresponds hnode hnode.type, ?_, ?_⟩
  · rw [hnode.same]
    rfl
  · rw [hnode.same, h.indexIsRepeating_eq]

theorem baseType (here : Address) {base base' : TypeRef} (hbase : like.ref base base') :
    Together like.type (scope.baseType here base) (scope'.baseType here base') := by
  have htype := h.resolve? _ _ hbase
  unfold Scope.baseType
  generalize scope.types.resolve? base = found at htype
  generalize scope'.types.resolve? base' = found' at htype
  cases htype with
  | none => exact .error _
  | some htype => exact .ok htype

theorem modelGroup (here : Address) (name : ExpandedName) :
    Together (ModelGroup.Corresponds like) (scope.modelGroup here name)
      (scope'.modelGroup here name) := by
  have hgroup := h.modelGroup? name
  unfold Scope.modelGroup
  generalize scope.index.set.modelGroup? name = found at hgroup
  generalize scope'.index.set.modelGroup? name = found' at hgroup
  cases hgroup with
  | none => exact .error _
  | some hgroup => exact .ok hgroup

theorem elementName_eq {reference reference' : ElementRef}
    (href : like.element reference reference') :
    scope.elementName reference = scope'.elementName reference' := by
  rw [Scope.elementName, Scope.elementName, h.elementName _ _ href]

theorem attributeName_eq {use use' : AttributeDeclaration} (huse : like.use use use') :
    scope.attributeName use = scope'.attributeName use' := by
  rw [Scope.attributeName, Scope.attributeName, h.attributeName _ _ huse]

theorem memberNames_eq (here : Address) (name : PrefixedName) :
    scope.memberNames here name = scope'.memberNames here name := by
  have hnode := h.nodeOf? (here.child name)
  unfold Scope.memberNames
  generalize scope.index.nodeOf? (here.child name) = found at hnode
  generalize scope'.index.nodeOf? (here.child name) = found' at hnode
  cases hnode with
  | none => rfl
  | @some node node' hnode =>
    have hhead : node'.isSubstitutionHead = node.isSubstitutionHead := by
      rw [hnode.same]
      rfl
    have hmembers : node'.members = node.members := by rw [hnode.same]
    simp only [Option.filter_some, hhead]
    cases node.isSubstitutionHead with
    | true => exact hmembers.symm
    | false => rfl

theorem attributesFirst {constructs constructs' : List Construct}
    (hconstructs : like.constructs constructs constructs') :
    List.Forall₂ (Construct.Corresponds like) (attributesFirst constructs)
      (Compile.attributesFirst constructs') :=
  List.rel_append (h.attributes _ _ hconstructs) (h.others _ _ hconstructs)

end Answers

section Fields

variable {node node' : SchemaNode} (hnode : node.Corresponds like node')
  (address : Address)

theorem editing_eq (controls : List TemplateNode) :
    scope.editing controls = scope'.editing controls := by
  rw [editing, editing, h.isEdit_eq]

theorem fieldControls_eq (role : FieldRole) :
    scope.fieldControls address role = scope'.fieldControls address role := by
  cases role <;> simp only [fieldControls, h.isInChoice_eq]

theorem inputOptions_eq {type type' : TypeId} (htype : like.type type type')
    (input : InputKind) : scope.inputOptions type input = scope'.inputOptions type' input := by
  have henumeration := (h.types _ _ htype).enumeration
  cases input <;> first | exact henumeration | rfl

theorem occurrenceControls_eq :
    scope.occurrenceControls address = scope'.occurrenceControls address := by
  simp only [occurrenceControls, h.isInChoice_eq, h.isRequiredBranch_eq,
    h.hasMultiSelect]

theorem headerControls_eq (isRow : Bool) :
    scope.headerControls address isRow = scope'.headerControls address isRow := by
  simp only [headerControls, h.repeatingSingletonOf?_eq, h.isInChoice_eq,
    h.occurrenceControls_eq]

theorem isStartedAbove_eq : scope.isStartedAbove address = scope'.isStartedAbove address := by
  simp only [isStartedAbove, h.repeatingSingletonOf?_eq, h.isRequired_eq]

theorem isShownByOccurrence_eq :
    scope.isShownByOccurrence address = scope'.isShownByOccurrence address := by
  have hhead : (scope.index.nodeOf? address).any SchemaNode.isSubstitutionHead =
      (scope'.index.nodeOf? address).any SchemaNode.isSubstitutionHead :=
    any_eq_of_rel (h.nodeOf? address) fun _ _ hnode => by
      rw [hnode.same]
      rfl
  rw [isShownByOccurrence, isShownByOccurrence, h.indexIsRepeating_eq, hhead]

theorem guarded_eq (nodes : List TemplateNode) :
    scope.guarded address nodes = scope'.guarded address nodes := by
  simp only [guarded, h.isEdit_eq, h.isShownByOccurrence_eq]

include hnode

theorem inputKind_eq {type type' : TypeId} (htype : like.type type type') :
    scope.inputKind node type = scope'.inputKind node' type' := by
  have hname : node'.name = node.name := by rw [hnode.same]
  have hoccurs : node'.occurs = node.occurs := by rw [hnode.same]
  unfold inputKind
  rw [hname, hoccurs, h.isEdit_eq, (h.types _ _ htype).isLanguage, (h.types _ _ htype).isBoolean,
    (h.types _ _ htype).isEnumeration, (h.types _ _ htype).isComboUnion]

omit h in
theorem captionOf_eq (var : Option String) :
    captionOf address node var = captionOf address node' var := by
  rw [hnode.same]
  rfl

theorem scalarField_eq {type type' : TypeId} (htype : like.type type type')
    (role : FieldRole) :
    scope.scalarField address node type role = scope'.scalarField address node' type' role := by
  simp only [scalarField, h.inputKind_eq hnode htype, h.inputOptions_eq htype,
    captionOf_eq hnode address, h.fieldControls_eq, h.editing_eq]

theorem anyField_eq (var : Option String) :
    scope.anyField address node var = scope'.anyField address node' var := by
  simp only [anyField, h.isEdit_eq, captionOf_eq hnode address, h.editing_eq]

theorem header_eq (var : Option String) :
    scope.header address node var = scope'.header address node' var := by
  simp only [header, captionOf_eq hnode address, h.headerControls_eq, h.editing_eq]

theorem fieldRole_eq (row : Option Row) :
    scope.fieldRole address node row = scope'.fieldRole address node' row := by
  have hoccurs : node'.occurs = node.occurs := by rw [hnode.same]
  cases row with
  | some row => rfl
  | none => simp only [fieldRole, hoccurs, h.indexIsRepeating_eq]

omit h in
theorem occurrenceLimit_eq : occurrenceLimit node = occurrenceLimit node' := by
  rw [hnode.same]
  rfl

end Fields

end Scope.Corresponds

section Members

variable (scope : Scope) (here : Address) (constructs : List Construct) (leaves : Leaves)

theorem foldlM_collectLeaf_zero : constructs.foldlM (scope.collectLeaf here 0) leaves =
    if constructs.length = 0 then .ok leaves else .error (.nestedTooDeep here) := by
  cases constructs with
  | nil => rfl
  | cons first others => rfl

/-- Attributes tell no names. -/
theorem foldlM_collectLeaf_succ (depth : Nat) :
    constructs.foldlM (scope.collectLeaf here (depth + 1)) leaves =
      (constructs.filter (!·.isAttribute)).foldlM (scope.collectLeaf here (depth + 1)) leaves := by
  induction constructs generalizing leaves with
  | nil => rfl
  | cons first others ih =>
    rw [List.filter_cons]
    split
    · rw [List.foldlM_cons, List.foldlM_cons]
      exact bind_congr fun leaves => ih leaves
    · rename_i hattribute
      have hskip : scope.collectLeaf here (depth + 1) leaves first = .ok leaves := by
        cases first <;> first | rfl | exact absurd rfl hattribute
      rw [List.foldlM_cons, hskip]
      exact ih leaves

end Members

namespace Scope.Corresponds

variable {like : Correspondence} {scope scope' : Scope} (h : scope.Corresponds like scope')

include h

theorem length_eq {constructs constructs' : List Construct}
    (hconstructs : like.constructs constructs constructs') :
    constructs.length = constructs'.length := by
  have hattributes := (h.attributes _ _ hconstructs).length_eq
  have hothers := (h.others _ _ hconstructs).length_eq
  have hleft := constructs.length_eq_length_filter_add Construct.isAttribute
  have hright := constructs'.length_eq_length_filter_add Construct.isAttribute
  omega

/-- The same names are collected, with the same groups opened, or collecting fails in both. -/
theorem foldlM_collectLeaf_eq (here : Address) (depth : Nat)
    {constructs constructs' : List Construct}
    (hconstructs : like.constructs constructs constructs') (leaves : Leaves) :
    constructs.foldlM (scope.collectLeaf here depth) leaves =
      constructs'.foldlM (scope'.collectLeaf here depth) leaves := by
  induction depth generalizing constructs constructs' leaves with
  | zero => rw [foldlM_collectLeaf_zero, foldlM_collectLeaf_zero, h.length_eq hconstructs]
  | succ depth ih =>
    have heach : ∀ {construct construct' : Construct}, construct.Corresponds like construct' →
        ∀ leaves, scope.collectLeaf here (depth + 1) leaves construct =
          scope'.collectLeaf here (depth + 1) leaves construct' := by
      intro construct construct' hconstruct leaves
      cases hconstruct with
      | element href => simp only [collectLeaf, h.elementName_eq href, h.memberNames_eq]
      | compositor hchildren => simp only [collectLeaf, ih hchildren]
      | wildcard => simp only [collectLeaf, h.wildcardName]
      | @group name occurs =>
        have hgroup := h.modelGroup here name
        simp only [collectLeaf]
        split
        · rfl
        · refine (hgroup.bind fun group group' hgroup => ?_).eq
          exact .of_eq (by rw [ih hgroup.children])
      | _ => rfl
    rw [foldlM_collectLeaf_succ scope, foldlM_collectLeaf_succ scope']
    have hothers := h.others _ _ hconstructs
    generalize constructs.filter (!·.isAttribute) = others at hothers ⊢
    generalize constructs'.filter (!·.isAttribute) = others' at hothers ⊢
    induction hothers generalizing leaves with
    | nil => rfl
    | cons hfirst _ ih =>
      rw [List.foldlM_cons, List.foldlM_cons, heach hfirst]
      exact bind_congr fun leaves => ih leaves

theorem leafNames_eq (here : Address) {constructs constructs' : List Construct}
    (hconstructs : like.constructs constructs constructs') :
    scope.leafNames here constructs = scope'.leafNames here constructs' := by
  have hdepth : scope.leavesDepth constructs = scope'.leavesDepth constructs' := by
    rw [leavesDepth, leavesDepth, h.walkDepth, h.heights _ _ hconstructs]
  rw [leafNames, leafNames, hdepth, h.foldlM_collectLeaf_eq here _ hconstructs]

end Scope.Corresponds

/-- Renderers that make the same of corresponding shapes. -/
def Corresponding (like : Correspondence) (left right : Renderer) : Prop :=
  ∀ address row shape shape', shape.Corresponds like shape' →
    (left address row shape).Alike Eq (right address row shape')

/-- Renderers that make the same of corresponding constructs. -/
def ConstructRenderer.Corresponding (like : Correspondence) (left right : ConstructRenderer) :
    Prop :=
  ∀ construct construct', construct.Corresponds like construct' →
    (left construct).Alike Eq (right construct')

theorem Corresponding.iteration {like : Correspondence} {left right : Renderer}
    (hrender : Corresponding like left right) (address : Address) (isCollapsible : Bool)
    {shape shape' : Shape}
    (hshape : shape.Corresponds like shape') :
    (iteration left address isCollapsible shape).Alike Eq
      (iteration right address isCollapsible shape') :=
  .bind_eq (hrender _ _ _ _ hshape) fun _ => .pure rfl

namespace Scope.Corresponds

variable {like : Correspondence} {scope scope' : Scope} (h : scope.Corresponds like scope')

include h

section Nodes

variable {left right : Renderer}
  (hrender : Corresponding like left right)

include hrender

theorem branch (address : Address) (isCollapsible : Bool) :
    (branch scope left address isCollapsible).Alike Eq
      (Compile.branch scope' right address isCollapsible) := by
  refine .bind (.of_together (h.classify address)) fun _ _ hclassification => ?_
  exact .bind_eq (hrender.iteration address isCollapsible hclassification.shape) fun _ => .pure rfl

theorem branches (here : Address) (address : PrefixedName → Address) (isCollapsible : Bool)
    (names : List PrefixedName) :
    (Logged.collect (fun name => Attempt.orSkip here
      (Compile.branch scope left (address name) isCollapsible)) names).Alike Eq
      (Logged.collect (fun name => Attempt.orSkip here
        (Compile.branch scope' right (address name) isCollapsible)) names) := by
  refine .collect rfl (fun _ _ _ _ hfirst hothers => by rw [hfirst, hothers]) (fun name => ?_) names
  exact Attempt.orSkip_alike (h.branch hrender (address name) isCollapsible) rfl

theorem repetition (address : Address) {node node' : SchemaNode}
    (hnode : node.Corresponds like node') {shape shape' : Shape}
    (hshape : shape.Corresponds like shape') :
    (scope.repetition left address node shape).Alike Eq
      (scope'.repetition right address node' shape') := by
  refine .bind_eq (hrender.iteration address false hshape) fun rows => .pure ?_
  rw [occurrenceLimit_eq hnode, h.isStartedAbove_eq, h.editing_eq, h.editing_eq]

theorem substitution (address : Address) {node node' : SchemaNode}
    (hnode : node.Corresponds like node') :
    (scope.substitution left address node).Alike Eq
      (scope'.substitution right address node') := by
  have hmembers : node'.members = node.members := by rw [hnode.same]
  have hoccurs : node'.occurs = node.occurs := by rw [hnode.same]
  unfold Scope.substitution
  rw [hmembers, hoccurs]
  cases address.parent? with
  | none => exact .throw _
  | some parent =>
    refine .bind_eq (.lift (h.branches hrender address parent.child true node.members)) ?_
    exact fun members => .pure (by rw [h.editing_eq])

theorem renderNode (address : Address) :
    (scope.renderNode left address).Alike Eq (scope'.renderNode right address) := by
  refine .bind (.of_together (h.node address)) fun node node' hnode => ?_
  refine .bind (.of_together (h.classify address)) fun found found' hfound => ?_
  rw [hfound.name_eq, hfound.isHead, hfound.isRepeating]
  refine .after (Attempt.note address (.classified found'.name)) fun _ => ?_
  split
  · exact h.substitution hrender address hnode
  · split
    · exact h.repetition hrender address hnode hfound.shape
    · exact hrender address none _ _ hfound.shape

theorem renderGuarded (address : Address) :
    (scope.renderGuarded left address).Alike Eq (scope'.renderGuarded right address) := by
  refine .bind (Attempt.orSkip_alike (h.renderNode hrender address) rfl) ?_
  rintro nodes _ rfl
  exact .pure (by rw [h.guarded_eq])

theorem alternative (address : Address) :
    (scope.alternative left address).Alike Eq (scope'.alternative right address) :=
  .bind_eq (h.renderNode hrender address) fun _ => .pure rfl

theorem renderChoice (here : Address) (occurs : Occurs) {children children' : List Construct}
    (hchildren : like.constructs children children') :
    (scope.renderChoice left here occurs children).Alike Eq
      (scope'.renderChoice right here occurs children') := by
  refine .bind_eq (.of_together (.of_eq (h.leafNames_eq here hchildren))) fun members => ?_
  split
  · refine .bind_eq (.lift (h.branches hrender here here.child false members)) fun branches => ?_
    exact .pure (by rw [h.editing_eq])
  · have halternatives : (Logged.collect (fun name => Attempt.orSkip here
        (scope.alternative left (here.child name))) members).Alike Eq
        (Logged.collect (fun name => Attempt.orSkip here
          (scope'.alternative right (here.child name))) members) :=
      .collect rfl (fun _ _ _ _ hfirst hothers => by rw [hfirst, hothers])
        (fun name => Attempt.orSkip_alike (h.alternative hrender (here.child name)) rfl) members
    exact .bind_eq (.lift halternatives) fun branches => .pure (by rw [h.editing_eq])

theorem renderUse (here : Address) {use use' : AttributeDeclaration}
    (huse : like.use use use') :
    (scope.renderUse left here use).Alike Eq (scope'.renderUse right here use') :=
  .bind_eq (.of_together (.of_eq (h.attributeName_eq huse))) fun name =>
    .lift (h.renderGuarded hrender (here.attr name))

end Nodes

section Content

variable {left right : ConstructRenderer}
  (heach : ConstructRenderer.Corresponding like left right)
  (here : Address)

include heach

theorem renderAll_alike {constructs constructs' : List Construct}
    (hconstructs : like.constructs constructs constructs') :
    (renderAll left here constructs).Alike Eq (renderAll right here constructs') :=
  .collect_forall₂ (h.attributesFirst hconstructs) fun _ _ hconstruct =>
    Attempt.orSkip_alike (heach _ _ hconstruct) rfl

theorem renderText (row : Option Row) (steps : Nat) {derivation derivation' : Derivation}
    (hderivation : derivation.Corresponds like derivation') :
    (scope.renderText left here row steps derivation).Alike Eq
      (scope'.renderText right here row steps derivation') := by
  induction steps generalizing derivation derivation' with
  | zero => exact .throw _
  | succ steps ih =>
    unfold Scope.renderText
    rw [← hderivation.method]
    split
    · exact .after (Attempt.note here _) fun _ => .pure rfl
    · refine .bind (.of_together (h.baseType here hderivation.base)) fun type type' htype => ?_
      refine .bind (.of_together (h.node here)) fun node node' hnode => ?_
      have hothers : ∀ text : List TemplateNode, Attempt.Alike Eq (do
          let others ← liftM (renderAll left here derivation.children)
          return [TemplateNode.group .box (text ++ others)]) (do
          let others ← liftM (renderAll right here derivation'.children)
          return [TemplateNode.group .box (text ++ others)]) := fun _ =>
        .bind_eq (.lift (h.renderAll_alike heach here hderivation.children)) fun _ => .pure rfl
      have hfield := h.scalarField_eq hnode here htype
      have hshape := h.shape_corresponds hnode htype
      generalize Shape.ofNode scope.types node type = shape at hshape
      generalize Shape.ofNode scope'.types node' type' = shape' at hshape
      cases hshape with
      | textOnly hinner => exact .bind_eq (ih hinner) hothers
      | _ =>
        refine .bind_eq (.pure ?_) hothers
        rw [hfield, h.fieldRole_eq hnode]

theorem renderDerivation (steps : Nat) {derivation derivation' : Derivation}
    (hderivation : derivation.Corresponds like derivation') :
    (scope.renderDerivation left here steps derivation).Alike Eq
      (scope'.renderDerivation right here steps derivation') := by
  induction steps generalizing derivation derivation' with
  | zero =>
    obtain ⟨method, base, children⟩ := derivation
    obtain ⟨_, base', children'⟩ := derivation'
    obtain ⟨rfl, hbase, hchildren⟩ := hderivation
    cases method with
    | extension => exact .throw _
    | restriction =>
      exact .after (Attempt.note here .restatedContent) fun _ =>
        .lift (h.renderAll_alike heach here hchildren)
  | succ steps ih =>
    obtain ⟨method, base, children⟩ := derivation
    obtain ⟨_, base', children'⟩ := derivation'
    obtain ⟨rfl, hbase, hchildren⟩ := hderivation
    cases method with
    | restriction =>
      exact .after (Attempt.note here .restatedContent) fun _ =>
        .lift (h.renderAll_alike heach here hchildren)
    | extension =>
      refine .bind (.of_together (h.baseType here hbase)) fun type type' htype => ?_
      have hown : ∀ inherited : List TemplateNode, Attempt.Alike Eq (do
          let others ← liftM (renderAll left here children)
          return inherited ++ others) (do
          let others ← liftM (renderAll right here children')
          return inherited ++ others) := fun _ =>
        .bind_eq (.lift (h.renderAll_alike heach here hchildren)) fun _ => .pure rfl
      have hdefinition := (h.types _ _ htype).definition
      generalize scope.types.definition type = definition at hdefinition
      generalize scope'.types.definition type' = definition' at hdefinition
      cases hdefinition with
      | builtin => exact .bind_eq (.pure rfl) hown
      | simple => exact .bind_eq (.pure rfl) hown
      | complex hmodel =>
        dsimp only
        generalize ComplexType.model _ = model at hmodel
        generalize ComplexType.model _ = model' at hmodel
        cases hmodel with
        | constructs hconstructs =>
          exact .bind_eq (.lift (h.renderAll_alike heach here hconstructs)) hown
        | derived hinner => exact .bind_eq (ih hinner) hown
        | textOnly hinner => exact .bind_eq (h.renderText heach here none _ hinner) hown

end Content

section Constructs

variable {left right : Renderer}
  (hrender : Corresponding like left right)

include hrender

theorem renderConstruct (here : Address) (depth : Nat) :
    ConstructRenderer.Corresponding like
      (scope.renderConstruct left here depth) (scope'.renderConstruct right here depth) := by
  induction depth with
  | zero => exact fun _ _ _ => .throw _
  | succ depth ih =>
    intro construct construct' hmatches
    cases hmatches with
    | attributeUse huse => exact h.renderUse hrender here huse
    | attributeGroup =>
      refine .bind (.of_together (h.groupAttributes here _)) fun uses uses' huses => .lift ?_
      exact .collect_forall₂ huses fun _ _ huse =>
        Attempt.orSkip_alike (h.renderUse hrender here huse) rfl
    | simpleContent hbase hchildren =>
      exact h.renderText ih here none _ ⟨rfl, hbase, hchildren⟩
    | complexContent hbase hchildren => exact h.renderDerivation ih here _ ⟨rfl, hbase, hchildren⟩
    | @compositor kind occurs _ _ hchildren =>
      have hnodes := Attempt.Alike.lift (h.renderAll_alike ih here hchildren)
      cases kind with
      | choice => exact h.renderChoice hrender here occurs hchildren
      | all => exact .bind_eq hnodes fun _ => .pure rfl
      | sequence => exact .bind_eq hnodes fun _ => .pure rfl
    | @group name occurs =>
      refine .bind (.of_together (h.modelGroup here name)) fun group group' hgroup => ?_
      have hkind : group'.kind = group.kind := by rw [hgroup.same]
      have hoccurs : group'.effectiveOccurs occurs = group.effectiveOccurs occurs := by
        rw [hgroup.same]
        rfl
      rw [hkind, hoccurs]
      split
      · exact h.renderChoice hrender here _ hgroup.children
      · exact .lift (h.renderAll_alike ih here hgroup.children)
    | element href =>
      exact .bind_eq (.of_together (.of_eq (h.elementName_eq href))) fun name =>
        .lift (h.renderGuarded hrender (here.child name))
    | wildcard =>
      unfold Scope.renderConstruct
      rw [h.wildcardName]
      exact .lift (h.renderGuarded hrender (here.child _))
    | other => exact .throw _

end Constructs

theorem renderElement (address : Address) (row : Option Row)
    {left right : Attempt (List TemplateNode)} (hcontent : left.Alike Eq right) :
    (scope.renderElement address row left).Alike Eq (scope'.renderElement address row right) := by
  refine .bind (.of_together (h.node address)) fun node node' hnode => ?_
  refine .bind_eq hcontent fun nodes => ?_
  rw [h.header_eq hnode address (row.map Row.var), h.level_eq]
  split
  · exact .pure rfl
  · exact .pure rfl

theorem constructDepth_eq : scope.constructDepth = scope'.constructDepth := by
  rw [constructDepth, constructDepth, h.walkDepth]

/-- Every level of addresses is rendered the same once the levels below are. -/
theorem corresponding_renderWithin (depth levels : Nat) :
    Corresponding like (scope.renderWithin depth levels) (scope'.renderWithin depth levels) := by
  induction levels with
  | zero => exact fun _ _ _ _ _ => .throw _
  | succ levels ih =>
    intro address row shape shape' hshape
    have heach := h.renderConstruct ih address depth
    unfold renderWithin
    have hscalar : ∀ role, Attempt.Alike Eq (do
        let node ← liftM (scope.node address)
        return [scope.scalarField address node node.type role]) (do
        let node ← liftM (scope'.node address)
        return [scope'.scalarField address node node.type role]) := fun role =>
      .bind (.of_together (h.node address)) fun _ _ hnode =>
        .pure (by rw [h.scalarField_eq hnode address hnode.type])
    cases hshape with
    | recursive => exact .pure rfl
    | attr => exact hscalar (scalarRole row)
    | simple => exact hscalar (scalarRole row)
    | anything =>
      exact .bind (.of_together (h.node address)) fun _ _ hnode =>
        .pure (by rw [h.anyField_eq hnode])
    | complex hcontent =>
      exact h.renderElement address row (.lift (h.renderAll_alike heach address hcontent))
    | derived hderivation =>
      exact h.renderElement address row (h.renderDerivation heach address _ hderivation)
    | textOnly hderivation => exact h.renderText heach address row _ hderivation

theorem corresponding_render (levels : Nat) :
    Corresponding like (scope.render levels) (scope'.render levels) := by
  unfold render
  rw [← h.constructDepth_eq]
  exact h.corresponding_renderWithin scope.constructDepth levels

end Scope.Corresponds

end Compile

namespace SchemaIndex

variable {like : Correspondence} {left right : SchemaIndex}

/-- Indexes that answer in corresponding ways are compiled to the same templates, with the same
logs. -/
theorem compile_eq_of_corresponds {mode : Mode} {address : Address}
    (h : (Compile.Scope.mk left mode address).Corresponds like ⟨right, mode, address⟩)
    (hheight : left.height = right.height) :
    left.compile mode address = right.compile mode address := by
  have hnode := h.nodeOf? address
  have hrendered : left.rendered mode address = right.rendered mode address := by
    have halike := h.renderGuarded (h.corresponding_render left.height) address
    unfold rendered
    rw [← hheight]
    exact Logged.ext halike.value halike.log
  unfold compile
  rw [hrendered]
  dsimp only at hnode
  generalize left.nodeOf? address = found at hnode
  generalize right.nodeOf? address = found' at hnode
  cases hnode with
  | none => rfl
  | some => rfl

end SchemaIndex

end SchemaForms
