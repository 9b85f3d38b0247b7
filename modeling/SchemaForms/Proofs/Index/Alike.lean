import SchemaForms.Index.Query
import SchemaForms.Proofs.Compile.Alike
import SchemaForms.Proofs.Schema.Questions

/-!
Walks in schemas that say the same. They describe the same addresses with the same warnings, and
the nodes differ in the identifiers of types only. A walk asks whether it is already inside a
complex type, and since the same complex type has one identifier on each side, both walks are inside
of it or neither is.
-/

namespace SchemaForms

/-- Nodes that differ in the identifier of the type only. -/
structure SchemaNode.Same (R : TypeId → TypeId → Prop) (left right : SchemaNode) : Prop where
  type : R left.type right.type
  same : right = { left with type := right.type }

theorem SchemaNode.Same.isElement_eq {R : TypeId → TypeId → Prop} {left right : SchemaNode}
    (h : left.Same R right) : left.isElement = right.isElement := by
  rw [h.same]
  rfl

theorem find?_address_of_same {R : TypeId → TypeId → Prop} {left right : List SchemaNode}
    (h : List.Forall₂ (SchemaNode.Same R) left right) (address : Address) :
    Option.Rel (SchemaNode.Same R) (left.find? (·.address = address))
      (right.find? (·.address = address)) := by
  induction h with
  | nil => exact .none
  | @cons node node' _ _ hfirst _ ih =>
    have haddress : node'.address = node.address := by rw [hfirst.same]
    rw [List.find?_cons, List.find?_cons, haddress]
    split
    · exact .some hfirst
    · exact ih

namespace SchemaSet.Related

variable {pairs : TypeId → TypeId → Prop} {left right : SchemaSet}
  (h : Related pairs left right) {node node' : SchemaNode}
  (hnode : node.Same (SameType pairs left right) node')

include h hnode

theorem isRepeating_eq : node.isRepeating left.types = node'.isRepeating right.types := by
  have henumeration := h.isEnumeration_eq hnode.type
  rw [hnode.same]
  simp only [SchemaNode.isRepeating, SchemaNode.isAttribute, henumeration]

theorem isMultiSelect_eq : node.isMultiSelect left.types = node'.isMultiSelect right.types := by
  have henumeration := h.isEnumeration_eq hnode.type
  rw [hnode.same]
  simp only [SchemaNode.isMultiSelect, SchemaNode.isElement, henumeration]

end SchemaSet.Related

namespace Index

variable {α β : Type}

/-- The same has been described. -/
structure Progress.Same (R : TypeId → TypeId → Prop) (left right : Progress) : Prop where
  nodes : List.Forall₂ (SchemaNode.Same R) left.nodes right.nodes
  warnings : left.warnings = right.warnings

/-- Walks that answer the same and describe the same, if the same was described before. -/
def Parallel (R : TypeId → TypeId → Prop) (left right : Walk α) : Prop :=
  ∀ progress progress', Progress.Same R progress progress' →
    (left.run progress).1 = (right.run progress').1 ∧
      Progress.Same R (left.run progress).2 (right.run progress').2

section Rules

variable {R : TypeId → TypeId → Prop}

theorem Parallel.pure (a : α) : Parallel R (Pure.pure a) (Pure.pure a) :=
  fun _ _ hsame => ⟨rfl, hsame⟩

theorem Parallel.bind {left right : Walk α} {next next' : α → Walk β}
    (h : Parallel R left right) (hnext : ∀ a, Parallel R (next a) (next' a)) :
    Parallel R (left >>= next) (right >>= next') := by
  intro progress progress' hsame
  have hstep := h progress progress' hsame
  rw [StateT.run_bind, StateT.run_bind]
  rcases hrun : left.run progress with ⟨a, reached⟩
  rcases hrun' : right.run progress' with ⟨a', reached'⟩
  rw [hrun, hrun'] at hstep
  obtain ⟨rfl, hafter⟩ : a = a' ∧ Progress.Same R reached reached' := hstep
  exact hnext a reached reached' hafter

theorem Parallel.modify {change change' : Progress → Progress}
    (h : ∀ progress progress', Progress.Same R progress progress' →
      Progress.Same R (change progress) (change' progress')) :
    Parallel R (modify change) (modify change') :=
  fun progress progress' hsame => ⟨rfl, h progress progress' hsame⟩

theorem parallel_warn (warning : IndexWarning) : Parallel R (warn warning) (warn warning) :=
  .modify fun _ _ hsame => ⟨hsame.nodes, by rw [hsame.warnings]⟩

theorem Progress.Same.node? {progress progress' : Progress}
    (h : Progress.Same R progress progress') (address : Address) :
    Option.Rel (SchemaNode.Same R) (progress.node? address) (progress'.node? address) :=
  find?_address_of_same h.nodes address

theorem parallel_isKnown (address : Address) :
    Parallel R (isKnown address) (isKnown address) :=
  fun _ _ hsame => ⟨isSome_eq_of_rel (hsame.node? address), hsame⟩

theorem parallel_add {node node' : SchemaNode} (h : node.Same R node') :
    Parallel R (modify (·.add node)) (modify (·.add node')) :=
  .modify fun _ _ hsame => ⟨List.rel_append hsame.nodes (.cons h .nil), hsame.warnings⟩

theorem parallel_forM {left : List α} {right : List β} {S : α → β → Prop} {step : α → Walk Unit}
    {step' : β → Walk Unit} (h : List.Forall₂ S left right)
    (hstep : ∀ a b, S a b → Parallel R (step a) (step' b)) :
    Parallel R (left.forM step) (right.forM step') := by
  induction h with
  | nil => exact .pure _
  | cons hfirst _ ih => exact .bind (hstep _ _ hfirst) fun _ => ih

theorem parallel_walkAll {S : Construct → Construct → Prop} {left right : List Construct}
    {walk walk' : Construct → Walk (List Address)} (h : List.Forall₂ S left right)
    (hwalk : ∀ a b, S a b → Parallel R (walk a) (walk' b)) :
    Parallel R (walkAll walk left) (walkAll walk' right) := by
  induction h with
  | nil => exact .pure _
  | cons hfirst _ ih =>
    exact .bind (hwalk _ _ hfirst) fun _ => .bind ih fun _ => .pure _

end Rules

section Walks

variable {pairs : TypeId → TypeId → Prop} {left right : SchemaSet}
  (h : SchemaSet.Related pairs left right) (namespaces : InstanceNamespaces)

/-- The complex types of two paths are the same, and so are the groups. -/
structure Path.Same (pairs : TypeId → TypeId → Prop) (left right : SchemaSet)
    (path path' : Path) : Prop where
  types : List.Forall₂ (fun type type' => SchemaSet.SameType pairs left right type type' ∧
    (left.types.definition type).isComplex) path.types path'.types
  groups : path.groups = path'.groups

/-- Walks of content that go in parallel from the same paths. -/
def ParallelContent (pairs : TypeId → TypeId → Prop) (left right : SchemaSet)
    (walk walk' : ContentWalk) : Prop :=
  ∀ path path' parent compositor construct construct', Path.Same pairs left right path path' →
    construct.Matches (SchemaSet.matching pairs left right) construct' →
      Parallel (SchemaSet.SameType pairs left right) (walk path parent compositor construct)
        (walk' path' parent compositor construct')

include h

theorem Path.Same.mem_iff {path path' : Path} (hpath : Path.Same pairs left right path path')
    {type type' : TypeId} (hsame : SchemaSet.SameType pairs left right type type')
    (hcomplex : (left.types.definition type).isComplex) :
    type ∈ path.types ↔ type' ∈ path'.types := by
  have htypes := hpath.types
  generalize path.types = types at htypes
  generalize path'.types = types' at htypes
  induction htypes with
  | nil => simp
  | cons hfirst _ ih =>
    rw [List.mem_cons, List.mem_cons]
    exact or_congr (h.eq_iff_eq hsame hcomplex hfirst.1 hfirst.2) ih

omit h in
theorem Path.Same.enterType {path path' : Path} (hpath : Path.Same pairs left right path path')
    {type type' : TypeId} (hsame : SchemaSet.SameType pairs left right type type')
    (hcomplex : (left.types.definition type).isComplex) :
    Path.Same pairs left right { path with types := type :: path.types }
      { path' with types := type' :: path'.types } :=
  ⟨.cons ⟨hsame, hcomplex⟩ hpath.types, hpath.groups⟩

omit h in
theorem Path.Same.enterGroup {path path' : Path} (hpath : Path.Same pairs left right path path')
    (name : ExpandedName) :
    Path.Same pairs left right { path with groups := name :: path.groups }
      { path' with groups := name :: path'.groups } :=
  ⟨hpath.types, congrArg (name :: ·) hpath.groups⟩

theorem forall₂_standIns (head : ExpandedName) :
    List.Forall₂ (fun entry entry' => entry.1 = entry'.1 ∧
      entry.2.Matches (SchemaSet.matching pairs left right) entry'.2)
      (standIns ⟨left, namespaces⟩ head) (standIns ⟨right, namespaces⟩ head) := by
  unfold standIns
  rw [h.substitutionMembers_eq]
  refine List.rel_filterMap (R := Eq) ?_ (List.forall₂_eq_eq_eq ▸ rfl)
  rintro name _ rfl
  have helement := h.element? name
  dsimp only
  generalize left.element? name = found at helement
  generalize right.element? name = found' at helement
  cases helement with
  | none => exact .none
  | some hmatches => exact .some ⟨rfl, hmatches⟩

theorem memberNames_eq {declaration declaration' : ElementDeclaration}
    (hmatches : declaration.Matches (SchemaSet.matching pairs left right) declaration') :
    memberNames ⟨left, namespaces⟩ declaration = memberNames ⟨right, namespaces⟩ declaration' := by
  have hstandIns : (standIns ⟨left, namespaces⟩ declaration.name).map Prod.fst =
      (standIns ⟨right, namespaces⟩ declaration.name).map Prod.fst :=
    map_eq_of_forall₂ (forall₂_standIns h namespaces declaration.name) fun _ _ hentry => hentry.1
  unfold memberNames
  rw [hmatches.same]
  simp only [hstandIns]

theorem repeatingSingleton?_eq {progress progress' : Progress}
    (hsame : Progress.Same (SchemaSet.SameType pairs left right) progress progress')
    (children : List Address) :
    repeatingSingleton? ⟨left, namespaces⟩ progress children =
      repeatingSingleton? ⟨right, namespaces⟩ progress' children := by
  unfold repeatingSingleton?
  split
  · rename_i only _
    refine bind_eq_of_rel (hsame.node? only) fun node node' hnode => ?_
    rw [hnode.isElement_eq, h.isComplex_eq hnode.type, h.isRepeating_eq hnode]
  · rfl

theorem parallel_walkAttribute (parent : Address) {use use' : AttributeDeclaration}
    (huse : use.Matches (SchemaSet.matching pairs left right) use') :
    Parallel (SchemaSet.SameType pairs left right)
      (walkAttribute ⟨left, namespaces⟩ parent use)
      (walkAttribute ⟨right, namespaces⟩ parent use') := by
  have htype := h.attributeType? huse
  unfold walkAttribute
  rw [← h.attributeName_eq namespaces huse]
  cases left.attributeName namespaces use with
  | error error => exact .bind (parallel_warn _) fun _ => .pure _
  | ok name =>
    dsimp only
    generalize left.attributeType? use = found at htype
    generalize right.attributeType? use' = found' at htype
    cases htype with
    | none => exact .bind (parallel_warn _) fun _ => .pure _
    | some htype =>
      refine .bind (parallel_isKnown _) fun known => ?_
      split
      · exact .pure _
      · refine .bind (parallel_add ⟨htype, ?_⟩) fun _ => .pure _
        rw [huse.same]

theorem parallel_walkWildcard (parent : Address) (occurs : Occurs)
    (compositor : Option CompositorContext) :
    Parallel (SchemaSet.SameType pairs left right)
      (walkWildcard ⟨left, namespaces⟩ parent occurs compositor)
      (walkWildcard ⟨right, namespaces⟩ parent occurs compositor) := by
  have htype := h.namedType? (schemaName "anyType")
  unfold walkWildcard
  rw [← h.wildcardName_eq]
  dsimp only
  generalize left.types.namedType? (schemaName "anyType") = found at htype
  generalize right.types.namedType? (schemaName "anyType") = found' at htype
  cases htype with
  | none => exact .pure _
  | some htype =>
    refine .bind (parallel_isKnown _) fun known => ?_
    split
    · exact .pure _
    · exact .bind (parallel_add ⟨htype, rfl⟩) fun _ => .pure _

omit h in
theorem ParallelContent.walkAll {walk walk' : ContentWalk}
    (hwalk : ParallelContent pairs left right walk walk') {path path' : Path}
    (hpath : Path.Same pairs left right path path') (parent : Address)
    (compositor : Option CompositorContext) {constructs constructs' : List Construct}
    (hmatch : Construct.AllMatch (SchemaSet.matching pairs left right) constructs constructs') :
    Parallel (SchemaSet.SameType pairs left right)
      (Index.walkAll (walk path parent compositor) constructs)
      (Index.walkAll (walk' path' parent compositor) constructs') :=
  parallel_walkAll hmatch fun _ _ hconstruct => hwalk _ _ _ _ _ _ hpath hconstruct

theorem isRecursive_eq {path path' : Path} (hpath : Path.Same pairs left right path path')
    {type type' : TypeId} (hsame : SchemaSet.SameType pairs left right type type') :
    ((left.types.definition type).isComplex && decide (type ∈ path.types)) =
      ((right.types.definition type').isComplex && decide (type' ∈ path'.types)) := by
  rw [← h.isComplex_eq hsame]
  cases hcomplex : (left.types.definition type).isComplex with
  | false => rfl
  | true => rw [decide_eq_decide.mpr (hpath.mem_iff h hsame hcomplex)]

theorem parallel_setChildren (address : Address) (children : List Address) :
    Parallel (SchemaSet.SameType pairs left right)
      (modify fun progress => progress.setChildren address children
        (repeatingSingleton? ⟨left, namespaces⟩ progress children))
      (modify fun progress => progress.setChildren address children
        (repeatingSingleton? ⟨right, namespaces⟩ progress children)) := by
  refine .modify fun progress progress' hsame => ⟨?_, hsame.warnings⟩
  rw [repeatingSingleton?_eq h namespaces hsame]
  refine List.rel_map (fun node node' hnode => ?_) hsame.nodes
  have haddress : node'.address = node.address := by rw [hnode.same]
  rw [haddress]
  split
  · exact ⟨hnode.type, by rw [hnode.same]⟩
  · exact hnode

/-- The members of a head are visited beside it, at the same parent with the same names. -/
theorem parallel_beside (head : ExpandedName)
    (visit visit' : Address → PrefixedName × ElementDeclaration → Walk Unit)
    (hvisit : ∀ parent name member member',
      member.Matches (SchemaSet.matching pairs left right) member' →
        Parallel (SchemaSet.SameType pairs left right) (visit parent (name, member))
          (visit' parent (name, member'))) (parent? : Option Address) :
    Parallel (SchemaSet.SameType pairs left right)
      (match parent? with
        | none => pure ()
        | some parent => (standIns ⟨left, namespaces⟩ head).forM (visit parent))
      (match parent? with
        | none => pure ()
        | some parent => (standIns ⟨right, namespaces⟩ head).forM (visit' parent)) := by
  cases parent? with
  | none => exact .pure _
  | some parent =>
    refine parallel_forM (forall₂_standIns h namespaces _) ?_
    rintro ⟨name, member⟩ ⟨name', member'⟩ ⟨hname, hmember⟩
    cases hname
    exact hvisit parent name member member' hmember

theorem parallel_walkElement {walk walk' : ContentWalk}
    (hwalk : ParallelContent pairs left right walk walk') (depth : Nat) {path path' : Path}
    (hpath : Path.Same pairs left right path path') (address : Address)
    {declaration declaration' : ElementDeclaration} (occurs : Occurs)
    (compositor : Option CompositorContext)
    (hdeclaration : declaration.Matches (SchemaSet.matching pairs left right) declaration') :
    Parallel (SchemaSet.SameType pairs left right)
      (walkElement ⟨left, namespaces⟩ walk depth path address declaration occurs compositor)
      (walkElement ⟨right, namespaces⟩ walk' depth path' address declaration' occurs
        compositor) := by
  induction depth generalizing path path' address declaration declaration' with
  | zero => exact parallel_warn _
  | succ depth ih =>
    have htype := h.resolve? hdeclaration.type
    have hmembers := memberNames_eq h namespaces hdeclaration
    have hname : declaration'.name = declaration.name := by rw [hdeclaration.same]
    have habstract : declaration'.isAbstract = declaration.isAbstract := by rw [hdeclaration.same]
    unfold walkElement
    rw [hname, habstract, ← hmembers]
    refine .bind (parallel_isKnown _) fun known => ?_
    split
    · exact .pure _
    dsimp only
    generalize left.types.resolve? declaration.type = found at htype
    generalize right.types.resolve? declaration'.type = found' at htype
    cases htype with
    | none => exact parallel_warn _
    | @some type type' htype =>
      have hrecursive := isRecursive_eq h hpath htype
      have hdefinition := h.definition htype
      have hbeside := parallel_beside h namespaces declaration.name
        (fun parent entry => walkElement ⟨left, namespaces⟩ walk depth path (parent.child entry.1)
          entry.2 occurs compositor)
        (fun parent entry => walkElement ⟨right, namespaces⟩ walk' depth path'
          (parent.child entry.1) entry.2 occurs compositor)
        (fun _ _ _ _ hmember => ih hpath _ hmember) address.parent?
      dsimp only
      rw [← hrecursive]
      generalize ((left.types.definition type).isComplex && decide (type ∈ path.types)) =
        isRecursive
      refine .bind (parallel_add ⟨htype, rfl⟩) fun _ => ?_
      generalize hfound : left.types.definition type = definition at hdefinition
      generalize right.types.definition type' = definition' at hdefinition
      cases hdefinition with
      | builtin => exact hbeside
      | simple => exact hbeside
      | complex _ hcontent =>
        cases isRecursive with
        | true => exact hbeside
        | false =>
          have hinner := hpath.enterType htype (by rw [hfound]; rfl)
          exact .bind (hwalk.walkAll hinner address none hcontent) fun children =>
            .bind (parallel_setChildren h namespaces address children) fun _ => hbeside

theorem parallel_walkBase {walk walk' : ContentWalk}
    (hwalk : ParallelContent pairs left right walk walk') {path path' : Path}
    (hpath : Path.Same pairs left right path path') (parent : Address) {base base' : TypeRef}
    (hbase : (SchemaSet.matching pairs left right).ref base base') :
    Parallel (SchemaSet.SameType pairs left right)
      (walkBase ⟨left, namespaces⟩ walk path parent base)
      (walkBase ⟨right, namespaces⟩ walk' path' parent base') := by
  have htype := h.resolve? hbase
  unfold walkBase
  dsimp only
  generalize left.types.resolve? base = found at htype
  generalize right.types.resolve? base' = found' at htype
  cases htype with
  | none => exact .pure _
  | @some type type' htype =>
    have hdefinition := h.definition htype
    dsimp only
    generalize hfound : left.types.definition type = definition at hdefinition
    generalize right.types.definition type' = definition' at hdefinition
    cases hdefinition with
    | builtin => exact .pure _
    | simple => exact .pure _
    | complex _ hcontent =>
      have hcomplex : (left.types.definition type).isComplex := by rw [hfound]; rfl
      have hmem := hpath.mem_iff h htype hcomplex
      dsimp only [TypeDefinition.complex?]
      by_cases hinside : type ∈ path.types
      · rw [if_pos hinside, if_pos (hmem.mp hinside)]
        exact .pure _
      · rw [if_neg hinside, if_neg (mt hmem.mpr hinside)]
        exact hwalk.walkAll (hpath.enterType htype hcomplex) parent none hcontent

theorem parallel_walkDerivation {walk walk' : ContentWalk}
    (hwalk : ParallelContent pairs left right walk walk') {path path' : Path}
    (hpath : Path.Same pairs left right path path') (parent : Address)
    (method : DerivationMethod) {base base' : TypeRef}
    (hbase : (SchemaSet.matching pairs left right).ref base base')
    {children children' : List Construct}
    (hchildren : Construct.AllMatch (SchemaSet.matching pairs left right) children children') :
    Parallel (SchemaSet.SameType pairs left right)
      (walkDerivation ⟨left, namespaces⟩ walk path parent method base children)
      (walkDerivation ⟨right, namespaces⟩ walk' path' parent method base' children') := by
  have hown := hwalk.walkAll hpath parent none hchildren
  cases method with
  | extension =>
    exact .bind (parallel_walkBase h namespaces hwalk hpath parent hbase) fun _ =>
      .bind hown fun _ => .pure _
  | restriction => exact .bind (.pure _) fun _ => .bind hown fun _ => .pure _

theorem parallel_walkAttributeGroup {walk walk' : ContentWalk}
    (hwalk : ParallelContent pairs left right walk walk') {path path' : Path}
    (hpath : Path.Same pairs left right path path') (parent : Address) (name : ExpandedName) :
    Parallel (SchemaSet.SameType pairs left right)
      (walkAttributeGroup ⟨left, namespaces⟩ walk path parent name)
      (walkAttributeGroup ⟨right, namespaces⟩ walk' path' parent name) := by
  have hgroup := h.attributeGroup? name
  unfold walkAttributeGroup
  dsimp only
  generalize left.attributeGroup? name = found at hgroup
  generalize right.attributeGroup? name = found' at hgroup
  cases hgroup with
  | none => exact .bind (parallel_warn _) fun _ => .pure _
  | some hgroup =>
    dsimp only
    by_cases hinside : name ∈ path.groups
    · rw [if_pos hinside, if_pos (hpath.groups ▸ hinside)]
      exact .pure _
    · rw [if_neg hinside, if_neg (hpath.groups ▸ hinside)]
      exact hwalk.walkAll (hpath.enterGroup name) parent none hgroup.attributes

theorem parallel_walkModelGroup {walk walk' : ContentWalk}
    (hwalk : ParallelContent pairs left right walk walk') {path path' : Path}
    (hpath : Path.Same pairs left right path path') (parent : Address) (name : ExpandedName)
    (occurs : Occurs) :
    Parallel (SchemaSet.SameType pairs left right)
      (walkModelGroup ⟨left, namespaces⟩ walk path parent name occurs)
      (walkModelGroup ⟨right, namespaces⟩ walk' path' parent name occurs) := by
  have hgroup := h.modelGroup? name
  unfold walkModelGroup
  dsimp only
  generalize left.modelGroup? name = found at hgroup
  generalize right.modelGroup? name = found' at hgroup
  cases hgroup with
  | none => exact .bind (parallel_warn _) fun _ => .pure _
  | @some group group' hgroup =>
    have hkind : group'.kind = group.kind := by rw [hgroup.same]
    have hoccurs : group'.effectiveOccurs occurs = group.effectiveOccurs occurs := by
      rw [hgroup.same]
      rfl
    dsimp only
    rw [hkind, hoccurs, ← hgroup.children.length_eq]
    by_cases hinside : name ∈ path.groups
    · rw [if_pos hinside, if_pos (hpath.groups ▸ hinside)]
      exact .pure _
    · rw [if_neg hinside, if_neg (hpath.groups ▸ hinside)]
      exact hwalk.walkAll (hpath.enterGroup name) parent _ hgroup.children

theorem parallel_walkParticle {walk walk' : ContentWalk}
    (hwalk : ParallelContent pairs left right walk walk') {path path' : Path}
    (hpath : Path.Same pairs left right path path') (parent : Address)
    {reference reference' : ElementRef} (occurs : Occurs) (compositor : Option CompositorContext)
    (hreference : reference.Matches (SchemaSet.matching pairs left right) reference') :
    Parallel (SchemaSet.SameType pairs left right)
      (walkParticle ⟨left, namespaces⟩ walk path parent reference occurs compositor)
      (walkParticle ⟨right, namespaces⟩ walk' path' parent reference' occurs compositor) := by
  have hdeclaration := h.declaration? hreference
  unfold walkParticle
  rw [← h.elementName_eq namespaces hreference, ← h.elements.length_eq]
  dsimp only
  cases left.elementName namespaces reference with
  | error error => exact .bind (parallel_warn _) fun _ => .pure _
  | ok name =>
    dsimp only
    generalize left.declaration? reference = found at hdeclaration
    generalize right.declaration? reference' = found' at hdeclaration
    cases hdeclaration with
    | none => exact .bind (parallel_warn _) fun _ => .pure _
    | some hdeclaration =>
      exact .bind (parallel_walkElement h namespaces hwalk _ hpath _ occurs compositor
        hdeclaration) fun _ => .pure _

theorem parallel_walkConstruct (depth : Nat) :
    ParallelContent pairs left right (walkConstruct ⟨left, namespaces⟩ depth)
      (walkConstruct ⟨right, namespaces⟩ depth) := by
  induction depth with
  | zero => exact fun _ _ _ _ _ _ _ _ => .bind (parallel_warn _) fun _ => .pure _
  | succ depth ih =>
    intro path path' parent compositor construct construct' hpath hmatches
    cases hmatches with
    | attributeUse huse => exact parallel_walkAttribute h namespaces parent huse
    | attributeGroup => exact parallel_walkAttributeGroup h namespaces ih hpath parent _
    | simpleContent hbase hchildren =>
      exact parallel_walkDerivation h namespaces ih hpath parent _ hbase hchildren
    | complexContent hbase hchildren =>
      exact parallel_walkDerivation h namespaces ih hpath parent _ hbase hchildren
    | @compositor kind occurs _ _ hchildren =>
      have hwalk := fun context => ih.walkAll hpath parent (some context) hchildren
      unfold walkConstruct
      dsimp only
      rw [← hchildren.length_eq]
      exact hwalk _
    | group => exact parallel_walkModelGroup h namespaces ih hpath parent _ _
    | element hreference =>
      exact parallel_walkParticle h namespaces ih hpath parent _ compositor hreference
    | wildcard => exact parallel_walkWildcard h namespaces parent _ compositor
    | other => exact .pure _

end Walks

end Index

namespace SchemaIndex

/-- Indexes that answer the same about every address. -/
structure Same (pairs : TypeId → TypeId → Prop) (left right : SchemaIndex) : Prop where
  related : SchemaSet.Related pairs left.set right.set
  namespaces : left.namespaces = right.namespaces
  nodes : List.Forall₂ (SchemaNode.Same (SchemaSet.SameType pairs left.set right.set)) left.nodes
    right.nodes
  roots : left.roots = right.roots
  warnings : left.warnings = right.warnings

open Index

variable {pairs : TypeId → TypeId → Prop} {left right : SchemaSet}
  (h : SchemaSet.Related pairs left right) (namespaces : InstanceNamespaces)

include h

theorem parallel_walkRoot {declaration declaration' : ElementDeclaration}
    (hdeclaration : declaration.Matches (SchemaSet.matching pairs left right) declaration') :
    Parallel (SchemaSet.SameType pairs left right) (walkRoot ⟨left, namespaces⟩ declaration)
      (walkRoot ⟨right, namespaces⟩ declaration') := by
  have hname : declaration'.name = declaration.name := by rw [hdeclaration.same]
  unfold walkRoot
  dsimp only
  rw [hname, ← h.elements.length_eq, ← h.walkDepth_eq]
  exact .bind (parallel_walkElement h namespaces (parallel_walkConstruct h namespaces _) _
    ⟨.nil, rfl⟩ _ _ _ hdeclaration) fun _ => .pure _

theorem parallel_walkRoots {declarations declarations' : List ElementDeclaration}
    (hdeclarations : List.Forall₂
      (ElementDeclaration.Matches (SchemaSet.matching pairs left right)) declarations
      declarations') :
    Parallel (SchemaSet.SameType pairs left right)
      (declarations.mapM (walkRoot ⟨left, namespaces⟩))
      (declarations'.mapM (walkRoot ⟨right, namespaces⟩)) := by
  induction hdeclarations with
  | nil => exact .pure _
  | cons hfirst _ ih =>
    rw [List.mapM_cons, List.mapM_cons]
    exact .bind (parallel_walkRoot h namespaces hfirst) fun _ => .bind ih fun _ => .pure _

theorem together_rootDeclaration (name : ExpandedName) :
    Together (ElementDeclaration.Matches (SchemaSet.matching pairs left right))
      (rootDeclaration left name) (rootDeclaration right name) := by
  have helement := h.element? name
  unfold rootDeclaration
  generalize left.element? name = found at helement
  generalize right.element? name = found' at helement
  cases helement with
  | none => exact .error _
  | some hdeclaration => exact .ok hdeclaration

/-- The same roots are missing, or the indexes answer the same. -/
theorem together_build (roots : List ExpandedName) :
    Together (SchemaIndex.Same pairs) (SchemaIndex.build left namespaces roots)
      (SchemaIndex.build right namespaces roots) := by
  have hnames : List.Forall₂ Eq roots roots := List.forall₂_same.mpr fun _ _ => rfl
  have hdeclarations : Together
      (List.Forall₂ (ElementDeclaration.Matches (SchemaSet.matching pairs left right)))
      (roots.mapM (rootDeclaration left)) (roots.mapM (rootDeclaration right)) :=
    .mapM hnames fun name _ hname => hname ▸ together_rootDeclaration h name
  refine hdeclarations.bind fun _ _ hdeclarations => ?_
  obtain ⟨haddresses, hprogress⟩ :=
    parallel_walkRoots h namespaces hdeclarations ⟨[], []⟩ ⟨[], []⟩ ⟨.nil, rfl⟩
  exact .ok ⟨h, rfl, hprogress.nodes, haddresses, hprogress.warnings⟩

end SchemaIndex

end SchemaForms
