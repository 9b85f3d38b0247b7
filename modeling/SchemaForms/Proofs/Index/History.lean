import SchemaForms.Proofs.Address.Parts
import SchemaForms.Proofs.Index.Depth
import Mathlib.Data.List.Nodup

/-!
The order in which nodes are described. A visit is a node with the path that the walk is inside of
when it comes there. Each visit follows from an earlier one: it is held by the content of an element
that is described already, or it stands in for an element that is. No address is visited twice. What
holds of the nodes of an index is read off this order, without the walk itself.
-/

namespace SchemaForms

/-- The node as it is first described, before what is below it is known. -/
def SchemaNode.bare (node : SchemaNode) : SchemaNode :=
  { node with children := [], repeatingSingleton := none }

namespace Index

def elementNode (scope : Scope) (path : Path) (address : Address)
    (declaration : ElementDeclaration) (type : TypeId) (occurs : Occurs)
    (compositor : Option CompositorContext) : SchemaNode :=
  ⟨address, .element, declaration.name, type, occurs, 1 ≤ occurs.min, compositor,
    (scope.set.types.definition type).isComplex && type ∈ path.types, declaration.isAbstract,
    memberNames scope declaration, [], none⟩

def attributeNode (address : Address) (use : AttributeDeclaration) (type : TypeId) : SchemaNode :=
  ⟨address, .attr, use.name, type, ⟨if use.isRequired then 1 else 0, .count 1⟩, use.isRequired,
    none, false, false, [], [], none⟩

def wildcardNode (address : Address) (type : TypeId) (occurs : Occurs)
    (compositor : Option CompositorContext) : SchemaNode :=
  ⟨address, .wildcard, schemaName "anyType", type, occurs, 1 ≤ occurs.min, compositor, false,
    false, [], [], none⟩

/-- A construct that is described itself names an address below its parent, once its name and its
type are resolved. -/
inductive Names (scope : Scope) (parent : Address) : Construct → Address → Prop
  | element {reference occurs name declaration type}
      (hname : scope.set.elementName scope.namespaces reference = .ok name)
      (hdeclaration : scope.set.declaration? reference = some declaration)
      (htype : scope.set.types.resolve? declaration.type = some type) :
      Names scope parent (.element reference occurs) (parent.child name)
  | attributeUse {use name type}
      (hname : scope.set.attributeName scope.namespaces use = .ok name)
      (htype : scope.set.attributeType? use = some type) :
      Names scope parent (.attributeUse use) (parent.attr name)
  | wildcard {occurs type}
      (htype : scope.set.types.namedType? (schemaName "anyType") = some type) :
      Names scope parent (.wildcard occurs) (parent.child scope.set.wildcardName)

structure Visit where
  node : SchemaNode
  path : Path

/-- The path inside the content of the element. -/
def Visit.inner (visit : Visit) : Path := (Path.ofType visit.node.type).append visit.path

/-- The content of a described element holds a construct, and the walk that is inside the element
comes to it inside the path. Nothing is held by recursive elements. -/
structure Visit.Holds (scope : Scope) (visit : Visit) (path : Path) (placed : Placed) : Prop where
  element : visit.node.kind = .element
  expanded : visit.node.isRecursive = false
  content : ∃ complex construct entered,
    (scope.set.types.definition visit.node.type).complex? = some complex ∧
      construct ∈ complex.content ∧ scope.set.Inlines ⟨none, construct⟩ entered placed ∧
      visit.inner.Admits entered ∧ path = entered.append visit.inner

theorem Visit.Holds.trans {scope : Scope} {visit : Visit} {path entered : Path}
    {middle found : Placed} (h : visit.Holds scope path middle)
    (hinlines : scope.set.Inlines middle entered found) (hadmits : path.Admits entered) :
    visit.Holds scope (entered.append path) found := by
  obtain ⟨complex, construct, outer, hcomplex, hconstruct, hmiddle, houter, rfl⟩ := h.content
  refine ⟨h.element, h.expanded, complex, construct, entered.append outer, hcomplex, hconstruct,
    hmiddle.trans hinlines, Path.admits_append.mpr ⟨houter, hadmits⟩, ?_⟩
  rw [Path.append_assoc]

/-- What a visit may follow from. -/
inductive Follows (scope : Scope) (roots : List ExpandedName) (earlier : List Visit) : Visit → Prop
  | root {name declaration type} (hroot : name ∈ roots)
      (hdeclaration : scope.set.element? name = some declaration)
      (htype : scope.set.types.resolve? declaration.type = some type) :
      Follows scope roots earlier
        ⟨elementNode scope ⟨[], []⟩ (.root (scope.namespaces.prefixedName declaration.name))
          declaration type .once none, ⟨[], []⟩⟩
  | element {within path context reference occurs name declaration type}
      (hwithin : within ∈ earlier)
      (hholds : within.Holds scope path ⟨context, .element reference occurs⟩)
      (hname : scope.set.elementName scope.namespaces reference = .ok name)
      (hdeclaration : scope.set.declaration? reference = some declaration)
      (htype : scope.set.types.resolve? declaration.type = some type) :
      Follows scope roots earlier
        ⟨elementNode scope path (within.node.address.child name) declaration type occurs context,
          path⟩
  | attributeUse {within path context use name type} (hwithin : within ∈ earlier)
      (hholds : within.Holds scope path ⟨context, .attributeUse use⟩)
      (hname : scope.set.attributeName scope.namespaces use = .ok name)
      (htype : scope.set.attributeType? use = some type) :
      Follows scope roots earlier ⟨attributeNode (within.node.address.attr name) use type, path⟩
  | wildcard {within path context occurs type} (hwithin : within ∈ earlier)
      (hholds : within.Holds scope path ⟨context, .wildcard occurs⟩)
      (htype : scope.set.types.namedType? (schemaName "anyType") = some type) :
      Follows scope roots earlier
        ⟨wildcardNode (within.node.address.child scope.set.wildcardName) type occurs context, path⟩
  | standIn {head parent name member type} (hhead : head ∈ earlier)
      (helement : head.node.kind = .element) (hparent : head.node.address.parent? = some parent)
      (hmember : (name, member) ∈ standIns scope head.node.name)
      (htype : scope.set.types.resolve? member.type = some type) :
      Follows scope roots earlier
        ⟨elementNode scope head.path (parent.child name) member type head.node.occurs
          head.node.compositor, head.path⟩

theorem Follows.mono {scope : Scope} {roots : List ExpandedName} {earlier later : List Visit}
    {visit : Visit} (h : Follows scope roots earlier visit) (hsubset : earlier ⊆ later) :
    Follows scope roots later visit := by
  cases h with
  | root hroot hdeclaration htype => exact .root hroot hdeclaration htype
  | element hwithin hholds hname hdeclaration htype =>
    exact .element (hsubset hwithin) hholds hname hdeclaration htype
  | attributeUse hwithin hholds hname htype =>
    exact .attributeUse (hsubset hwithin) hholds hname htype
  | wildcard hwithin hholds htype => exact .wildcard (hsubset hwithin) hholds htype
  | standIn hhead helement hparent hmember htype =>
    exact .standIn (hsubset hhead) helement hparent hmember htype

/-- A visit stands at an address of the schema, of an attribute exactly if it is of the kind, and
its element is recursive exactly if the walk is inside its type. -/
structure Visit.Sound (set : SchemaSet) (visit : Visit) : Prop where
  ne_nil : visit.node.address.segments ≠ []
  schemaAddress : visit.node.address.schemaAddress = visit.node.address
  isAttribute : visit.node.address.isAttribute = visit.node.isAttribute
  bare : visit.node.bare = visit.node
  isRecursive : visit.node.kind = .element → visit.node.isRecursive =
    ((set.types.definition visit.node.type).isComplex && visit.node.type ∈ visit.path.types)
  path : visit.path.Sound set

theorem Visit.Sound.inner {set : SchemaSet} {visit : Visit} {complex : ComplexType}
    (h : visit.Sound set) (helement : visit.node.kind = .element)
    (hexpanded : visit.node.isRecursive = false)
    (hcomplex : (set.types.definition visit.node.type).complex? = some complex) :
    visit.inner.Sound set := by
  refine h.path.append (Path.declared_ofType hcomplex) (Path.admits_ofType.mpr ?_)
  have hisComplex := isComplex_of_complex? hcomplex
  simpa [hexpanded, hisComplex] using h.isRecursive helement

theorem Visit.Holds.path_sound {scope : Scope} {visit : Visit} {path : Path} {placed : Placed}
    (h : visit.Holds scope path placed) (hsound : visit.Sound scope.set) :
    path.Sound scope.set := by
  obtain ⟨complex, construct, entered, hcomplex, -, hinlines, hadmits, rfl⟩ := h.content
  exact (hsound.inner h.element h.expanded hcomplex).append hinlines.declared hadmits

theorem Follows.sound {scope : Scope} {roots : List ExpandedName} {earlier : List Visit}
    {visit : Visit} (h : Follows scope roots earlier visit)
    (hearlier : ∀ v ∈ earlier, v.Sound scope.set) : visit.Sound scope.set := by
  cases h with
  | root hroot hdeclaration htype =>
    exact ⟨by simp [elementNode, Address.root], by simp [elementNode, Address.root,
      Address.schemaAddress, Segment.withoutIndex, Segment.withIndex], rfl, rfl, fun _ => rfl,
      Path.sound_empty⟩
  | element hwithin hholds hname hdeclaration htype =>
    have hsound := hearlier _ hwithin
    exact ⟨by simp [elementNode, Address.child], by simp [elementNode, hsound.schemaAddress],
      by simp [elementNode, SchemaNode.isAttribute], rfl, fun _ => rfl, hholds.path_sound hsound⟩
  | attributeUse hwithin hholds hname htype =>
    have hsound := hearlier _ hwithin
    exact ⟨by simp [attributeNode, Address.attr], by simp [attributeNode, hsound.schemaAddress],
      by simp [attributeNode, SchemaNode.isAttribute], rfl, by simp [attributeNode],
      hholds.path_sound hsound⟩
  | wildcard hwithin hholds htype =>
    have hsound := hearlier _ hwithin
    exact ⟨by simp [wildcardNode, Address.child], by simp [wildcardNode, hsound.schemaAddress],
      by simp [wildcardNode, SchemaNode.isAttribute], rfl, by simp [wildcardNode],
      hholds.path_sound hsound⟩
  | standIn hhead helement hparent hmember htype =>
    have hsound := hearlier _ hhead
    have hschema := Address.schemaAddress_of_parent? hparent
    rw [hsound.schemaAddress, hparent] at hschema
    exact ⟨by simp [elementNode, Address.child], by simp [elementNode, ← Option.some.inj hschema],
      by simp [elementNode, SchemaNode.isAttribute], rfl, fun _ => rfl, hsound.path⟩

def addresses (visits : List Visit) : List Address := visits.map fun visit => visit.node.address

inductive History (scope : Scope) (roots : List ExpandedName) : List Visit → Prop
  | start : History scope roots []
  | visit {visits visit} (hvisits : History scope roots visits)
      (hfollows : Follows scope roots visits visit)
      (hnew : visit.node.address ∉ addresses visits) : History scope roots (visits ++ [visit])

namespace History

variable {scope : Scope} {roots : List ExpandedName} {visits : List Visit}

/-- What a visit takes over from the visits that it follows from holds of all. -/
theorem forall_mem {P : Visit → Prop} (h : History scope roots visits)
    (hstep : ∀ earlier visit, (∀ v ∈ earlier, P v) → Follows scope roots earlier visit → P visit) :
    ∀ visit ∈ visits, P visit := by
  induction h with
  | start => simp
  | visit hvisits hfollows hnew ih =>
    intro visit hvisit
    rcases List.mem_append.mp hvisit with hold | hlast
    · exact ih visit hold
    · rw [List.mem_singleton.mp hlast]
      exact hstep _ _ ih hfollows

theorem follows_of_mem (h : History scope roots visits) :
    ∀ visit ∈ visits, Follows scope roots visits visit := by
  induction h with
  | start => simp
  | visit hvisits hfollows hnew ih =>
    intro visit hvisit
    rcases List.mem_append.mp hvisit with hold | hlast
    · exact (ih visit hold).mono (List.subset_append_left _ _)
    · rw [List.mem_singleton.mp hlast]
      exact hfollows.mono (List.subset_append_left _ _)

theorem sound (h : History scope roots visits) : ∀ visit ∈ visits, visit.Sound scope.set :=
  h.forall_mem fun _ _ hearlier hfollows => hfollows.sound hearlier

/-- A visit is below an element, unless it is a root, which occurs once and stands alone. -/
theorem one_lt_depth_or_root (h : History scope roots visits) {visit : Visit}
    (hvisit : visit ∈ visits) : 1 < visit.node.address.depth ∨
      visit.node.kind = .element ∧ visit.node.occurs = .once ∧ visit.node.compositor = none := by
  have hchild : ∀ {parent : Address} (name : PrefixedName), parent.segments ≠ [] →
      1 < (parent.child name).depth := by
    intro parent name hne
    rw [Address.depth_child]
    exact Nat.succ_lt_succ (List.length_pos_iff.mpr hne)
  cases h.follows_of_mem visit hvisit with
  | root => exact Or.inr ⟨rfl, rfl, rfl⟩
  | element hwithin => exact Or.inl (hchild _ (h.sound _ hwithin).ne_nil)
  | attributeUse hwithin =>
    left
    change 1 < (Address.attr _ _).depth
    rw [Address.depth_attr]
    exact Nat.succ_lt_succ (List.length_pos_iff.mpr (h.sound _ hwithin).ne_nil)
  | wildcard hwithin => exact Or.inl (hchild _ (h.sound _ hwithin).ne_nil)
  | standIn hhead helement hparent =>
    exact Or.inl (hchild _ (Address.segments_of_parent? hparent).1)

/-- Attributes are visited below elements. -/
theorem one_lt_depth (h : History scope roots visits) {visit : Visit} (hvisit : visit ∈ visits)
    (hattribute : visit.node.isAttribute = true) : 1 < visit.node.address.depth := by
  refine (h.one_lt_depth_or_root hvisit).resolve_right ?_
  rintro ⟨helement, -⟩
  simp [SchemaNode.isAttribute, helement] at hattribute

/-- Nothing is visited below an attribute. -/
theorem forall_isAttribute_above (h : History scope roots visits) : ∀ visit ∈ visits,
    ∀ segment ∈ visit.node.address.segments.dropLast, segment.isAttribute = false := by
  induction h with
  | start => simp
  | @visit visits visit hvisits hfollows hnew ih =>
    have hwithin : ∀ {within : Visit} {path : Path} {placed : Placed}, within ∈ visits →
        within.Holds scope path placed →
          ∀ segment ∈ within.node.address.segments, segment.isAttribute = false := by
      intro within path placed hmem hholds
      apply Address.forall_isAttribute_of_leaf (ih within hmem)
      rw [(hvisits.sound within hmem).isAttribute, SchemaNode.isAttribute, hholds.element]
      rfl
    intro found hfound
    rcases List.mem_append.mp hfound with hold | hlast
    · exact ih found hold
    · rw [List.mem_singleton.mp hlast]
      cases hfollows with
      | root => simp [elementNode, Address.root]
      | element hmem hholds => simpa [elementNode, Address.child] using hwithin hmem hholds
      | attributeUse hmem hholds => simpa [attributeNode, Address.attr] using hwithin hmem hholds
      | wildcard hmem hholds => simpa [wildcardNode, Address.child] using hwithin hmem hholds
      | standIn hhead helement hparent =>
        obtain ⟨-, leaf, hsegments⟩ := Address.segments_of_parent? hparent
        have habove := ih _ hhead
        rw [hsegments, List.dropLast_concat] at habove
        simpa [elementNode, Address.child] using habove

theorem addresses_nodup (h : History scope roots visits) : (addresses visits).Nodup := by
  induction h with
  | start => exact List.nodup_nil
  | visit hvisits hfollows hnew ih =>
    simp only [addresses, List.map_append, List.map_cons, List.map_nil]
    refine List.nodup_append.mpr ⟨ih, by simp, ?_⟩
    rintro address haddress _ hlast rfl
    rw [List.mem_singleton] at hlast
    exact hnew (hlast ▸ haddress)

theorem eq_of_address_eq (h : History scope roots visits) {left right : Visit}
    (hleft : left ∈ visits) (hright : right ∈ visits)
    (haddress : left.node.address = right.node.address) : left = right :=
  List.inj_on_of_nodup_map h.addresses_nodup hleft hright haddress

end History

end Index

end SchemaForms
