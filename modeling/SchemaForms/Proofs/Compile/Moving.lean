import SchemaForms.Proofs.Compile.Corresponding
import SchemaForms.Proofs.Compile.Siblings
import SchemaForms.Proofs.Index.Listing
import SchemaForms.Proofs.Index.Moving
import SchemaForms.Proofs.Schema.Reordering
import SchemaForms.Template.Document
import Mathlib.Logic.Relation

/-!
Templates of schemas in which attributes have moved. Attributes are shown first wherever they stand,
and what is indexed for an address is the same unless the attribute has passed another declaration
of it. So the templates are the same, and so are the logs. Two declarations of one attribute may not
pass each other: the first one is indexed.
-/

namespace SchemaForms

/-- Declarations correspond when attributes have moved among them; types and names are the same. -/
def Correspondence.moving (apart : Construct → Construct → Prop) : Correspondence where
  type := Eq
  ref := Eq
  use := Eq
  element := Eq
  constructs := Construct.AllMoved apart

section Content

variable {apart : Construct → Construct → Prop}

theorem Construct.Moved.corresponds {construct construct' : Construct}
    (h : construct.Moved apart construct') : construct.Corresponds (.moving apart) construct' := by
  cases h with
  | attributeUse => exact .attributeUse rfl
  | attributeGroup => exact .attributeGroup
  | simpleContent hchildren => exact .simpleContent rfl hchildren
  | complexContent hchildren => exact .complexContent rfl hchildren
  | compositor hchildren => exact .compositor hchildren
  | group => exact .group
  | element => exact .element rfl
  | wildcard => exact .wildcard
  | other => exact .other

/-- An attribute does not decide what the content of a type is. -/
theorem ContentModel.first?_cons_of_isAttribute {moving : Construct}
    (hmoving : moving.isAttribute = true) (others : List Construct) :
    first? (moving :: others) = first? others := by
  cases moving <;> first | rfl | cases hmoving

theorem ContentModel.first?_cons_moved {first first' : Construct} {others others' : List Construct}
    (hfirst : first.Moved apart first')
    (hothers : Option.Rel (ContentModel.Corresponds (.moving apart)) (first? others)
      (first? others')) :
    Option.Rel (ContentModel.Corresponds (.moving apart)) (first? (first :: others))
      (first? (first' :: others')) := by
  cases hfirst with
  | simpleContent hchildren => exact .some (.textOnly ⟨rfl, rfl, hchildren⟩)
  | complexContent hchildren => exact .some (.derived ⟨rfl, rfl, hchildren⟩)
  | _ => exact hothers

theorem ContentModel.first?_moved {constructs constructs' : List Construct}
    (h : Construct.AllMoved apart constructs constructs') :
    Option.Rel (ContentModel.Corresponds (.moving apart)) (first? constructs)
      (first? constructs') := by
  induction h with
  | nil => exact .none
  | cons hfirst _ ih => exact first?_cons_moved hfirst ih
  | pass hmoving _ _ hinside _ ih =>
    rw [first?_cons_of_isAttribute hmoving]
    refine first?_cons_moved hinside ?_
    rwa [first?_cons_of_isAttribute hmoving]

theorem TypeDefinition.Moved.corresponds {definition definition' : TypeDefinition}
    (h : definition.Moved apart definition') :
    definition.Corresponds (.moving apart) definition' := by
  cases h with
  | builtin => exact .builtin
  | simple => exact .simple
  | complex hcontent =>
    refine .complex ?_
    have hfirst := ContentModel.first?_moved hcontent
    unfold ComplexType.model
    dsimp only
    generalize ContentModel.first? _ = found at hfirst
    generalize ContentModel.first? _ = found' at hfirst
    cases hfirst with
    | none => exact .constructs hcontent
    | some hmodel => exact hmodel

end Content

section Index

variable {left right : SchemaIndex} {roots : List ExpandedName} {visits : List Index.Visit}

/-- At the address of an attribute several values are not chosen. -/
theorem SchemaIndex.Lists.not_isMultiSelect (h : left.Lists roots visits) {address : Address}
    (hattribute : address.isAttribute = true) : left.isMultiSelect address = false := by
  unfold isMultiSelect
  cases hnode : left.nodeOf? address with
  | none => rfl
  | some node =>
    have hkind := (h.isAttribute_of_nodeOf? hnode).2.1
    have helement : node.isElement = false := by
      simp_all [SchemaNode.isAttribute, SchemaNode.isElement]
    simp [SchemaNode.isMultiSelect, helement]

theorem SchemaIndex.Lists.any_isMultiSelect_eq (h : left.Lists roots visits)
    (addresses : List Address) : addresses.any left.isMultiSelect =
      (addresses.filter (!·.isAttribute)).any left.isMultiSelect := by
  rw [List.any_filter]
  congr 1
  funext address
  cases hattribute : address.isAttribute with
  | false => rfl
  | true => exact h.not_isMultiSelect hattribute

/-- Where the same addresses are indexed, none is longer. -/
theorem SchemaIndex.height_le (h : ∀ address, (left.node? address).isSome = true →
    (right.node? address).isSome = true) : left.height ≤ right.height := by
  refine List.foldlRecOn (motive := (· ≤ right.height)) _ _ (Nat.zero_le _) ?_
  intro bound hbound depth hdepth
  obtain ⟨node, hnode, rfl⟩ := List.mem_map.mp hdepth
  have hleft : (left.node? node.address).isSome = true := by
    rw [node?, List.find?_isSome]
    exact ⟨node, hnode, by simp⟩
  obtain ⟨found, hfound⟩ := Option.isSome_iff_exists.mp (h _ hleft)
  have haddress : found.address = node.address := by simpa using List.find?_some hfound
  have hmem := List.mem_of_find?_eq_some hfound
  exact Nat.max_le.mpr ⟨hbound, haddress ▸ le_foldl_max (List.mem_map.mpr ⟨found, hmem, rfl⟩)⟩

namespace SchemaIndex.Resembles

open Compile

variable {visits' : List Index.Visit} (h : left.Resembles right) {mode : Mode} {root : Address}

include h

theorem isMultiSelect_eq : right.isMultiSelect = left.isMultiSelect := by
  funext address
  refine (any_eq_of_rel (h.nodes address.schemaAddress) fun node node' hnode => ?_).symm
  rw [hnode.same, SchemaNode.isMultiSelect, SchemaNode.isMultiSelect, h.set.isEnumeration_eq]
  rfl

theorem hasMultiSelect_eq (hlists : left.Lists roots visits) (address : Address) :
    left.hasMultiSelect address = right.hasMultiSelect address := by
  refine any_eq_of_rel (h.nodes address.schemaAddress) fun node node' hnode => ?_
  rw [h.isMultiSelect_eq, hlists.any_isMultiSelect_eq, hnode.children,
    ← hlists.any_isMultiSelect_eq]

theorem usesOf_eq (here : Address) (depth : Nat) (name : ExpandedName) :
    Scope.usesOf ⟨right, mode, root⟩ here depth name =
      Scope.usesOf ⟨left, mode, root⟩ here depth name := by
  induction depth generalizing name with
  | zero => rfl
  | succ depth ih =>
    have hgroup : Scope.attributeGroup ⟨right, mode, root⟩ here name =
        Scope.attributeGroup ⟨left, mode, root⟩ here name := by
      rw [Scope.attributeGroup, Scope.attributeGroup, h.set.attributeGroup?_eq]
    unfold Scope.usesOf
    simp only [hgroup, ih]

theorem groupAttributes_eq (here : Address) (name : ExpandedName) :
    Scope.groupAttributes ⟨right, mode, root⟩ here name =
      Scope.groupAttributes ⟨left, mode, root⟩ here name := by
  have hgroups : right.set.attributeGroups = left.set.attributeGroups := by rw [h.set.same]
  rw [Scope.groupAttributes, Scope.groupAttributes, h.usesOf_eq, hgroups]

theorem corresponds (hlists : left.Lists roots visits) :
    (Scope.mk left mode root).Corresponds (.moving (left.set.Apart left.namespaces))
      ⟨right, mode, root⟩ where
  mode := rfl
  root := rfl
  nodeOf? address := rel_mono (h.nodes address.schemaAddress) fun _ _ hnode =>
    ⟨by rw [hnode.same]; rfl, by rw [hnode.same]⟩
  hasMultiSelect := h.hasMultiSelect_eq hlists
  types := by
    rintro type _ rfl
    exact {
      definition := (h.set.definition type).corresponds
      enumeration := (congrFun h.set.enumeration_eq type).symm
      isComboUnion := (h.set.isComboUnion_eq type).symm
      isLanguage := (h.set.isLanguage_eq type).symm
      isBoolean := (h.set.isBoolean_eq type).symm }
  resolve? := by
    rintro reference _ rfl
    have hself : ∀ found : Option TypeId, Option.Rel Eq found found
      | none => .none
      | some _ => .some rfl
    exact h.set.resolve?_eq reference ▸ hself _
  modelGroup? name := rel_mono (h.set.modelGroup? name) fun _ _ hgroup =>
    ⟨hgroup.children, hgroup.same⟩
  groupAttributes here name := by
    show Together (List.Forall₂ Eq) _ _
    rw [h.groupAttributes_eq, List.forall₂_eq_eq_eq]
    exact .of_eq rfl
  elementName := by
    rintro reference _ rfl
    rw [SchemaIndex.elementName, SchemaIndex.elementName, h.namespaces, h.set.elementName_eq]
  attributeName := by
    rintro use _ rfl
    rw [SchemaIndex.attributeName, SchemaIndex.attributeName, h.namespaces, h.set.attributeName_eq]
  wildcardName := h.set.wildcardName_eq.symm
  walkDepth := h.set.walkDepth_eq.symm
  heights _ _ hconstructs := Construct.heights_eq_of_allMoved hconstructs
  attributes _ _ hconstructs := by
    rw [Construct.Reordered.filter_attributes hconstructs]
    exact List.forall₂_same.mpr fun construct _ => (Construct.moved_self construct).corresponds
  others _ _ hconstructs :=
    (Construct.Reordered.filter_others hconstructs).imp fun _ _ hmoved => hmoved.corresponds

theorem height_eq : left.height = right.height := by
  have hsome : ∀ address, (left.node? address).isSome = (right.node? address).isSome :=
    fun address => isSome_eq_of_rel (h.nodes address)
  exact Nat.le_antisymm (height_le fun address hnode => hsome address ▸ hnode)
    (height_le fun address hnode => hsome address ▸ hnode)

end SchemaIndex.Resembles

end Index

namespace SchemaSet

/-- Whatever is asked for, the same is shown, with the same log. -/
def SameTemplates (namespaces : InstanceNamespaces) (left right : SchemaSet) : Prop :=
  ∀ roots mode address,
    (SchemaIndex.build left namespaces roots).map (fun index => index.compile mode address) =
      (SchemaIndex.build right namespaces roots).map fun index => index.compile mode address

/-- In one step attributes move, or types get other places in the table. They are entered there as
they are mentioned first, so the places change when attributes are read earlier or later. -/
inductive Rearranged (namespaces : InstanceNamespaces) : SchemaSet → SchemaSet → Prop
  | moved {left right} (h : left.Moved namespaces right) : Rearranged namespaces left right
  | renumbered {pairs left right} (h : Related pairs left right) : Rearranged namespaces left right

variable {namespaces : InstanceNamespaces} {left right : SchemaSet}

theorem Moved.sameTemplates (h : left.Moved namespaces right) (hgroups : left.GroupsAttributes) :
    SameTemplates namespaces left right := by
  intro roots mode address
  have hlists : ∀ index, SchemaIndex.build left namespaces roots = .ok index →
      ∃ visits, index.Lists roots visits :=
    fun _ hok => (SchemaIndex.exists_lists hok).2.2
  have hbuild := SchemaIndex.together_build_moved h hgroups roots
  generalize SchemaIndex.build left namespaces roots = built at hbuild hlists
  generalize SchemaIndex.build right namespaces roots = built' at hbuild
  cases hbuild with
  | error error => rfl
  | @ok index index' hresembles =>
    obtain ⟨visits, hlists⟩ := hlists index rfl
    exact congrArg Except.ok
      (SchemaIndex.compile_eq_of_corresponds (hresembles.corresponds hlists) hresembles.height_eq)

theorem Related.groupsAttributes_iff {pairs : TypeId → TypeId → Prop}
    (h : Related pairs left right) : left.GroupsAttributes ↔ right.GroupsAttributes := by
  have hiff : ∀ set : SchemaSet, set.GroupsAttributes ↔ ∀ name, (set.attributeGroup? name).any
      (fun group => (group.attributes.map Construct.isAttribute).any not) = false := by
    intro set
    simp [GroupsAttributes, Option.any_eq_false]
  have hany : ∀ name, (left.attributeGroup? name).any
      (fun group => (group.attributes.map Construct.isAttribute).any not) =
        (right.attributeGroup? name).any
          fun group => (group.attributes.map Construct.isAttribute).any not := by
    refine fun name => any_eq_of_rel (h.attributeGroup? name) fun group group' hgroup => ?_
    rw [map_eq_of_forall₂ hgroup.attributes fun _ _ hconstruct => hconstruct.isAttribute_eq]
  simp only [hiff, hany]

/-- Rearranged schemas show the same, and rearranging can go on. -/
theorem Rearranged.sameTemplates (h : Rearranged namespaces left right) :
    (left.GroupsAttributes ↔ right.GroupsAttributes) ∧
      (left.GroupsAttributes → SameTemplates namespaces left right) := by
  cases h with
  | moved h => exact ⟨h.groupsAttributes_iff.symm, h.sameTemplates⟩
  | renumbered h =>
    -- nothing in a template tells the places of types
    refine ⟨h.groupsAttributes_iff, fun _ roots mode address => ?_⟩
    have hforms := h.sameForms namespaces roots mode address
    generalize SchemaIndex.build left namespaces roots = built at hforms
    generalize SchemaIndex.build right namespaces roots = built' at hforms
    cases built <;> cases built' <;> simp_all [Except.map]

/-- However often a schema is rearranged. -/
theorem sameTemplates_of_eqvGen (h : Relation.EqvGen (Rearranged namespaces) left right) :
    (left.GroupsAttributes ↔ right.GroupsAttributes) ∧
      (left.GroupsAttributes → SameTemplates namespaces left right) := by
  induction h with
  | rel left right h => exact h.sameTemplates
  | refl set => exact ⟨.rfl, fun _ _ _ _ => rfl⟩
  | symm left right _ ih =>
    exact ⟨ih.1.symm, fun hgroups roots mode address =>
      (ih.2 (ih.1.mpr hgroups) roots mode address).symm⟩
  | trans left middle right _ _ ih ih' =>
    exact ⟨ih.1.trans ih'.1, fun hgroups roots mode address =>
      (ih.2 hgroups roots mode address).trans (ih'.2 (ih.1.mp hgroups) roots mode address)⟩

end SchemaSet

namespace Compile

/-- The constructs of a list are shown one by one, attributes before the others, each as it is shown
alone; of one that fails, nothing is left but a warning. So attributes may move among the others, of
whatever list in the schema, as long as they pass none that declares the same attribute, and the
templates stay the same. -/
theorem attributes_move_freely :
    (∀ (scope : Scope) (render : Renderer) (here : Address) (depth : Nat)
        (constructs : List Construct),
      let each := scope.renderConstruct render here depth
      renderAll each here constructs =
          Logged.collect (fun construct => renderAll each here [construct])
            (constructs.filter Construct.isAttribute ++ constructs.filter (!·.isAttribute)) ∧
        ∀ construct,
          (∀ nodes, (each construct).run.value = .ok nodes →
            renderAll each here [construct] = ⟨nodes, (each construct).run.log⟩) ∧
          (∀ error, (each construct).run.value = .error error →
            renderAll each here [construct] = ⟨[], [⟨here, .skipped error⟩]⟩)) ∧
    ∀ (loader : Loader) (namespaces : InstanceNamespaces) (moved : SchemaSet), loader.Loaded →
      Relation.EqvGen (SchemaSet.Rearranged namespaces) loader.set moved →
        SchemaSet.SameTemplates namespaces loader.set moved :=
  ⟨fun scope render here depth constructs => scope.renderAll_alone here render depth constructs,
    fun _ _ _ hloaded h =>
      (SchemaSet.sameTemplates_of_eqvGen h).2 hloaded.groupsAttributes⟩

/-- A note has a language and a text. -/
def noteSource : SchemaSource :=
  ⟨"note", "<x:schema xmlns:x='http://www.w3.org/2001/XMLSchema'><x:element name='note'>" ++
    "<x:complexType><x:attribute name='lang'/><x:sequence><x:element name='text'/></x:sequence>" ++
    "</x:complexType></x:element></x:schema>"⟩

def noteLoader : Loader := ((Loader.new [] false).load noteSource).2

/-- One attribute, and then one element in a compositor. -/
def isUseBeforeElement : List Construct → Bool
  | [.attributeUse _, .compositor _ _ [.element _ _]] => true
  | _ => false

theorem of_isUseBeforeElement {content : List Construct} (h : isUseBeforeElement content = true) :
    ∃ use kind occurs reference occurs',
      content = [.attributeUse use, .compositor kind occurs [.element reference occurs']] := by
  unfold isUseBeforeElement at h
  split at h
  · exact ⟨_, _, _, _, _, rfl⟩
  · cases h

/-- What the root is shown as. -/
def shownRoot (set : SchemaSet) (name : String) : Option Compilation :=
  (SchemaIndex.build set .disabled [⟨none, name⟩]).toOption.bind fun index =>
    (index.compile .edit (.root (.unprefixed name))).toOption

/-- An element declares no attribute for the one around it, not even in a compositor. -/
theorem not_declares_element (set : SchemaSet) (namespaces : InstanceNamespaces) (kind : Compositor)
    (occurs occurs' : Occurs) (reference : ElementRef) (name : PrefixedName) :
    ¬ set.Declares namespaces (.compositor kind occurs [.element reference occurs']) name := by
  rintro ⟨outer, entered, inner, use, hinlines, -⟩
  cases hinlines with
  | opened hopened hfound =>
    obtain ⟨-, rfl⟩ : _ ∧ _ := by simpa [SchemaSet.opened] using hopened
    cases hfound with
    | opened hopened _ => cases hopened

theorem attributes_move_freely_note :
    ∃ lang sequence, lang.isAttribute = true ∧ sequence.isAttribute = false ∧
      (noteLoader.set.types.definition ⟨3⟩).complex?.map ComplexType.content =
        some [lang, sequence] ∧
      noteLoader.Loaded ∧
      Relation.EqvGen (SchemaSet.Rearranged .disabled) noteLoader.set
        (noteLoader.set.withContent ⟨3⟩ [sequence, lang]) ∧
      (shownRoot noteLoader.set "note").isSome = true ∧
      SchemaSet.SameTemplates .disabled noteLoader.set
        (noteLoader.set.withContent ⟨3⟩ [sequence, lang]) := by
  obtain ⟨hshape, hshown⟩ : (noteLoader.set.types.definition ⟨3⟩).complex?.any
      (fun complex => isUseBeforeElement complex.content) = true ∧
        (shownRoot noteLoader.set "note").isSome = true := by
    decide +kernel
  cases hcomplex : (noteLoader.set.types.definition ⟨3⟩).complex? with
  | none =>
    rw [hcomplex] at hshape
    cases hshape
  | some complex =>
    rw [hcomplex] at hshape
    obtain ⟨use, kind, occurs, reference, occurs', hcontent⟩ := of_isUseBeforeElement hshape
    have hpass : Construct.AllMoved (noteLoader.set.Apart .disabled) complex.content
        [.compositor kind occurs [.element reference occurs'], .attributeUse use] := by
      rw [hcontent]
      have hapart : noteLoader.set.Apart .disabled (.attributeUse use)
          (.compositor kind occurs [.element reference occurs']) :=
        fun name _ => not_declares_element _ _ kind occurs occurs' reference name
      exact .pass rfl rfl hapart (Construct.moved_self _) .nil
    have hmoved := SchemaSet.moved_withContent hcomplex hpass
    have hloaded : noteLoader.Loaded := .load (.new [] false) noteSource
    have hrearranged : Relation.EqvGen (SchemaSet.Rearranged .disabled) noteLoader.set _ :=
      .rel _ _ (.moved hmoved)
    exact ⟨_, _, rfl, rfl, congrArg some hcontent, hloaded, hrearranged, hshown,
      attributes_move_freely.2 noteLoader .disabled _ hloaded hrearranged⟩

def textUse (name : String) (type : TypeRef) : Construct :=
  .attributeUse ⟨⟨none, name⟩, name, 0, false, type, false⟩

/-- An element with this content, in which type 0 is text and type 1 is a truth value. -/
def flagged (content : List Construct) : SchemaSet :=
  .declaring [.builtin (schemaName "string"), .builtin (schemaName "boolean"), .containing content]
    [.unqualified "r" (.anonymous ⟨2⟩)]

/-- The attribute that stands first is shown, so two of them do not change places. -/
theorem same_attribute_does_not_move :
    let text := textUse "a" (.anonymous ⟨0⟩)
    let flag := Construct.compositor .sequence .once [textUse "a" (.anonymous ⟨1⟩)]
    let document := fun content => (shownRoot (flagged content) "r").map fun compilation =>
      compilation.template.document
    [text, flag].filter Construct.isAttribute = [flag, text].filter Construct.isAttribute ∧
      [text, flag].filter (!·.isAttribute) = [flag, text].filter (!·.isAttribute) ∧
      (document [text, flag]).isSome = true ∧ document [text, flag] ≠ document [flag, text] := by
  intro text flag document
  exact ⟨rfl, rfl, by decide +kernel, by decide +kernel⟩

end Compile

end SchemaForms
