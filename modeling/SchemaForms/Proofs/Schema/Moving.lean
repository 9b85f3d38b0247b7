import SchemaForms.Index.Naming
import SchemaForms.Proofs.Index.Content
import SchemaForms.Proofs.Schema.Lasting
import SchemaForms.Proofs.Schema.Questions

/-!
Schemas in which attributes stand elsewhere among the other declarations of a list. An attribute, or
a reference to a group of them, may move past the declaration beside it unless both declare the same
attribute, the other one within compositors and groups or by its base. The lists of all types and
groups may be reordered so, at whatever depth. Apart from that the schemas are the same, and they
answer every question in the same way.
-/

namespace SchemaForms

/-- The same declarations, apart from what is inside of them, except that some attributes have moved
past the declaration after them. -/
inductive Construct.Reordered (apart inside : Construct → Construct → Prop) :
    List Construct → List Construct → Prop
  | nil : Reordered apart inside [] []
  | cons {first first' others others'} (hfirst : inside first first')
      (hothers : Reordered apart inside others others') :
    Reordered apart inside (first :: others) (first' :: others')
  | pass {moving other other' others others'} (hmoving : moving.isAttribute = true)
      (hother : other.isAttribute = false) (hapart : apart moving other)
      (hinside : inside other other') (hothers : Reordered apart inside others others') :
    Reordered apart inside (moving :: other :: others) (other' :: moving :: others')

/-- The same declaration, apart from the order of what is inside of it. -/
inductive Construct.Moved (apart : Construct → Construct → Prop) : Construct → Construct → Prop
  | attributeUse {use} : Moved apart (.attributeUse use) (.attributeUse use)
  | attributeGroup {name} : Moved apart (.attributeGroup name) (.attributeGroup name)
  | simpleContent {method base children children'}
      (h : Construct.Reordered apart (Moved apart) children children') :
    Moved apart (.simpleContent method base children) (.simpleContent method base children')
  | complexContent {method base children children'}
      (h : Construct.Reordered apart (Moved apart) children children') :
    Moved apart (.complexContent method base children) (.complexContent method base children')
  | compositor {kind occurs children children'}
      (h : Construct.Reordered apart (Moved apart) children children') :
    Moved apart (.compositor kind occurs children) (.compositor kind occurs children')
  | group {name occurs} : Moved apart (.group name occurs) (.group name occurs)
  | element {reference occurs} : Moved apart (.element reference occurs) (.element reference occurs)
  | wildcard {occurs} : Moved apart (.wildcard occurs) (.wildcard occurs)
  | other {tag} : Moved apart (.other tag) (.other tag)

/-- The same declarations, apart from the order of attributes among others at whatever depth. -/
abbrev Construct.AllMoved (apart : Construct → Construct → Prop) :
    List Construct → List Construct → Prop :=
  Construct.Reordered apart (Construct.Moved apart)

inductive TypeDefinition.Moved (apart : Construct → Construct → Prop) :
    TypeDefinition → TypeDefinition → Prop
  | builtin {name} : Moved apart (.builtin name) (.builtin name)
  | simple {type} : Moved apart (.simple type) (.simple type)
  | complex {name document isAbstract isMixed content content'}
      (h : Construct.AllMoved apart content content') :
    Moved apart (.complex ⟨name, document, isAbstract, isMixed, content⟩)
      (.complex ⟨name, document, isAbstract, isMixed, content'⟩)

structure ModelGroup.Moved (apart : Construct → Construct → Prop) (left right : ModelGroup) :
    Prop where
  children : Construct.AllMoved apart left.children right.children
  same : right = { left with children := right.children }

namespace SchemaSet

/-- A construct declares an attribute for the element around it, itself or by what it consists of
once compositors, groups and bases are opened. -/
def Declares (set : SchemaSet) (namespaces : InstanceNamespaces) (construct : Construct)
    (name : PrefixedName) : Prop :=
  ∃ outer entered inner use,
    set.Inlines ⟨outer, construct⟩ entered ⟨inner, .attributeUse use⟩ ∧
      set.attributeName namespaces use = .ok name ∧ (set.attributeType? use).isSome = true

/-- No attribute is declared by both. -/
def Apart (set : SchemaSet) (namespaces : InstanceNamespaces) (left right : Construct) : Prop :=
  ∀ name, set.Declares namespaces left name → ¬ set.Declares namespaces right name

/-- The same schema, in which attributes have moved past declarations that they are apart from. -/
structure Moved (namespaces : InstanceNamespaces) (left right : SchemaSet) : Prop where
  definitions : List.Forall₂ (TypeDefinition.Moved (left.Apart namespaces))
    left.types.definitions right.types.definitions
  modelGroups : List.Forall₂ (Keyed.Entry (ModelGroup.Moved (left.Apart namespaces)))
    left.modelGroups right.modelGroups
  same : right = { left with
    types := { left.types with definitions := right.types.definitions }
    modelGroups := right.modelGroups }

/-- Groups of attributes hold nothing else. -/
def GroupsAttributes (set : SchemaSet) : Prop :=
  ∀ name group, set.attributeGroup? name = some group →
    ∀ member ∈ group.attributes, member.isAttribute = true

end SchemaSet

namespace SchemaSet

variable {set : SchemaSet}

/-- What is found in a construct does not depend on the compositor around it. -/
theorem Inlines.exists_outer {outer other : Option CompositorContext} {construct : Construct}
    {entered : Index.Path} {found : Index.Placed}
    (h : set.Inlines ⟨outer, construct⟩ entered found) :
    ∃ inner, set.Inlines ⟨other, construct⟩ entered ⟨inner, found.construct⟩ := by
  cases h with
  | itself => exact ⟨other, .itself _⟩
  | opened hopened hfound => exact ⟨found.compositor, .opened hopened hfound⟩

theorem Declares.of_opened {namespaces : InstanceNamespaces} {placed middle : Index.Placed}
    {first : Index.Path} {name : PrefixedName} (h : set.Declares namespaces middle.construct name)
    (hopened : (first, middle) ∈ set.opened placed) :
    set.Declares namespaces placed.construct name := by
  obtain ⟨outer, entered, inner, use, hinlines, hname, htype⟩ := h
  obtain ⟨inner, hfound⟩ := hinlines.exists_outer
  exact ⟨placed.compositor, _, inner, use, .opened hopened hfound, hname, htype⟩

end SchemaSet

section Lists

variable {apart : Construct → Construct → Prop}

theorem Construct.Moved.isAttribute_eq {left right : Construct} (h : left.Moved apart right) :
    left.isAttribute = right.isAttribute := by
  cases h <;> rfl

theorem Construct.Moved.eq_of_isAttribute {left right : Construct} (h : left.Moved apart right)
    (hattribute : left.isAttribute = true) : left = right := by
  cases h <;> first | rfl | cases hattribute

mutual

theorem Construct.moved_self : ∀ construct : Construct, construct.Moved apart construct
  | .attributeUse _ => .attributeUse
  | .attributeGroup _ => .attributeGroup
  | .simpleContent _ _ children => .simpleContent (Construct.allMoved_self children)
  | .complexContent _ _ children => .complexContent (Construct.allMoved_self children)
  | .compositor _ _ children => .compositor (Construct.allMoved_self children)
  | .group _ _ => .group
  | .element _ _ => .element
  | .wildcard _ => .wildcard
  | .other _ => .other

theorem Construct.allMoved_self : ∀ constructs : List Construct,
    Construct.AllMoved apart constructs constructs
  | [] => .nil
  | first :: others => .cons (Construct.moved_self first) (Construct.allMoved_self others)

end

namespace Construct.Reordered

variable {left right : List Construct}

theorem length_eq {inside : Construct → Construct → Prop} (h : Reordered apart inside left right) :
    left.length = right.length := by
  induction h with
  | nil => rfl
  | cons _ _ ih => simp [ih]
  | pass _ _ _ _ _ ih => simp [ih]

theorem filter_attributes (h : AllMoved apart left right) :
    left.filter isAttribute = right.filter isAttribute := by
  induction h with
  | nil => rfl
  | @cons first _ _ _ hfirst _ ih =>
    rw [List.filter_cons, List.filter_cons, ← hfirst.isAttribute_eq, ih]
    split
    · rename_i hattribute
      rw [hfirst.eq_of_isAttribute hattribute]
    · rfl
  | pass hmoving hother _ hinside _ ih =>
    have hother' := hinside.isAttribute_eq.symm.trans hother
    simp [hmoving, hother, hother', ih]

theorem filter_others (h : AllMoved apart left right) :
    List.Forall₂ (Moved apart) (left.filter (!·.isAttribute)) (right.filter (!·.isAttribute)) := by
  induction h with
  | nil => exact .nil
  | @cons first _ _ _ hfirst _ ih =>
    rw [List.filter_cons, List.filter_cons, ← hfirst.isAttribute_eq]
    split
    · exact .cons hfirst ih
    · exact ih
  | pass hmoving hother _ hinside _ ih =>
    have hother' := hinside.isAttribute_eq.symm.trans hother
    simpa [List.filter_cons, hmoving, hother, hother'] using ⟨hinside, ih⟩

theorem exists_mem (h : AllMoved apart left right) {member' : Construct}
    (hmember : member' ∈ right) : ∃ member ∈ left, member.Moved apart member' := by
  induction h with
  | nil => cases hmember
  | @cons first _ others _ hfirst _ ih =>
    rcases List.mem_cons.mp hmember with rfl | hmember
    · exact ⟨first, List.mem_cons_self, hfirst⟩
    · obtain ⟨member, hmem, hmoved⟩ := ih hmember
      exact ⟨member, List.mem_cons_of_mem _ hmem, hmoved⟩
  | @pass _ other _ others _ _ _ _ hinside _ ih =>
    rcases List.mem_cons.mp hmember with rfl | hmember
    · exact ⟨other, by simp, hinside⟩
    · rcases List.mem_cons.mp hmember with rfl | hmember
      · exact ⟨_, List.mem_cons_self, moved_self _⟩
      · obtain ⟨member, hmem, hmoved⟩ := ih hmember
        exact ⟨member, by simp [hmem], hmoved⟩

end Construct.Reordered

mutual

theorem Construct.Moved.height_eq {left right : Construct} (h : left.Moved apart right) :
    left.height = right.height := by
  cases h with
  | simpleContent h => simp only [Construct.height, Construct.heights_eq_of_allMoved h]
  | complexContent h => simp only [Construct.height, Construct.heights_eq_of_allMoved h]
  | compositor h => simp only [Construct.height, Construct.heights_eq_of_allMoved h]
  | _ => rfl

theorem Construct.heights_eq_of_allMoved {left right : List Construct}
    (h : Construct.AllMoved apart left right) :
    Construct.heights left = Construct.heights right := by
  cases h with
  | nil => rfl
  | cons hfirst hothers =>
    rw [Construct.heights, Construct.heights, hfirst.height_eq,
      Construct.heights_eq_of_allMoved hothers]
  | pass _ _ _ hinside hothers =>
    simp only [Construct.heights, hinside.height_eq, Construct.heights_eq_of_allMoved hothers]
    exact Nat.max_left_comm ..

end

theorem forall₂_getD {α : Type} {R : α → α → Prop} {left right : List α}
    (h : List.Forall₂ R left right) {default : α} (hdefault : R default default) (index : Nat) :
    R (left.getD index default) (right.getD index default) := by
  induction h generalizing index with
  | nil => exact hdefault
  | cons hfirst _ ih =>
    cases index with
    | zero => exact hfirst
    | succ index => simpa using ih index

theorem rel_lookup_of_forall₂ {α β : Type} [BEq α] {R : β → β → Prop} {left right : List (α × β)}
    (h : List.Forall₂ (Keyed.Entry R) left right) (key : α) :
    Option.Rel R (left.lookup key) (right.lookup key) := by
  induction h with
  | nil => exact .none
  | @cons entry entry' _ _ hfirst _ ih =>
    obtain ⟨held, value⟩ := entry
    obtain ⟨held', value'⟩ := entry'
    obtain ⟨hkey, hvalue⟩ := hfirst
    obtain rfl : held = held' := hkey
    rw [List.lookup_cons, List.lookup_cons]
    split
    · exact .some hvalue
    · exact ih

end Lists

section Content

/-- The definition with other content, if it has any. -/
def TypeDefinition.withContent (content : List Construct) : TypeDefinition → TypeDefinition
  | .complex type => .complex { type with content }
  | definition => definition

/-- The schema in which a complex type has other content. -/
def SchemaSet.withContent (set : SchemaSet) (id : TypeId) (content : List Construct) : SchemaSet :=
  { set with types := { set.types with
      definitions := set.types.definitions.modify id.index (TypeDefinition.withContent content) } }

variable {apart : Construct → Construct → Prop}

theorem TypeDefinition.moved_self : ∀ definition : TypeDefinition, definition.Moved apart definition
  | .builtin _ => .builtin
  | .simple _ => .simple
  | .complex type => .complex (Construct.allMoved_self type.content)

theorem ModelGroup.moved_self (group : ModelGroup) : group.Moved apart group :=
  ⟨Construct.allMoved_self group.children, rfl⟩

theorem forall₂_modify {α : Type} {R : α → α → Prop} (hself : ∀ a, R a a) {change : α → α}
    {as : List α} {index : Nat} (h : ∀ a, as[index]? = some a → R a (change a)) :
    List.Forall₂ R as (as.modify index change) := by
  induction as generalizing index with
  | nil => simp
  | cons first others ih =>
    cases index with
    | zero => exact .cons (h first rfl) (List.forall₂_same.mpr fun a _ => hself a)
    | succ index => exact .cons (hself first) (ih h)

/-- Attributes move within one type. -/
theorem SchemaSet.moved_withContent {set : SchemaSet} {namespaces : InstanceNamespaces}
    {id : TypeId} {complex : ComplexType} {content : List Construct}
    (hcomplex : (set.types.definition id).complex? = some complex)
    (h : Construct.AllMoved (set.Apart namespaces) complex.content content) :
    set.Moved namespaces (set.withContent id content) where
  definitions := by
    refine forall₂_modify TypeDefinition.moved_self fun definition hdefinition => ?_
    have hfound : set.types.definition id = definition := by
      rw [TypeTable.definition, List.getD_eq_getElem?_getD, hdefinition]
      rfl
    rw [hfound] at hcomplex
    cases definition with
    | complex type =>
      obtain rfl := Option.some.inj hcomplex
      exact .complex h
    | _ => cases hcomplex
  modelGroups := List.forall₂_same.mpr fun entry _ => ⟨rfl, ModelGroup.moved_self entry.2⟩
  same := rfl

end Content

section Loaded

/-- What is made of a group of attributes holds nothing else. -/
theorem Reading.keeps_groupedAttributes (origin : Origin) (element : Xml.Element) :
    Keeps (fun _ => True) (fun component => ∀ group, component = .attributeGroup group →
      ∀ member ∈ group.attributes, member.isAttribute = true)
      (Reading.component origin element) := by
  have htype : Keeps (fun _ => True) (fun component : Component =>
      ∀ group, component = .attributeGroup group →
        ∀ member ∈ group.attributes, member.isAttribute = true)
      (Reading.typeComponent origin element) := by
    refine .after fun written => ?_
    dsimp only
    split <;> exact .bind (keeps_anything _) fun _ _ => .bind (keeps_anything _) fun _ _ =>
      .pure nofun
  have hgroup : Keeps (fun _ => True) (fun group : AttributeGroup =>
      ∀ member ∈ group.attributes, member.isAttribute = true)
      (globalAttributeGroup origin element) := by
    refine .after fun written => .bind (keeps_anything _) fun children _ => .pure ?_
    exact fun member hmember => (List.mem_filter.mp hmember).2
  unfold component
  split
  · exact .bind (keeps_anything _) fun _ _ => .pure nofun
  · exact htype
  · exact htype
  · refine .bind hgroup fun made hmade => .pure ?_
    rintro _ ⟨⟩
    exact hmade
  · exact .bind (keeps_anything _) fun _ _ => .pure nofun
  · exact .bind (keeps_anything _) fun _ _ => .pure nofun
  · exact .pure nofun

theorem SchemaSet.lasts_groupsAttributes : SchemaSet.Lasts SchemaSet.GroupsAttributes where
  initial := nofun
  enterDocument _ _ h := h
  read set origin element h _ := by
    have hmade := Reading.keeps_groupedAttributes origin element set.types trivial
    unfold read enterRead
    rcases hrun : (Reading.component origin element).run.run set.types with ⟨error | made, types⟩
    · exact h
    · rw [hrun] at hmade
      have hmade := hmade.2 made rfl
      intro name group hgroup
      cases made with
      | attributeGroup entered =>
        have hentered : (Keyed.put entered.name entered set.attributeGroups).lookup name =
            some group := hgroup
        rw [Keyed.lookup_put] at hentered
        split at hentered
        · exact Option.some.inj hentered ▸ hmade entered rfl
        · exact h name group hentered
      | element declaration =>
        change attributeGroup? (addElement _ declaration) name = some group at hgroup
        rw [addElement_eq] at hgroup
        exact h name group hgroup
      | _ => exact h name group hgroup

/-- In a schema that was loaded, groups of attributes hold nothing else. -/
theorem Loader.Loaded.groupsAttributes {loader : Loader} (h : loader.Loaded) :
    loader.set.GroupsAttributes :=
  h.lasting SchemaSet.lasts_groupsAttributes

end Loaded

namespace SchemaSet.Moved

variable {namespaces : InstanceNamespaces} {left right : SchemaSet}
  (h : left.Moved namespaces right)

include h

section Types

theorem named_eq : right.types.named = left.types.named := by rw [h.same]

theorem namedType?_eq (name : ExpandedName) :
    right.types.namedType? name = left.types.namedType? name := by
  rw [TypeTable.namedType?, TypeTable.namedType?, h.named_eq]

theorem resolve?_eq (reference : TypeRef) :
    right.types.resolve? reference = left.types.resolve? reference := by
  cases reference with
  | named name => exact h.namedType?_eq name
  | anonymous id => rfl

theorem definition (type : TypeId) :
    (left.types.definition type).Moved (left.Apart namespaces) (right.types.definition type) :=
  forall₂_getD h.definitions .builtin type.index

theorem exists_complex {type : TypeId} {complex' : ComplexType}
    (hcomplex : (right.types.definition type).complex? = some complex') :
    ∃ complex, (left.types.definition type).complex? = some complex ∧
      Construct.AllMoved (left.Apart namespaces) complex.content complex'.content := by
  have hdefinition := h.definition type
  generalize left.types.definition type = definition at hdefinition
  generalize right.types.definition type = definition' at hdefinition hcomplex
  cases hdefinition with
  | builtin => cases hcomplex
  | simple => cases hcomplex
  | complex hcontent =>
    obtain rfl := Option.some.inj hcomplex
    exact ⟨_, rfl, hcontent⟩

theorem isComplex_eq (type : TypeId) :
    (right.types.definition type).isComplex = (left.types.definition type).isComplex := by
  have hdefinition := h.definition type
  generalize left.types.definition type = definition at hdefinition
  generalize right.types.definition type = definition' at hdefinition
  cases hdefinition <;> rfl

theorem enumerationWithin_eq (depth : Nat) (type : TypeId) :
    right.types.enumerationWithin depth type = left.types.enumerationWithin depth type := by
  induction depth generalizing type with
  | zero => rfl
  | succ depth ih =>
    have hdefinition := h.definition type
    unfold TypeTable.enumerationWithin
    generalize left.types.definition type = definition at hdefinition
    generalize right.types.definition type = definition' at hdefinition
    cases hdefinition with
    | builtin => rfl
    | complex => rfl
    | simple => simp only [h.resolve?_eq, ih]

theorem enumeration_eq : right.types.enumeration = left.types.enumeration :=
  funext fun type => h.enumerationWithin_eq _ type

theorem isEnumeration_eq : right.types.isEnumeration = left.types.isEnumeration := by
  funext type
  rw [TypeTable.isEnumeration, TypeTable.isEnumeration, h.enumeration_eq]

theorem isComboUnion_eq (type : TypeId) :
    right.types.isComboUnion type = left.types.isComboUnion type := by
  have hresolve : right.types.resolve? = left.types.resolve? := funext h.resolve?_eq
  have hdefinition := h.definition type
  unfold TypeTable.isComboUnion
  generalize left.types.definition type = definition at hdefinition
  generalize right.types.definition type = definition' at hdefinition
  cases hdefinition with
  | builtin => rfl
  | complex => rfl
  | simple => simp only [hresolve, h.isEnumeration_eq]

theorem restrictsWithin_eq (builtin : ExpandedName) (depth : Nat) (type : TypeId) :
    right.types.restrictsWithin builtin depth type =
      left.types.restrictsWithin builtin depth type := by
  induction depth generalizing type with
  | zero => rfl
  | succ depth ih =>
    have hdefinition := h.definition type
    unfold TypeTable.restrictsWithin
    generalize left.types.definition type = definition at hdefinition
    generalize right.types.definition type = definition' at hdefinition
    cases hdefinition with
    | builtin => rfl
    | complex => rfl
    | simple => simp only [h.resolve?_eq, ih]

theorem isLanguage_eq (type : TypeId) : right.types.isLanguage type = left.types.isLanguage type :=
  h.restrictsWithin_eq _ _ type

theorem isBoolean_eq (type : TypeId) : right.types.isBoolean type = left.types.isBoolean type := by
  have hdefinition := h.definition type
  unfold TypeTable.isBoolean
  generalize left.types.definition type = definition at hdefinition
  generalize right.types.definition type = definition' at hdefinition
  cases hdefinition <;> rfl

end Types

section Components

theorem document_eq (id : DocumentId) : right.document id = left.document id := by
  rw [h.same]
  rfl

theorem element?_eq (name : ExpandedName) : right.element? name = left.element? name := by
  rw [h.same]
  rfl

theorem attribute?_eq (name : ExpandedName) : right.attribute? name = left.attribute? name := by
  rw [h.same]
  rfl

theorem attributeGroup?_eq (name : ExpandedName) :
    right.attributeGroup? name = left.attributeGroup? name := by
  rw [h.same]
  rfl

theorem modelGroup? (name : ExpandedName) :
    Option.Rel (ModelGroup.Moved (left.Apart namespaces)) (left.modelGroup? name)
      (right.modelGroup? name) :=
  rel_lookup_of_forall₂ h.modelGroups name

theorem substitutionMembers_eq (head : ExpandedName) :
    right.substitutionMembers head = left.substitutionMembers head := by
  rw [h.same]
  rfl

theorem wildcardName_eq : right.wildcardName = left.wildcardName := by
  rw [h.same]
  rfl

theorem attributeType?_eq (use : AttributeDeclaration) :
    right.attributeType? use = left.attributeType? use := by
  simp only [attributeType?, h.attribute?_eq, h.resolve?_eq, h.namedType?_eq]

theorem declaration?_eq (reference : ElementRef) :
    right.declaration? reference = left.declaration? reference := by
  cases reference with
  | locally declaration => rfl
  | globally name written document => exact h.element?_eq name

theorem elementName_eq (reference : ElementRef) :
    right.elementName namespaces reference = left.elementName namespaces reference := by
  cases reference with
  | locally declaration => rfl
  | globally name written document => rw [elementName, elementName, h.document_eq]

theorem attributeName_eq (use : AttributeDeclaration) :
    right.attributeName namespaces use = left.attributeName namespaces use := by
  rw [attributeName, attributeName, h.document_eq]

theorem groupsAttributes_iff : right.GroupsAttributes ↔ left.GroupsAttributes := by
  simp only [GroupsAttributes, h.attributeGroup?_eq]

end Components

section Bounds

theorem contentHeights_eq : right.types.contentHeights = left.types.contentHeights := by
  have hdefinitions := h.definitions
  unfold TypeTable.contentHeights
  generalize left.types.definitions = definitions at hdefinitions
  generalize right.types.definitions = definitions' at hdefinitions
  induction hdefinitions with
  | nil => rfl
  | cons hfirst _ ih =>
    rw [List.filterMap_cons, List.filterMap_cons, ih]
    cases hfirst with
    | builtin => rfl
    | simple => rfl
    | complex hcontent =>
      simp only [TypeDefinition.complex?, Option.map_some,
        Construct.heights_eq_of_allMoved hcontent]

theorem walkDepth_eq : right.walkDepth = left.walkDepth := by
  have hgroups : right.modelGroups.map (fun entry => Construct.heights entry.2.children) =
      left.modelGroups.map fun entry => Construct.heights entry.2.children :=
    (map_eq_of_forall₂ h.modelGroups fun _ _ hentry =>
      Construct.heights_eq_of_allMoved hentry.2.children).symm
  have hattributeGroups : right.attributeGroups = left.attributeGroups := by rw [h.same]
  have hheight : right.contentHeight = left.contentHeight := by
    unfold contentHeight
    rw [h.contentHeights_eq, hattributeGroups, hgroups]
  rw [walkDepth, walkDepth, hheight, h.contentHeights_eq, hattributeGroups,
    h.modelGroups.length_eq]

end Bounds

section Declarations

omit h in
/-- What is placed among moved constructs is moved, whatever it is placed in. -/
theorem exists_placed {children children' : List Construct} (context : Option CompositorContext)
    {context' : Option CompositorContext} {first entered : Index.Path} {middle' : Index.Placed}
    (hchildren : Construct.AllMoved (left.Apart namespaces) children children')
    (hmem : (first, middle') ∈
      children'.map fun child => (entered, Index.Placed.mk context' child)) :
    ∃ middle,
      (first, middle) ∈ children.map (fun child => (entered, Index.Placed.mk context child)) ∧
        middle.construct.Moved (left.Apart namespaces) middle'.construct := by
  obtain ⟨child', hchild', heq⟩ := List.mem_map.mp hmem
  obtain ⟨rfl, rfl⟩ := Prod.mk.inj heq
  obtain ⟨child, hchild, hmoved⟩ := hchildren.exists_mem hchild'
  exact ⟨⟨context, child⟩, List.mem_map.mpr ⟨child, hchild, rfl⟩, hmoved⟩

/-- Of a derivation, what is inherited is moved, and so is what it adds. -/
theorem exists_opened_derivation {method : DerivationMethod} {base : TypeRef}
    {children children' : List Construct} {first : Index.Path} {middle' : Index.Placed}
    (hchildren : Construct.AllMoved (left.Apart namespaces) children children')
    (hmem : (first, middle') ∈ right.inherited method base ++
      children'.map fun child => (⟨[], []⟩, Index.Placed.mk none child)) :
    ∃ middle, (first, middle) ∈ left.inherited method base ++
        children.map (fun child => (⟨[], []⟩, Index.Placed.mk none child)) ∧
      middle.construct.Moved (left.Apart namespaces) middle'.construct := by
  rcases List.mem_append.mp hmem with hbase | hown
  · obtain ⟨rfl, type, complex', construct', hresolve, hcomplex', hconstruct', rfl, rfl⟩ :=
      mem_inherited.mp hbase
    obtain ⟨complex, hcomplex, hcontent⟩ := h.exists_complex hcomplex'
    obtain ⟨construct, hconstruct, hmoved⟩ := hcontent.exists_mem hconstruct'
    rw [h.resolve?_eq] at hresolve
    refine ⟨⟨none, construct⟩, List.mem_append_left _ (mem_inherited.mpr ?_), hmoved⟩
    exact ⟨rfl, type, complex, construct, hresolve, hcomplex, hconstruct, rfl, rfl⟩
  · obtain ⟨middle, hmiddle, hmoved⟩ := exists_placed none hchildren hown
    exact ⟨middle, List.mem_append_right _ hmiddle, hmoved⟩

/-- What a moved construct consists of is moved as well. -/
theorem exists_opened {placed placed' middle' : Index.Placed} {first : Index.Path}
    (hmoved : placed.construct.Moved (left.Apart namespaces) placed'.construct)
    (hopened : (first, middle') ∈ right.opened placed') :
    ∃ middle, (first, middle) ∈ left.opened placed ∧
      middle.construct.Moved (left.Apart namespaces) middle'.construct := by
  obtain ⟨outer, construct⟩ := placed
  obtain ⟨outer', construct'⟩ := placed'
  cases hmoved with
  | simpleContent hchildren => exact h.exists_opened_derivation hchildren hopened
  | complexContent hchildren => exact h.exists_opened_derivation hchildren hopened
  | compositor hchildren => exact exists_placed _ hchildren hopened
  | @attributeGroup name =>
    have hgroup := h.attributeGroup?_eq name
    simp only [opened, hgroup] at hopened ⊢
    cases hfound : left.attributeGroup? name with
    | none => simp [hfound] at hopened
    | some group =>
      simp only [hfound] at hopened
      exact exists_placed _ (Construct.allMoved_self group.attributes) hopened
  | @group name occurs =>
    have hgroup := h.modelGroup? name
    simp only [opened] at hopened ⊢
    generalize left.modelGroup? name = found at hgroup
    generalize right.modelGroup? name = found' at hgroup hopened
    cases hgroup with
    | none => cases hopened
    | some hgroup => exact exists_placed _ hgroup.children hopened
  | _ => cases hopened

theorem exists_inlines {placed' found' : Index.Placed} {entered : Index.Path}
    (hinlines : right.Inlines placed' entered found') (placed : Index.Placed)
    (hmoved : placed.construct.Moved (left.Apart namespaces) placed'.construct) :
    ∃ found, left.Inlines placed entered found ∧
      found.construct.Moved (left.Apart namespaces) found'.construct := by
  induction hinlines generalizing placed with
  | itself => exact ⟨placed, .itself placed, hmoved⟩
  | opened hopened _ ih =>
    obtain ⟨middle, hmiddle, hinner⟩ := h.exists_opened hmoved hopened
    obtain ⟨found, hfound, hlast⟩ := ih middle hinner
    exact ⟨found, .opened hmiddle hfound, hlast⟩

/-- A moved construct declares nothing more. -/
theorem declares {construct construct' : Construct}
    (hmoved : construct.Moved (left.Apart namespaces) construct') {name : PrefixedName}
    (hdeclares : right.Declares namespaces construct' name) :
    left.Declares namespaces construct name := by
  obtain ⟨outer, entered, inner, use, hinlines, hname, htype⟩ := hdeclares
  obtain ⟨⟨context, found⟩, hfound, hsame⟩ :=
    h.exists_inlines hinlines ⟨outer, construct⟩ hmoved
  cases hsame
  rw [h.attributeName_eq] at hname
  rw [h.attributeType?_eq] at htype
  exact ⟨outer, entered, context, use, hfound, hname, htype⟩

end Declarations

end SchemaSet.Moved

end SchemaForms
