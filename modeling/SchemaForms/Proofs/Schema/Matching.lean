import SchemaForms.Index.Build
import SchemaForms.Proofs.Schema.Referring
import Mathlib.Data.List.Forall2

/-!
Components that are the same but for the types they refer to. Two tables may hold one type in
different places, and then what refers to it differs in the identifier only. References are matched
by a relation, and components match when they agree in everything else and their references match.
The references of a component that matches another one all match something, so the same relation
says what a component may refer to at all.
-/

namespace SchemaForms

/-- What a component holds on to: types, and the documents in which its parts stand. -/
inductive Link where
  | type (reference : TypeRef)
  | document (id : DocumentId)
  deriving DecidableEq

def AttributeDeclaration.links (declaration : AttributeDeclaration) : List Link :=
  [.type declaration.type, .document declaration.document]

def ElementDeclaration.links (declaration : ElementDeclaration) : List Link :=
  [.type declaration.type, .document declaration.document]

/-- The links of a construct itself. -/
def Construct.ownLinks : Construct → List Link
  | .attributeUse use => use.links
  | .simpleContent _ base _ => [.type base]
  | .complexContent _ base _ => [.type base]
  | .element (.locally declaration) _ => declaration.links
  | .element (.globally _ _ document) _ => [.document document]
  | _ => []

/-- The links of a construct at whatever depth. -/
def Construct.links (construct : Construct) : List Link :=
  construct.parts.flatMap Construct.ownLinks

def SimpleVariety.references : SimpleVariety → List TypeRef
  | .restriction base _ => [base]
  | .list item => [item]
  | .union members => members

def TypeDefinition.links : TypeDefinition → List Link
  | .builtin _ => []
  | .simple type => .document type.document :: type.variety.references.map .type
  | .complex type => .document type.document :: type.content.flatMap Construct.links

def AttributeGroup.links (group : AttributeGroup) : List Link :=
  .document group.document :: group.attributes.flatMap Construct.links

def ModelGroup.links (group : ModelGroup) : List Link :=
  .document group.document :: group.children.flatMap Construct.links

/-- Which references match, and in which documents components may stand. -/
structure Matching where
  ref : TypeRef → TypeRef → Prop
  document : DocumentId → Prop

namespace Matching

/-- Whatever matches by one matching matches by the other. -/
structure Implies (matching weaker : Matching) : Prop where
  ref : ∀ left right, matching.ref left right → weaker.ref left right
  document : ∀ id, matching.document id → weaker.document id

theorem Implies.trans {first second third : Matching} (h : first.Implies second)
    (hnext : second.Implies third) : first.Implies third :=
  ⟨fun _ _ href => hnext.ref _ _ (h.ref _ _ href),
    fun _ hdocument => hnext.document _ (h.document _ hdocument)⟩

/-- The link is one that has something to match. -/
def Covers (matching : Matching) : Link → Prop
  | .type reference => ∃ other, matching.ref reference other
  | .document id => matching.document id

/-- The link matches itself. -/
def Reflects (matching : Matching) : Link → Prop
  | .type reference => matching.ref reference reference
  | .document id => matching.document id

end Matching

section Components

variable (matching : Matching)

structure AttributeDeclaration.Matches (left right : AttributeDeclaration) : Prop where
  type : matching.ref left.type right.type
  document : matching.document left.document
  same : right = { left with type := right.type }

structure ElementDeclaration.Matches (left right : ElementDeclaration) : Prop where
  type : matching.ref left.type right.type
  document : matching.document left.document
  same : right = { left with type := right.type }

inductive ElementRef.Matches : ElementRef → ElementRef → Prop
  | locally {left right} (h : left.Matches matching right) :
    Matches (.locally left) (.locally right)
  | globally {name written document} (h : matching.document document) :
    Matches (.globally name written document) (.globally name written document)

inductive Construct.Matches : Construct → Construct → Prop
  | attributeUse {left right} (h : left.Matches matching right) :
    Matches (.attributeUse left) (.attributeUse right)
  | attributeGroup {name} : Matches (.attributeGroup name) (.attributeGroup name)
  | simpleContent {method base base' children children'} (hbase : matching.ref base base')
      (hchildren : List.Forall₂ Matches children children') :
    Matches (.simpleContent method base children) (.simpleContent method base' children')
  | complexContent {method base base' children children'} (hbase : matching.ref base base')
      (hchildren : List.Forall₂ Matches children children') :
    Matches (.complexContent method base children) (.complexContent method base' children')
  | compositor {kind occurs children children'}
      (hchildren : List.Forall₂ Matches children children') :
    Matches (.compositor kind occurs children) (.compositor kind occurs children')
  | group {name occurs} : Matches (.group name occurs) (.group name occurs)
  | element {left right occurs} (h : left.Matches matching right) :
    Matches (.element left occurs) (.element right occurs)
  | wildcard {occurs} : Matches (.wildcard occurs) (.wildcard occurs)
  | other {tag} : Matches (.other tag) (.other tag)

abbrev Construct.AllMatch : List Construct → List Construct → Prop :=
  List.Forall₂ (Construct.Matches matching)

structure Derivation.Matches (left right : Derivation) : Prop where
  method : left.method = right.method
  base : matching.ref left.base right.base
  children : Construct.AllMatch matching left.children right.children

inductive SimpleVariety.Matches : SimpleVariety → SimpleVariety → Prop
  | restriction {base base' enumeration} (h : matching.ref base base') :
    Matches (.restriction base enumeration) (.restriction base' enumeration)
  | list {item item'} (h : matching.ref item item') : Matches (.list item) (.list item')
  | union {members members'} (h : List.Forall₂ matching.ref members members') :
    Matches (.union members) (.union members')

inductive TypeDefinition.Matches : TypeDefinition → TypeDefinition → Prop
  | builtin {name} : Matches (.builtin name) (.builtin name)
  | simple {name document variety variety'} (hdocument : matching.document document)
      (h : variety.Matches matching variety') :
    Matches (.simple ⟨name, document, variety⟩) (.simple ⟨name, document, variety'⟩)
  | complex {name document isAbstract isMixed content content'}
      (hdocument : matching.document document) (h : Construct.AllMatch matching content content') :
    Matches (.complex ⟨name, document, isAbstract, isMixed, content⟩)
      (.complex ⟨name, document, isAbstract, isMixed, content'⟩)

structure AttributeGroup.Matches (left right : AttributeGroup) : Prop where
  attributes : Construct.AllMatch matching left.attributes right.attributes
  document : matching.document left.document
  same : right = { left with attributes := right.attributes }

structure ModelGroup.Matches (left right : ModelGroup) : Prop where
  children : Construct.AllMatch matching left.children right.children
  document : matching.document left.document
  same : right = { left with children := right.children }

end Components

section Weaker

variable {matching weaker : Matching} (h : matching.Implies weaker)

include h

theorem AttributeDeclaration.Matches.mono {left right : AttributeDeclaration}
    (hmatches : left.Matches matching right) : left.Matches weaker right :=
  ⟨h.ref _ _ hmatches.type, h.document _ hmatches.document, hmatches.same⟩

theorem ElementDeclaration.Matches.mono {left right : ElementDeclaration}
    (hmatches : left.Matches matching right) : left.Matches weaker right :=
  ⟨h.ref _ _ hmatches.type, h.document _ hmatches.document, hmatches.same⟩

theorem ElementRef.Matches.mono {left right : ElementRef}
    (hmatches : left.Matches matching right) : left.Matches weaker right := by
  cases hmatches with
  | locally hdeclaration => exact .locally (hdeclaration.mono h)
  | globally hdocument => exact .globally (h.document _ hdocument)

omit h

mutual

theorem Construct.Matches.mono (h : matching.Implies weaker) {left right : Construct}
    (hmatches : left.Matches matching right) : left.Matches weaker right := by
  cases hmatches with
  | attributeUse huse => exact .attributeUse (huse.mono h)
  | attributeGroup => exact .attributeGroup
  | simpleContent hbase hchildren =>
    exact .simpleContent (h.ref _ _ hbase) (Construct.allMatch_mono h hchildren)
  | complexContent hbase hchildren =>
    exact .complexContent (h.ref _ _ hbase) (Construct.allMatch_mono h hchildren)
  | compositor hchildren => exact .compositor (Construct.allMatch_mono h hchildren)
  | group => exact .group
  | element hreference => exact .element (hreference.mono h)
  | wildcard => exact .wildcard
  | other => exact .other

theorem Construct.allMatch_mono (h : matching.Implies weaker) {left right : List Construct}
    (hmatches : Construct.AllMatch matching left right) :
    Construct.AllMatch weaker left right := by
  cases hmatches with
  | nil => exact .nil
  | cons hfirst hothers => exact .cons (hfirst.mono h) (Construct.allMatch_mono h hothers)

end

include h

theorem SimpleVariety.Matches.mono {left right : SimpleVariety}
    (hmatches : left.Matches matching right) : left.Matches weaker right := by
  cases hmatches with
  | restriction hbase => exact .restriction (h.ref _ _ hbase)
  | list hitem => exact .list (h.ref _ _ hitem)
  | union hmembers => exact .union (hmembers.imp h.ref)

theorem TypeDefinition.Matches.mono {left right : TypeDefinition}
    (hmatches : left.Matches matching right) : left.Matches weaker right := by
  cases hmatches with
  | builtin => exact .builtin
  | simple hdocument hvariety => exact .simple (h.document _ hdocument) (hvariety.mono h)
  | complex hdocument hcontent =>
    exact .complex (h.document _ hdocument) (Construct.allMatch_mono h hcontent)

theorem AttributeGroup.Matches.mono {left right : AttributeGroup}
    (hmatches : left.Matches matching right) : left.Matches weaker right :=
  ⟨Construct.allMatch_mono h hmatches.attributes, h.document _ hmatches.document, hmatches.same⟩

theorem ModelGroup.Matches.mono {left right : ModelGroup}
    (hmatches : left.Matches matching right) : left.Matches weaker right :=
  ⟨Construct.allMatch_mono h hmatches.children, h.document _ hmatches.document, hmatches.same⟩

end Weaker

section Heights

variable {matching : Matching}

mutual

theorem Construct.Matches.height_eq {left right : Construct}
    (hmatches : left.Matches matching right) : left.height = right.height := by
  cases hmatches with
  | simpleContent _ hchildren =>
    simp only [Construct.height, Construct.heights_eq_of_allMatch hchildren]
  | complexContent _ hchildren =>
    simp only [Construct.height, Construct.heights_eq_of_allMatch hchildren]
  | compositor hchildren =>
    simp only [Construct.height, Construct.heights_eq_of_allMatch hchildren]
  | _ => rfl

theorem Construct.heights_eq_of_allMatch {left right : List Construct}
    (hmatches : Construct.AllMatch matching left right) :
    Construct.heights left = Construct.heights right := by
  cases hmatches with
  | nil => rfl
  | cons hfirst hothers =>
    rw [Construct.heights, Construct.heights, Construct.Matches.height_eq hfirst,
      Construct.heights_eq_of_allMatch hothers]

end

theorem Construct.Matches.isAttribute_eq {left right : Construct}
    (hmatches : left.Matches matching right) : left.isAttribute = right.isAttribute := by
  cases hmatches <;> rfl

end Heights

section Links

variable {matching : Matching}

theorem AttributeDeclaration.Matches.covers {left right : AttributeDeclaration}
    (h : left.Matches matching right) : ∀ link ∈ left.links, matching.Covers link := by
  simp only [AttributeDeclaration.links, List.forall_mem_cons]
  exact ⟨⟨_, h.type⟩, h.document, fun _ hlink => nomatch hlink⟩

theorem ElementDeclaration.Matches.covers {left right : ElementDeclaration}
    (h : left.Matches matching right) : ∀ link ∈ left.links, matching.Covers link := by
  simp only [ElementDeclaration.links, List.forall_mem_cons]
  exact ⟨⟨_, h.type⟩, h.document, fun _ hlink => nomatch hlink⟩

theorem Construct.Matches.covers_own {left right : Construct} (h : left.Matches matching right) :
    ∀ link ∈ left.ownLinks, matching.Covers link := by
  cases h with
  | attributeUse huse => exact huse.covers
  | simpleContent hbase _ => exact List.forall_mem_singleton.mpr ⟨_, hbase⟩
  | complexContent hbase _ => exact List.forall_mem_singleton.mpr ⟨_, hbase⟩
  | element hreference =>
    cases hreference with
    | locally hdeclaration => exact hdeclaration.covers
    | globally hdocument => exact List.forall_mem_singleton.mpr hdocument
  | _ => exact fun _ hlink => nomatch hlink

theorem Construct.links_eq (construct : Construct) :
    construct.links = construct.ownLinks ++ construct.children.flatMap Construct.links := by
  have hparts : ∀ constructs, (Construct.partsOf constructs).flatMap Construct.ownLinks =
      constructs.flatMap Construct.links := by
    intro constructs
    induction constructs with
    | nil => rfl
    | cons first others ih => simp [Construct.partsOf, Construct.links, ih]
  rw [Construct.links, Construct.parts_eq, List.flatMap_cons, hparts]

mutual

theorem Construct.Matches.covers {left right : Construct} (h : left.Matches matching right) :
    ∀ link ∈ left.links, matching.Covers link := by
  have hown := h.covers_own
  have hinside : ∀ link ∈ left.children.flatMap Construct.links, matching.Covers link := by
    cases h with
    | simpleContent _ hchildren => exact Construct.covers_of_allMatch hchildren
    | complexContent _ hchildren => exact Construct.covers_of_allMatch hchildren
    | compositor hchildren => exact Construct.covers_of_allMatch hchildren
    | _ => exact fun _ hlink => nomatch hlink
  rw [Construct.links_eq]
  exact List.forall_mem_append.mpr ⟨hown, hinside⟩

theorem Construct.covers_of_allMatch {left right : List Construct}
    (h : Construct.AllMatch matching left right) :
    ∀ link ∈ left.flatMap Construct.links, matching.Covers link := by
  cases h with
  | nil => exact fun _ hlink => nomatch hlink
  | cons hfirst hothers =>
    rw [List.flatMap_cons]
    exact List.forall_mem_append.mpr
      ⟨Construct.Matches.covers hfirst, Construct.covers_of_allMatch hothers⟩

end

theorem covers_of_forall₂ {left right : List TypeRef}
    (h : List.Forall₂ matching.ref left right) : ∀ link ∈ left.map .type, matching.Covers link := by
  induction h with
  | nil => exact fun _ hlink => nomatch hlink
  | cons hfirst _ ih => exact List.forall_mem_cons.mpr ⟨⟨_, hfirst⟩, ih⟩

theorem TypeDefinition.Matches.covers {left right : TypeDefinition}
    (h : left.Matches matching right) : ∀ link ∈ left.links, matching.Covers link := by
  cases h with
  | builtin => exact fun _ hlink => nomatch hlink
  | simple hdocument hvariety =>
    refine List.forall_mem_cons.mpr ⟨hdocument, ?_⟩
    cases hvariety with
    | restriction hbase => exact covers_of_forall₂ (.cons hbase .nil)
    | list hitem => exact covers_of_forall₂ (.cons hitem .nil)
    | union hmembers => exact covers_of_forall₂ hmembers
  | complex hdocument hcontent =>
    exact List.forall_mem_cons.mpr ⟨hdocument, Construct.covers_of_allMatch hcontent⟩

theorem AttributeGroup.Matches.covers {left right : AttributeGroup}
    (h : left.Matches matching right) : ∀ link ∈ left.links, matching.Covers link :=
  List.forall_mem_cons.mpr ⟨h.document, Construct.covers_of_allMatch h.attributes⟩

theorem ModelGroup.Matches.covers {left right : ModelGroup}
    (h : left.Matches matching right) : ∀ link ∈ left.links, matching.Covers link :=
  List.forall_mem_cons.mpr ⟨h.document, Construct.covers_of_allMatch h.children⟩

end Links

section Reflexive

variable {matching : Matching}

theorem AttributeDeclaration.matches_self {declaration : AttributeDeclaration}
    (h : ∀ link ∈ declaration.links, matching.Reflects link) :
    declaration.Matches matching declaration := by
  simp only [AttributeDeclaration.links, List.forall_mem_cons] at h
  exact ⟨h.1, h.2.1, rfl⟩

theorem ElementDeclaration.matches_self {declaration : ElementDeclaration}
    (h : ∀ link ∈ declaration.links, matching.Reflects link) :
    declaration.Matches matching declaration := by
  simp only [ElementDeclaration.links, List.forall_mem_cons] at h
  exact ⟨h.1, h.2.1, rfl⟩

theorem ElementRef.matches_self {reference : ElementRef} {occurs : Occurs}
    (h : ∀ link ∈ (Construct.element reference occurs).ownLinks, matching.Reflects link) :
    reference.Matches matching reference := by
  cases reference with
  | locally declaration => exact .locally (ElementDeclaration.matches_self h)
  | globally name written document => exact .globally (h _ (List.mem_singleton_self _))

mutual

theorem Construct.matches_self : ∀ construct : Construct,
    (∀ link ∈ construct.links, matching.Reflects link) → construct.Matches matching construct := by
  intro construct h
  rw [Construct.links_eq, List.forall_mem_append] at h
  obtain ⟨hown, hinside⟩ := h
  match construct with
  | .attributeUse use => exact .attributeUse (AttributeDeclaration.matches_self hown)
  | .attributeGroup name => exact .attributeGroup
  | .simpleContent method base children =>
    exact .simpleContent (hown _ (List.mem_singleton_self _))
      (Construct.allMatch_self children hinside)
  | .complexContent method base children =>
    exact .complexContent (hown _ (List.mem_singleton_self _))
      (Construct.allMatch_self children hinside)
  | .compositor kind occurs children =>
    exact .compositor (Construct.allMatch_self children hinside)
  | .group name occurs => exact .group
  | .element reference occurs => exact .element (ElementRef.matches_self hown)
  | .wildcard occurs => exact .wildcard
  | .other tag => exact .other

theorem Construct.allMatch_self : ∀ constructs : List Construct,
    (∀ link ∈ constructs.flatMap Construct.links, matching.Reflects link) →
      Construct.AllMatch matching constructs constructs
  | [], _ => .nil
  | first :: others, h => by
    rw [List.flatMap_cons, List.forall_mem_append] at h
    exact .cons (Construct.matches_self first h.1) (Construct.allMatch_self others h.2)

end

theorem TypeDefinition.matches_self {definition : TypeDefinition}
    (h : ∀ link ∈ definition.links, matching.Reflects link) :
    definition.Matches matching definition := by
  cases definition with
  | builtin name => exact .builtin
  | simple type =>
    obtain ⟨name, document, variety⟩ := type
    obtain ⟨hdocument, hreferences⟩ := List.forall_mem_cons.mp h
    refine .simple hdocument ?_
    cases variety with
    | restriction base enumeration => exact .restriction (hreferences _ (List.mem_singleton_self _))
    | list item => exact .list (hreferences _ (List.mem_singleton_self _))
    | union members =>
      exact .union (List.forall₂_same.mpr fun member hmember =>
        hreferences _ (List.mem_map_of_mem hmember))
  | complex type =>
    obtain ⟨name, document, isAbstract, isMixed, content⟩ := type
    obtain ⟨hdocument, hcontent⟩ := List.forall_mem_cons.mp h
    exact .complex hdocument (Construct.allMatch_self content hcontent)

theorem AttributeGroup.matches_self {group : AttributeGroup}
    (h : ∀ link ∈ group.links, matching.Reflects link) : group.Matches matching group := by
  obtain ⟨hdocument, hattributes⟩ := List.forall_mem_cons.mp h
  exact ⟨Construct.allMatch_self group.attributes hattributes, hdocument, rfl⟩

theorem ModelGroup.matches_self {group : ModelGroup}
    (h : ∀ link ∈ group.links, matching.Reflects link) : group.Matches matching group := by
  obtain ⟨hdocument, hchildren⟩ := List.forall_mem_cons.mp h
  exact ⟨Construct.allMatch_self group.children hchildren, hdocument, rfl⟩

end Reflexive

end SchemaForms
