import SchemaForms.Index.Naming
import SchemaForms.Proofs.Schema.Related

/-!
Questions to schemas that say the same. Asked for corresponding things, both give the same answer,
or answers that correspond: identifiers of the same type, components that match.
-/

namespace SchemaForms

theorem TypeDefinition.Matches.isComplex_eq {matching : Matching} {left right : TypeDefinition}
    (h : left.Matches matching right) : left.isComplex = right.isComplex := by
  cases h <;> rfl

theorem any_eq_of_forall₂ {α β : Type} {R : α → β → Prop} {left : List α} {right : List β}
    (h : List.Forall₂ R left right) {p : α → Bool} {q : β → Bool} (hp : ∀ a b, R a b → p a = q b) :
    left.any p = right.any q := by
  induction h with
  | nil => rfl
  | cons hfirst _ ih => rw [List.any_cons, List.any_cons, hp _ _ hfirst, ih]

theorem map_eq_of_forall₂ {α β γ : Type} {R : α → β → Prop} {left : List α} {right : List β}
    (h : List.Forall₂ R left right) {f : α → γ} {g : β → γ} (hf : ∀ a b, R a b → f a = g b) :
    left.map f = right.map g := by
  induction h with
  | nil => rfl
  | cons hfirst _ ih => rw [List.map_cons, List.map_cons, hf _ _ hfirst, ih]

namespace SchemaSet

variable {pairs : TypeId → TypeId → Prop} {left right : SchemaSet} {type type' : TypeId}

/-- Identifiers of the same type. -/
abbrev SameType (pairs : TypeId → TypeId → Prop) (left right : SchemaSet) :
    TypeId → TypeId → Prop :=
  (world pairs left right).Same

abbrev matching (pairs : TypeId → TypeId → Prop) (left right : SchemaSet) : Matching :=
  (world pairs left right).matching

namespace Related

variable (h : Related pairs left right)

include h

section Types

theorem resolve? {reference reference' : TypeRef}
    (href : (matching pairs left right).ref reference reference') :
    Option.Rel (SameType pairs left right) (left.types.resolve? reference)
      (right.types.resolve? reference') := by
  cases href with
  | @named name _ => exact h.tied.named name
  | anonymous hpair => exact .some (.inl hpair)

theorem definition (hsame : SameType pairs left right type type') :
    (left.types.definition type).Matches (matching pairs left right)
      (right.types.definition type') := by
  rcases hsame with hpair | ⟨name, hbuiltin, hbuiltin'⟩
  · obtain ⟨definition, definition', hdefinition, hdefinition', hmatches⟩ :=
      h.tied.sound.defined hpair
    have hleft : left.types.definitions[type.index]? = some definition := hdefinition
    have hright : right.types.definitions[type'.index]? = some definition' := hdefinition'
    simpa only [TypeTable.definition, List.getD, hleft, hright, Option.getD_some] using hmatches
  · have hleft : left.types.definitions[type.index]? = some (.builtin name) := hbuiltin
    have hright : right.types.definitions[type'.index]? = some (.builtin name) := hbuiltin'
    simp only [TypeTable.definition, List.getD, hleft, hright, Option.getD_some]
    exact .builtin

/-- The same complex type has one identifier on each side. -/
theorem eq_iff_eq {other other' : TypeId} (hsame : SameType pairs left right type type')
    (hcomplex : (left.types.definition type).isComplex)
    (hother : SameType pairs left right other other')
    (hcomplex' : (left.types.definition other).isComplex) : type = other ↔ type' = other' := by
  have hpair : ∀ {id id'}, SameType pairs left right id id' →
      (left.types.definition id).isComplex → pairs id id' := by
    rintro id id' (hpair | ⟨name, hbuiltin, -⟩) hcomplex
    · exact hpair
    · have hbuiltin : left.types.definitions[id.index]? = some (.builtin name) := hbuiltin
      simp [TypeTable.definition, List.getD, hbuiltin, TypeDefinition.isComplex] at hcomplex
  exact h.tied.sound.one_to_one (hpair hsame hcomplex) (hpair hother hcomplex')

theorem isComplex_eq (hsame : SameType pairs left right type type') :
    (left.types.definition type).isComplex = (right.types.definition type').isComplex :=
  (h.definition hsame).isComplex_eq

theorem enumerationWithin_eq (depth : Nat) (hsame : SameType pairs left right type type') :
    left.types.enumerationWithin depth type = right.types.enumerationWithin depth type' := by
  induction depth generalizing type type' with
  | zero => rfl
  | succ depth ih =>
    have hdefinition := h.definition hsame
    unfold TypeTable.enumerationWithin
    generalize left.types.definition type = definition at hdefinition
    generalize right.types.definition type' = definition' at hdefinition
    cases hdefinition with
    | builtin => rfl
    | complex => rfl
    | simple _ hvariety =>
      cases hvariety with
      | list => rfl
      | union => rfl
      | @restriction base base' enumeration href =>
        have hresolve := h.resolve? href
        dsimp only
        generalize left.types.resolve? base = found at hresolve
        generalize right.types.resolve? base' = found' at hresolve
        cases hresolve with
        | none => rfl
        | some hfound =>
          dsimp only
          rw [ih hfound]

theorem enumeration_eq (hsame : SameType pairs left right type type') :
    left.types.enumeration type = right.types.enumeration type' :=
  h.enumerationWithin_eq _ hsame

theorem isEnumeration_eq (hsame : SameType pairs left right type type') :
    left.types.isEnumeration type = right.types.isEnumeration type' := by
  rw [TypeTable.isEnumeration, TypeTable.isEnumeration, h.enumeration_eq hsame]

theorem isComboUnion_eq (hsame : SameType pairs left right type type') :
    left.types.isComboUnion type = right.types.isComboUnion type' := by
  have hdefinition := h.definition hsame
  unfold TypeTable.isComboUnion
  generalize left.types.definition type = definition at hdefinition
  generalize right.types.definition type' = definition' at hdefinition
  cases hdefinition with
  | builtin => rfl
  | complex => rfl
  | simple _ hvariety =>
    cases hvariety with
    | restriction => rfl
    | list => rfl
    | @union members members' hmembers =>
      have hresolved : List.Forall₂ (SameType pairs left right)
          (members.filterMap left.types.resolve?) (members'.filterMap right.types.resolve?) :=
        List.rel_filterMap (fun _ _ href => h.resolve? href) hmembers
      have hsome := any_eq_of_forall₂ hresolved fun _ _ hmember => h.isEnumeration_eq hmember
      have hother := any_eq_of_forall₂ hresolved fun _ _ hmember =>
        congrArg Bool.not (h.isEnumeration_eq hmember)
      simp only [hsome, hother]

theorem restrictsWithin_eq (builtin : ExpandedName) (depth : Nat)
    (hsame : SameType pairs left right type type') :
    left.types.restrictsWithin builtin depth type =
      right.types.restrictsWithin builtin depth type' := by
  induction depth generalizing type type' with
  | zero => rfl
  | succ depth ih =>
    have hdefinition := h.definition hsame
    unfold TypeTable.restrictsWithin
    generalize left.types.definition type = definition at hdefinition
    generalize right.types.definition type' = definition' at hdefinition
    cases hdefinition with
    | builtin => rfl
    | complex => rfl
    | simple _ hvariety =>
      cases hvariety with
      | list => rfl
      | union => rfl
      | @restriction base base' enumeration href =>
        have hresolve := h.resolve? href
        dsimp only
        generalize left.types.resolve? base = found at hresolve
        generalize right.types.resolve? base' = found' at hresolve
        cases hresolve with
        | none => rfl
        | some hfound => exact ih hfound

theorem isLanguage_eq (hsame : SameType pairs left right type type') :
    left.types.isLanguage type = right.types.isLanguage type' :=
  h.restrictsWithin_eq _ _ hsame

theorem isBoolean_eq (hsame : SameType pairs left right type type') :
    left.types.isBoolean type = right.types.isBoolean type' := by
  have hdefinition := h.definition hsame
  unfold TypeTable.isBoolean
  generalize left.types.definition type = definition at hdefinition
  generalize right.types.definition type' = definition' at hdefinition
  cases hdefinition <;> rfl

end Types

section Components

theorem namedType? (name : ExpandedName) :
    Option.Rel (SameType pairs left right) (left.types.namedType? name)
      (right.types.namedType? name) :=
  h.tied.named name

theorem element? (name : ExpandedName) :
    Option.Rel (ElementDeclaration.Matches (matching pairs left right)) (left.element? name)
      (right.element? name) :=
  h.elements.lookup name

theorem attributeGroup? (name : ExpandedName) :
    Option.Rel (AttributeGroup.Matches (matching pairs left right)) (left.attributeGroup? name)
      (right.attributeGroup? name) :=
  h.attributeGroups.lookup name

theorem modelGroup? (name : ExpandedName) :
    Option.Rel (ModelGroup.Matches (matching pairs left right)) (left.modelGroup? name)
      (right.modelGroup? name) :=
  h.modelGroups.lookup name

theorem attributeType? {use use' : AttributeDeclaration}
    (huse : use.Matches (matching pairs left right) use') :
    Option.Rel (SameType pairs left right) (left.attributeType? use)
      (right.attributeType? use') := by
  have hattribute := h.attributes.lookup use.name
  have hresolve := h.resolve? huse.type
  rw [huse.same]
  unfold SchemaSet.attributeType? SchemaSet.attribute?
  dsimp only
  split
  · generalize left.attributes.lookup use.name = found at hattribute
    generalize right.attributes.lookup use.name = found' at hattribute
    cases hattribute with
    | some hdeclaration => exact h.resolve? hdeclaration.type
    | none =>
      dsimp only
      split
      · exact h.tied.named _
      · exact hresolve
  · exact hresolve

theorem declaration? {reference reference' : ElementRef}
    (href : reference.Matches (matching pairs left right) reference') :
    Option.Rel (ElementDeclaration.Matches (matching pairs left right))
      (left.declaration? reference) (right.declaration? reference') := by
  cases href with
  | locally hdeclaration => exact .some hdeclaration
  | globally => exact h.element? _

theorem document_eq (id : DocumentId) : left.document id = right.document id := by
  rw [document, document, h.documents]

theorem elementName_eq (namespaces : InstanceNamespaces) {reference reference' : ElementRef}
    (href : reference.Matches (matching pairs left right) reference') :
    left.elementName namespaces reference = right.elementName namespaces reference' := by
  cases href with
  | locally hdeclaration => rw [elementName, elementName, hdeclaration.same]
  | globally => rw [elementName, elementName, h.document_eq]

theorem attributeName_eq (namespaces : InstanceNamespaces) {use use' : AttributeDeclaration}
    (huse : use.Matches (matching pairs left right) use') :
    left.attributeName namespaces use = right.attributeName namespaces use' := by
  rw [attributeName, attributeName, huse.same, h.document_eq]

theorem substitutionMembers_eq (head : ExpandedName) :
    left.substitutionMembers head = right.substitutionMembers head := by
  rw [substitutionMembers, substitutionMembers, h.members]

theorem wildcardName_eq : left.wildcardName = right.wildcardName := by
  rw [wildcardName, wildcardName, h.documents]

end Components

section Bounds

theorem contentHeight_eq : left.contentHeight = right.contentHeight := by
  have hattributes := h.attributeGroups.map_perm (f := fun group =>
    Construct.heights group.attributes) fun _ _ hgroup =>
      Construct.heights_eq_of_allMatch hgroup.attributes
  have hchildren := h.modelGroups.map_perm (f := fun group => Construct.heights group.children)
    fun _ _ hgroup => Construct.heights_eq_of_allMatch hgroup.children
  exact ((h.tied.heights.append hattributes).append hchildren).foldl_eq _

theorem walkDepth_eq : left.walkDepth = right.walkDepth := by
  rw [walkDepth, walkDepth, h.contentHeight_eq, h.attributeGroups.length_eq,
    h.modelGroups.length_eq, show left.types.contentHeights.length = _ from
      h.tied.heights.length_eq]
  rfl

end Bounds

end Related

end SchemaSet

end SchemaForms
