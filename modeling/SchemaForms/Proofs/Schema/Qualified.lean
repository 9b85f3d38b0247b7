import SchemaForms.Proofs.Schema.Entering
import SchemaForms.Proofs.Xml.EmptyDefault

/-!
Reading a document that declares the empty default namespace. A reference without prefix, which was
in no namespace, is in the empty one there, and all others are the same. So nothing changes in what
is read from elements all of whose references are in some namespace, because they have a prefix or
a default namespace is declared further inside.
-/

namespace SchemaForms

theorem ExpandedName.orIn_eq_self {name : ExpandedName} (h : name.namespaceName ≠ none)
    {fallback : Option String} : name.orIn fallback = name := by
  obtain ⟨uri, huri⟩ := Option.ne_none_iff_exists'.mp h
  rw [orIn, huri, Option.some_or, ← huri]

theorem bind_congr_of_ok {ε α β : Type} {first : Except ε α} {next next' : α → Except ε β}
    (h : ∀ a, first = .ok a → next a = next' a) : first >>= next = first >>= next' := by
  cases first with
  | error error => rfl
  | ok a => exact h a rfl

theorem mapM_congr {ε α β : Type} {f g : α → Except ε β} {list : List α}
    (h : ∀ a ∈ list, f a = g a) : list.mapM f = list.mapM g := by
  induction list with
  | nil => rfl
  | cons a others ih =>
    obtain ⟨hfirst, hothers⟩ := List.forall_mem_cons.mp h
    rw [List.mapM_cons, List.mapM_cons, hfirst, ih hothers]

namespace Xml.Element

/-- The element below, by the positions of children. -/
def at? : Element → List Nat → Option Element
  | element, [] => some element
  | element, position :: path => (element.children[position]?).bind (·.at? path)

namespace Alike

variable {fallback : Option String} {element element' : Element}

theorem name_eq (h : element.Alike fallback element') :
    element'.name = element.name.orIn fallback := by
  cases h
  rfl

theorem localName_eq (h : element.Alike fallback element') :
    element'.name.localName = element.name.localName := by
  rw [h.name_eq]
  rfl

theorem attributes_eq (h : element.Alike fallback element') :
    element'.attributes = element.attributes := by
  cases h
  rfl

theorem attribute?_eq (h : element.Alike fallback element') (name : String) :
    element'.attribute? name = element.attribute? name := by
  rw [attribute?, attribute?, attributeNamed?, attributeNamed?, h.attributes_eq]

theorem scope (h : element.Alike fallback element') :
    ScopeAlike fallback element.scope element'.scope := by
  cases h with
  | mk hscope => exact hscope

theorem children (h : element.Alike fallback element') :
    List.Forall₂ (Alike fallback) element.children element'.children := by
  cases h with
  | mk _ hchildren => exact hchildren

theorem at? (h : element.Alike fallback element') (path : List Nat) :
    Option.Rel (Alike fallback) (element.at? path) (element'.at? path) := by
  induction path generalizing element element' with
  | nil => exact .some h
  | cons position path ih =>
    have hchild := List.forall₂_iff_get.mp h.children
    rw [Element.at?, Element.at?]
    by_cases hlt : position < element.children.length
    · have hlt' : position < element'.children.length := hchild.1 ▸ hlt
      rw [List.getElem?_eq_getElem hlt, List.getElem?_eq_getElem hlt']
      exact ih (hchild.2 position hlt hlt')
    · rw [List.getElem?_eq_none (by omega), List.getElem?_eq_none (by omega)]
      exact .none

/-- A name is read in the namespace that is added if it is in none without it. -/
theorem resolve_eq (h : element.Alike fallback element') (written : String) :
    ExpandedName.resolve written element' =
      (ExpandedName.resolve written element).map (ExpandedName.orIn fallback) := by
  have hprefixed : ∀ qualifier, element'.namespaceFor? (some qualifier) =
      element.namespaceFor? (some qualifier) := h.scope.prefixed
  have hdefault : element'.namespaceFor? none = (element.namespaceFor? none).or fallback :=
    h.scope.default
  unfold ExpandedName.resolve
  split
  · rw [hdefault]
    rfl
  · dsimp only
    rw [hprefixed]
    split <;> rfl

end Alike

end Xml.Element

namespace Reading

/-- The attributes with one reference. -/
def referenceNames : List String := ["type", "base", "ref", "itemType"]

/-- The attributes with any number of references. -/
def referencesNames : List String := ["memberTypes", "substitutionGroup"]

/-- The references that an element writes. -/
def references (element : Xml.Element) : List String :=
  (referenceNames.filterMap element.attribute?).map Text.trim ++
    (referencesNames.filterMap element.attribute?).flatMap fun value =>
      (Text.words value).map Text.trim

/-- All references that the element writes are names in some namespace. -/
def isQualified (element : Xml.Element) : Bool :=
  (references element).all fun written =>
    (ExpandedName.resolve written element).toOption.all (·.namespaceName.isSome)

mutual

/-- So are those of the elements of the language below, as far as they are not inside of others. -/
def isQualifiedInside : Xml.Element → Bool
  | ⟨tag, attributes, scope, text, children⟩ =>
    isQualified ⟨tag, attributes, scope, text, children⟩ && areQualifiedInside children

def areQualifiedInside : List Xml.Element → Bool
  | [] => true
  | child :: others =>
    (!isSchemaElement child || isQualifiedInside child) && areQualifiedInside others

end

theorem isQualifiedInside_iff {element : Xml.Element} : isQualifiedInside element = true ↔
    isQualified element = true ∧ areQualifiedInside element.children = true := by
  cases element
  exact Bool.and_eq_true_iff

/-- An element all of whose references are in some namespace, without and with the empty default
namespace. -/
structure Twins (element element' : Xml.Element) : Prop where
  alike : element.Alike (some "") element'
  qualified : isQualifiedInside element = true

/-- What counts as part of the language in a list of children. -/
abbrev TwinsAll : List Xml.Element → List Xml.Element → Prop :=
  List.Forall₂ fun child child' => child.Alike (some "") child' ∧
    (isSchemaElement child = true → isQualifiedInside child = true)

section Elements

variable {element element' : Xml.Element}

theorem isSchemaElement_eq (h : element.Alike (some "") element') :
    isSchemaElement element' = isSchemaElement element := by
  rw [isSchemaElement, isSchemaElement, h.name_eq]
  cases hname : element.name.namespaceName with
  | none => simp [ExpandedName.orIn, hname, schemaNamespace]
  | some uri => simp [ExpandedName.orIn, hname]

theorem isSchemaTag_eq (h : element.Alike (some "") element') (localName : String) :
    isSchemaTag localName element' = isSchemaTag localName element := by
  rw [isSchemaTag, isSchemaTag, isSchemaElement_eq h, h.localName_eq]

theorem required_eq (h : element.Alike (some "") element') (name : String) :
    required element' name = required element name := by
  rw [required, required, h.attribute?_eq, h.localName_eq]

theorem flag_eq (h : element.Alike (some "") element') (name : String) :
    flag element' name = flag element name := by
  rw [flag, flag, h.attribute?_eq]

theorem occurs_eq (h : element.Alike (some "") element') :
    Occurs.ofElement element' = Occurs.ofElement element := by
  rw [Occurs.ofElement, Occurs.ofElement, h.attribute?_eq, h.attribute?_eq]

theorem Twins.resolve_eq (h : Twins element element') {written : String}
    (hwritten : written ∈ references element) :
    ExpandedName.resolve written element' = ExpandedName.resolve written element := by
  have hsome := List.all_eq_true.mp (isQualifiedInside_iff.mp h.qualified).1 written hwritten
  rw [h.alike.resolve_eq]
  cases hname : ExpandedName.resolve written element with
  | error error => rfl
  | ok name =>
    rw [hname] at hsome
    refine congrArg Except.ok (ExpandedName.orIn_eq_self fun hnone => ?_)
    simp [Except.toOption, hnone] at hsome

theorem Twins.ofValue_eq (h : Twins element element') {name value : String}
    (hname : name ∈ referenceNames) (hvalue : element.attribute? name = some value) :
    ExpandedName.ofValue value element' = ExpandedName.ofValue value element := by
  refine h.resolve_eq (List.mem_append_left _ (List.mem_map_of_mem ?_))
  exact List.mem_filterMap.mpr ⟨name, hname, hvalue⟩

theorem Twins.ofValues_eq (h : Twins element element') {name value : String}
    (hname : name ∈ referencesNames) (hvalue : element.attribute? name = some value) :
    ExpandedName.ofValues value element' = ExpandedName.ofValues value element := by
  refine mapM_congr fun word hword => ?_
  refine h.resolve_eq (List.mem_append_right _ (List.mem_flatMap.mpr ⟨value, ?_, ?_⟩))
  · exact List.mem_filterMap.mpr ⟨name, hname, hvalue⟩
  · exact List.mem_map_of_mem hword

theorem Twins.children (h : Twins element element') :
    TwinsAll element.children element'.children := by
  have hqualified := (isQualifiedInside_iff.mp h.qualified).2
  have halike := h.alike.children
  generalize element.children = children at hqualified halike
  generalize element'.children = children' at halike
  induction halike with
  | nil => exact .nil
  | cons hfirst _ ih =>
    rw [areQualifiedInside] at hqualified
    obtain ⟨hchild, hothers⟩ := Bool.and_eq_true_iff.mp hqualified
    exact .cons ⟨hfirst, fun hschema => by simpa [hschema] using hchild⟩ (ih hothers)

theorem Twins.namedOrInline_eq (h : Twins element element') {name : String}
    (hname : name ∈ referenceNames) (inline : Option (Reading TypeDefinition))
    (default : ExpandedName) :
    namedOrInline name element' inline default = namedOrInline name element inline default := by
  unfold namedOrInline
  rw [h.alike.attribute?_eq]
  split
  · rename_i value _ hvalue
    rw [h.ofValue_eq hname hvalue]
  · rfl
  · rfl

theorem Twins.inlineOrNamed_eq (h : Twins element element') {name : String}
    (hname : name ∈ referenceNames) (inline : Option (Reading TypeDefinition))
    (default : ExpandedName) :
    inlineOrNamed name element' inline default = inlineOrNamed name element inline default := by
  unfold inlineOrNamed
  rw [h.namedOrInline_eq hname]

theorem Twins.referredName_eq (h : Twins element element') {name : String}
    (hname : name ∈ referenceNames) : referredName element' name = referredName element name := by
  unfold referredName
  rw [required_eq h.alike]
  exact bind_congr_of_ok fun _ hrequired => h.ofValue_eq hname (attribute?_of_required hrequired)

theorem Twins.memberNames_eq (h : Twins element element') :
    memberNames element' = memberNames element := by
  unfold memberNames
  rw [h.alike.attribute?_eq]
  split
  · rename_i value hvalue
    exact h.ofValues_eq (by simp [referencesNames]) hvalue
  · rfl

theorem Twins.headNames_eq (h : Twins element element') :
    headNames element' = headNames element := by
  unfold headNames
  rw [h.alike.attribute?_eq]
  split
  · rename_i value hvalue
    exact h.ofValues_eq (by simp [referencesNames]) hvalue
  · rfl

theorem Twins.localElementName_eq (h : Twins element element') (origin : Origin) :
    localElementName origin element' = localElementName origin element := by
  unfold localElementName
  rw [h.alike.attribute?_eq, required_eq h.alike]

end Elements

section Functions

variable {origin : Origin}

theorem schemaChildren_alike {element element' : Xml.Element}
    (h : element.Alike (some "") element') :
    List.Forall₂ (Xml.Element.Alike (some "")) (schemaChildren element)
      (schemaChildren element') := by
  refine List.rel_filter (fun child child' hchild => ?_) h.children
  dsimp only
  rw [isSchemaElement_eq hchild]

theorem enumerationValues_eq {element element' : Xml.Element}
    (h : element.Alike (some "") element') :
    enumerationValues element' = enumerationValues element := by
  have hfilter := List.rel_filter (p := (·.name.localName = "enumeration"))
    (q := (·.name.localName = "enumeration"))
    (fun _ _ hchild => by simp [Xml.Element.Alike.localName_eq hchild]) (schemaChildren_alike h)
  unfold enumerationValues
  generalize (schemaChildren element).filter _ = kept at hfilter ⊢
  generalize (schemaChildren element').filter _ = kept' at hfilter ⊢
  induction hfilter with
  | nil => rfl
  | cons hfirst _ ih => rw [List.mapM_cons, List.mapM_cons, required_eq hfirst, ih]

mutual

theorem simpleType_eq (name : Option ExpandedName) : ∀ element element', Twins element element' →
    simpleType origin name element' = simpleType origin name element
  | ⟨tag, attributes, scope, text, children⟩, ⟨_, _, _, _, children'⟩, h => by
    have hchildren : TwinsAll children children' := h.children
    have htag := h.alike.localName_eq
    rw [simpleType, simpleType, varietyIn?_eq _ children children' hchildren,
      varietyIn?_eq _ children children' hchildren, varietyIn?_eq _ children children' hchildren]
    dsimp only at htag ⊢
    rw [htag]
termination_by structural element => element

theorem varietyIn?_eq (localName : String) : ∀ children children', TwinsAll children children' →
    varietyIn? origin localName children' = varietyIn? origin localName children
  | [], _, .nil => rfl
  | child :: others, child' :: others', .cons hfirst hothers => by
    rw [varietyIn?, varietyIn?, isSchemaTag_eq hfirst.1,
      varietyIn?_eq localName others others' hothers]
    split
    · rename_i htag
      rw [variety_eq child child' ⟨hfirst.1, hfirst.2 (Bool.and_eq_true_iff.mp htag).1⟩]
    · rfl
termination_by structural children => children

theorem variety_eq : ∀ element element', Twins element element' →
    variety origin element' = variety origin element
  | ⟨tag, attributes, scope, text, children⟩, ⟨tag', attributes', scope', text', children'⟩, h => by
    have hchildren : TwinsAll children children' := h.children
    have htag := h.alike.localName_eq
    have hbase : "base" ∈ referenceNames := by simp [referenceNames]
    have hitem : "itemType" ∈ referenceNames := by simp [referenceNames]
    rw [variety, variety, simpleTypeIn?_eq children children' hchildren,
      inlineMembers_eq children children' hchildren, h.memberNames_eq,
      enumerationValues_eq h.alike]
    dsimp only at htag ⊢
    simp only [h.namedOrInline_eq hbase, h.namedOrInline_eq hitem, htag]
termination_by structural element => element

theorem simpleTypeIn?_eq : ∀ children children', TwinsAll children children' →
    simpleTypeIn? origin children' = simpleTypeIn? origin children
  | [], _, .nil => rfl
  | child :: others, child' :: others', .cons hfirst hothers => by
    rw [simpleTypeIn?, simpleTypeIn?, isSchemaTag_eq hfirst.1,
      simpleTypeIn?_eq others others' hothers]
    split
    · rename_i htag
      rw [simpleType_eq none child child' ⟨hfirst.1, hfirst.2 (Bool.and_eq_true_iff.mp htag).1⟩]
    · rfl
termination_by structural children => children

theorem inlineMembers_eq : ∀ children children', TwinsAll children children' →
    inlineMembers origin children' = inlineMembers origin children
  | [], _, .nil => rfl
  | child :: others, child' :: others', .cons hfirst hothers => by
    rw [inlineMembers, inlineMembers, isSchemaTag_eq hfirst.1,
      inlineMembers_eq others others' hothers]
    split
    · rename_i htag
      rw [simpleType_eq none child child' ⟨hfirst.1, hfirst.2 (Bool.and_eq_true_iff.mp htag).1⟩]
    · rfl
termination_by structural children => children

end

theorem Twins.attributeDeclaration_eq {element element' : Xml.Element} (h : Twins element element')
    (isGlobal : Bool) : attributeDeclaration origin isGlobal element' =
      attributeDeclaration origin isGlobal element := by
  have hinline : simpleTypeIn? origin element'.children = simpleTypeIn? origin element.children :=
    simpleTypeIn?_eq _ _ h.children
  have htype : "type" ∈ referenceNames := by simp [referenceNames]
  unfold attributeDeclaration
  simp only [h.alike.attribute?_eq, required_eq h.alike, hinline, h.inlineOrNamed_eq htype]
  split
  · rename_i value hvalue
    rw [h.ofValue_eq (by simp [referenceNames]) hvalue]
  · rfl

theorem Twins.elementType_eq {element element' : Xml.Element} (h : Twins element element')
    (complex : Option (Reading TypeDefinition)) :
    elementType origin element' complex = elementType origin element complex := by
  unfold elementType
  rw [simpleTypeIn?_eq _ _ h.children, h.inlineOrNamed_eq (by simp [referenceNames])]

theorem Twins.elementReference_eq {element element' : Xml.Element} (h : Twins element element')
    (complex : Option (Reading TypeDefinition)) :
    elementReference origin element' complex = elementReference origin element complex := by
  unfold elementReference
  rw [h.alike.attribute?_eq, h.localElementName_eq, h.elementType_eq]
  split
  · rename_i value hvalue
    rw [h.ofValue_eq (by simp [referenceNames]) hvalue]
  · rfl

mutual

theorem complexType_eq (name : Option ExpandedName) : ∀ element element', Twins element element' →
    complexType origin name element' = complexType origin name element
  | ⟨tag, attributes, scope, text, children⟩, ⟨_, _, _, _, children'⟩, h => by
    have hchildren : TwinsAll children children' := h.children
    rw [complexType, complexType, constructs_eq children children' hchildren, flag_eq h.alike,
      flag_eq h.alike]
termination_by structural element => element

theorem complexTypeIn?_eq : ∀ children children', TwinsAll children children' →
    complexTypeIn? origin children' = complexTypeIn? origin children
  | [], _, .nil => rfl
  | child :: others, child' :: others', .cons hfirst hothers => by
    rw [complexTypeIn?, complexTypeIn?, isSchemaTag_eq hfirst.1,
      complexTypeIn?_eq others others' hothers]
    split
    · rename_i htag
      rw [complexType_eq none child child' ⟨hfirst.1, hfirst.2 (Bool.and_eq_true_iff.mp htag).1⟩]
    · rfl
termination_by structural children => children

theorem constructs_eq : ∀ children children', TwinsAll children children' →
    constructs origin children' = constructs origin children
  | [], _, .nil => rfl
  | child :: others, child' :: others', .cons hfirst hothers => by
    rw [constructs, constructs, isSchemaElement_eq hfirst.1, hfirst.1.localName_eq,
      constructs_eq others others' hothers]
    split
    · rename_i htag
      rw [construct_eq child child' ⟨hfirst.1, hfirst.2 (Bool.and_eq_true_iff.mp htag).1⟩]
    · rfl
termination_by structural children => children

theorem construct_eq : ∀ element element', Twins element element' →
    construct origin element' = construct origin element
  | ⟨tag, attributes, scope, text, children⟩, ⟨tag', attributes', scope', text', children'⟩, h => by
    have hchildren : TwinsAll children children' := h.children
    have htag : tag'.localName = tag.localName := h.alike.localName_eq
    have href : "ref" ∈ referenceNames := by simp [referenceNames]
    rw [construct, construct, constructs_eq children children' hchildren,
      complexTypeIn?_eq children children' hchildren,
      derivationIn?_eq .extension children children' hchildren,
      derivationIn?_eq .restriction children children' hchildren, h.attributeDeclaration_eq,
      h.elementReference_eq, occurs_eq h.alike]
    simp only [h.referredName_eq href, derivedContent, htag]
termination_by structural element => element

theorem derivationIn?_eq (method : DerivationMethod) :
    ∀ children children', TwinsAll children children' →
      derivationIn? origin method children' = derivationIn? origin method children
  | [], _, .nil => rfl
  | child :: others, child' :: others', .cons hfirst hothers => by
    rw [derivationIn?, derivationIn?, isSchemaTag_eq hfirst.1,
      derivationIn?_eq method others others' hothers]
    split
    · rename_i htag
      rw [derivation_eq method child child'
        ⟨hfirst.1, hfirst.2 (Bool.and_eq_true_iff.mp htag).1⟩]
    · rfl
termination_by structural children => children

theorem derivation_eq (method : DerivationMethod) : ∀ element element', Twins element element' →
    derivation origin method element' = derivation origin method element
  | ⟨tag, attributes, scope, text, children⟩, ⟨_, _, _, _, children'⟩, h => by
    have hchildren : TwinsAll children children' := h.children
    rw [derivation, derivation, constructs_eq children children' hchildren,
      h.referredName_eq (by simp [referenceNames])]
termination_by structural element => element

end

section Global

variable {element element' : Xml.Element} (h : Twins element element')

include h

theorem Twins.globalElement_eq : globalElement origin element' = globalElement origin element := by
  unfold globalElement
  rw [required_eq h.alike, h.headNames_eq, flag_eq h.alike, complexTypeIn?_eq _ _ h.children,
    h.elementType_eq]

theorem Twins.globalAttributeGroup_eq :
    globalAttributeGroup origin element' = globalAttributeGroup origin element := by
  unfold globalAttributeGroup
  rw [required_eq h.alike, constructs_eq _ _ h.children]

/-- The compositor of a group is the same one in both. -/
theorem Twins.compositorChild? :
    Option.Rel (fun found found' => found'.1 = found.1 ∧ Twins found.2 found'.2)
      (compositorChild? element) (compositorChild? element') := by
  have hchildren := h.children
  unfold Reading.compositorChild? schemaChildren
  generalize element.children = children at hchildren
  generalize element'.children = children' at hchildren
  induction hchildren with
  | nil => exact .none
  | @cons child child' others others' hfirst _ ih =>
    rw [List.filter_cons, List.filter_cons, isSchemaElement_eq hfirst.1]
    split
    · rename_i hschema
      rw [List.findSome?_cons, List.findSome?_cons, hfirst.1.localName_eq]
      cases compositorKind? child.name.localName with
      | none => exact ih
      | some kind => exact .some ⟨rfl, hfirst.1, hfirst.2 hschema⟩
    · exact ih

theorem Twins.globalModelGroup_eq :
    globalModelGroup origin element' = globalModelGroup origin element := by
  have hcompositor := h.compositorChild?
  unfold globalModelGroup
  rw [required_eq h.alike]
  generalize Reading.compositorChild? element = found at hcompositor
  generalize Reading.compositorChild? element' = found' at hcompositor
  cases hcompositor with
  | none => rfl
  | @some found found' hfound =>
    obtain ⟨kind, child⟩ := found
    obtain ⟨_, child'⟩ := found'
    obtain ⟨rfl, htwins⟩ := hfound
    dsimp only
    rw [occurs_eq htwins.alike, constructs_eq _ _ htwins.children]

end Global

end Functions

end Reading

end SchemaForms
