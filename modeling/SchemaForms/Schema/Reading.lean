import SchemaForms.Schema.Reference
import SchemaForms.Schema.TypeTable

/-!
Reading components from the elements of a schema document. Only elements in the namespace of the
schema language count, except at the top of the document. Reading enters types into the table: the
anonymous ones in the order in which their definitions end, the types of the language when they are
named. What was entered stays, even when the reading fails later on.
-/

namespace SchemaForms

abbrev Reading := ExceptT SchemaError (StateM TypeTable)

/-- What the components of one document have in common. -/
structure Origin where
  document : DocumentId
  targetNamespace : Option String
  qualifiesElements : Bool
  deriving DecidableEq, Repr, Inhabited

namespace Reading

def isSchemaElement (element : Xml.Element) : Bool :=
  element.name.namespaceName = some schemaNamespace

def schemaChildren (element : Xml.Element) : List Xml.Element :=
  element.children.filter isSchemaElement

def isSchemaTag (localName : String) (element : Xml.Element) : Bool :=
  isSchemaElement element && element.name.localName = localName

def required (element : Xml.Element) (attributeName : String) : Except SchemaError String :=
  match element.attribute? attributeName with
  | some value => .ok value
  | none => .error (.missingAttribute element.name.localName attributeName)

/-- A truth value; it is false where the attribute is missing. -/
def flag (element : Xml.Element) (attributeName : String) : Except SchemaError Bool :=
  match element.attribute? attributeName with
  | none => .ok false
  | some value =>
    match Text.trim value with
    | "true" => .ok true
    | "1" => .ok true
    | "false" => .ok false
    | "0" => .ok false
    | _ => .error (.invalidValue value "xs:boolean")

def namedType (name : ExpandedName) : Reading TypeRef := do
  if name.isBuiltin then modify (·.intern name)
  return .named name

def enterType (definition : TypeDefinition) : Reading TypeId := do
  let (table, id) := (← get).push definition
  set table
  return id

def anonymousType (definition : TypeDefinition) : Reading TypeRef := do
  return .anonymous (← enterType definition)

def enumerationValues (restriction : Xml.Element) : Except SchemaError (List String) :=
  ((schemaChildren restriction).filter (·.name.localName = "enumeration")).mapM (required · "value")

def memberNames (union : Xml.Element) : Except SchemaError (List ExpandedName) :=
  match union.attribute? "memberTypes" with
  | some value => ExpandedName.ofValues value union
  | none => .ok []

/-- The type that an attribute names, or else a child defines, or else a default. -/
def namedOrInline (attributeName : String) (element : Xml.Element)
    (inline : Option (Reading TypeDefinition)) (default : ExpandedName) : Reading TypeRef :=
  match element.attribute? attributeName, inline with
  | some value, _ => do namedType (← ExpandedName.ofValue value element)
  | none, some inline => do anonymousType (← inline)
  | none, none => namedType default

/-- The type that a child defines, or else an attribute names, or else a default. -/
def inlineOrNamed (attributeName : String) (element : Xml.Element)
    (inline : Option (Reading TypeDefinition)) (default : ExpandedName) : Reading TypeRef :=
  match inline with
  | some inline => do anonymousType (← inline)
  | none => namedOrInline attributeName element none default

mutual

/-- A simple type restricts another one, lists it, or joins several. -/
def simpleType (origin : Origin) (name : Option ExpandedName) : Xml.Element →
    Reading TypeDefinition
  | ⟨tag, _, _, _, children⟩ =>
    let variety := ((varietyIn? origin "restriction" children).or
      (varietyIn? origin "list" children)).or (varietyIn? origin "union" children)
    match variety with
    | some variety => do return .simple ⟨name, origin.document, ← variety⟩
    | none =>
      throw (.invalidValue tag.localName "a simpleType with restriction, list or union")

def varietyIn? (origin : Origin) (localName : String) : List Xml.Element →
    Option (Reading SimpleVariety)
  | [] => none
  | child :: others =>
    if isSchemaTag localName child then some (variety origin child)
    else varietyIn? origin localName others

def variety (origin : Origin) : Xml.Element → Reading SimpleVariety
  | ⟨tag, attributes, scope, text, children⟩ =>
    let element : Xml.Element := ⟨tag, attributes, scope, text, children⟩
    match tag.localName with
    | "restriction" => do
      let base ← namedOrInline "base" element (simpleTypeIn? origin children)
        (schemaName "anySimpleType")
      return .restriction base (← enumerationValues element)
    | "list" => do
      return .list (← namedOrInline "itemType" element (simpleTypeIn? origin children)
        (schemaName "anySimpleType"))
    | _ => do
      let named ← (← memberNames element).mapM namedType
      return .union (named ++ (← inlineMembers origin children))

/-- The type of the first child that defines a simple one. -/
def simpleTypeIn? (origin : Origin) : List Xml.Element → Option (Reading TypeDefinition)
  | [] => none
  | child :: others =>
    if isSchemaTag "simpleType" child then some (simpleType origin none child)
    else simpleTypeIn? origin others

def inlineMembers (origin : Origin) : List Xml.Element → Reading (List TypeRef)
  | [] => return []
  | child :: others => do
    if isSchemaTag "simpleType" child then
      let member ← anonymousType (← simpleType origin none child)
      return member :: (← inlineMembers origin others)
    else inlineMembers origin others

end

/-- An attribute declaration. Global ones are in the target namespace, others only if they ask to
be qualified. -/
def attributeDeclaration (origin : Origin) (isGlobal : Bool) (element : Xml.Element) :
    Reading AttributeDeclaration := do
  let isRequired := element.attribute? "use" == some "required"
  match element.attribute? "ref" with
  | some value =>
    let name ← ExpandedName.ofValue value element
    let type ← namedType (schemaName "anySimpleType")
    return ⟨name, Text.trim value, origin.document, true, type, isRequired⟩
  | none =>
    let written ← required element "name"
    let isQualified := isGlobal || element.attribute? "form" == some "qualified"
    let name := ⟨if isQualified then origin.targetNamespace else none, written⟩
    let type ← inlineOrNamed "type" element (simpleTypeIn? origin element.children)
      (schemaName "anySimpleType")
    return ⟨name, written, origin.document, false, type, isRequired⟩

/-- A reference by name, in an attribute that has to be there. -/
def referredName (element : Xml.Element) (attributeName : String) :
    Except SchemaError ExpandedName := do
  ExpandedName.ofValue (← required element attributeName) element

def localElementName (origin : Origin) (element : Xml.Element) :
    Except SchemaError ExpandedName := do
  let isQualified := match element.attribute? "form" with
    | some form => form == "qualified"
    | none => origin.qualifiesElements
  return ⟨if isQualified then origin.targetNamespace else none, ← required element "name"⟩

/-- The type of an element: a complex type or a simple type that a child defines, a named type, or
the type of anything. -/
def elementType (origin : Origin) (element : Xml.Element)
    (complex : Option (Reading TypeDefinition)) : Reading TypeRef :=
  inlineOrNamed "type" element (complex.or (simpleTypeIn? origin element.children))
    (schemaName "anyType")

/-- A reference to a global element, or a local declaration. -/
def elementReference (origin : Origin) (element : Xml.Element)
    (complex : Option (Reading TypeDefinition)) : Reading ElementRef := do
  match element.attribute? "ref" with
  | some value =>
    return .globally (← ExpandedName.ofValue value element) (Text.trim value) origin.document
  | none =>
    let name ← localElementName origin element
    let type ← elementType origin element complex
    return .locally ⟨name, origin.document, type, false, none⟩

def derivedContent (element : Xml.Element) (extension restriction : Option (Reading Derivation)) :
    Reading Derivation :=
  match extension.or restriction with
  | some derivation => derivation
  | none => throw (.invalidValue element.name.localName "an extension or restriction child")

mutual

def complexType (origin : Origin) (name : Option ExpandedName) : Xml.Element →
    Reading TypeDefinition
  | ⟨tag, attributes, scope, text, children⟩ => do
    let element : Xml.Element := ⟨tag, attributes, scope, text, children⟩
    let isAbstract ← flag element "abstract"
    let isMixed ← flag element "mixed"
    let content ← constructs origin children
    return .complex ⟨name, origin.document, isAbstract, isMixed, content⟩

/-- The type of the first child that defines a complex one. -/
def complexTypeIn? (origin : Origin) : List Xml.Element → Option (Reading TypeDefinition)
  | [] => none
  | child :: others =>
    if isSchemaTag "complexType" child then some (complexType origin none child)
    else complexTypeIn? origin others

def constructs (origin : Origin) : List Xml.Element → Reading (List Construct)
  | [] => return []
  | child :: others => do
    if isSchemaElement child && child.name.localName ≠ "annotation" then
      let first ← construct origin child
      return first :: (← constructs origin others)
    else constructs origin others

def construct (origin : Origin) : Xml.Element → Reading Construct
  | ⟨tag, attributes, scope, text, children⟩ => do
    let element : Xml.Element := ⟨tag, attributes, scope, text, children⟩
    match tag.localName with
    | "attribute" => return .attributeUse (← attributeDeclaration origin false element)
    | "attributeGroup" => return .attributeGroup (← referredName element "ref")
    | "simpleContent" =>
      let derivation ← derivedContent element (derivationIn? origin .extension children)
        (derivationIn? origin .restriction children)
      return .simpleContent derivation.method derivation.base derivation.children
    | "complexContent" =>
      let derivation ← derivedContent element (derivationIn? origin .extension children)
        (derivationIn? origin .restriction children)
      return .complexContent derivation.method derivation.base derivation.children
    | "all" =>
      let occurs ← Occurs.ofElement element
      return .compositor .all occurs (← constructs origin children)
    | "choice" =>
      let occurs ← Occurs.ofElement element
      return .compositor .choice occurs (← constructs origin children)
    | "sequence" =>
      let occurs ← Occurs.ofElement element
      return .compositor .sequence occurs (← constructs origin children)
    | "group" =>
      let name ← referredName element "ref"
      return .group name (← Occurs.ofElement element)
    | "element" =>
      let occurs ← Occurs.ofElement element
      let reference ← elementReference origin element (complexTypeIn? origin children)
      return .element reference occurs
    | "any" => return .wildcard (← Occurs.ofElement element)
    | other => return .other other

def derivationIn? (origin : Origin) (method : DerivationMethod) : List Xml.Element →
    Option (Reading Derivation)
  | [] => none
  | child :: others =>
    if isSchemaTag method.tag child then some (derivation origin method child)
    else derivationIn? origin method others

def derivation (origin : Origin) (method : DerivationMethod) : Xml.Element → Reading Derivation
  | ⟨tag, attributes, scope, text, children⟩ => do
    let base ← namedType (← referredName ⟨tag, attributes, scope, text, children⟩ "base")
    return ⟨method, base, ← constructs origin children⟩

end

def headNames (element : Xml.Element) : Except SchemaError (List ExpandedName) :=
  match element.attribute? "substitutionGroup" with
  | some value => ExpandedName.ofValues value element
  | none => .ok []

/-- A global element declaration. Only the first head of a substitution group counts. -/
def globalElement (origin : Origin) (element : Xml.Element) : Reading ElementDeclaration := do
  let written ← required element "name"
  let heads ← headNames element
  let isAbstract ← flag element "abstract"
  let type ← elementType origin element (complexTypeIn? origin element.children)
  return ⟨⟨origin.targetNamespace, written⟩, origin.document, type, isAbstract, heads.head?⟩

def globalAttributeGroup (origin : Origin) (element : Xml.Element) : Reading AttributeGroup := do
  let written ← required element "name"
  let children ← constructs origin element.children
  return ⟨⟨origin.targetNamespace, written⟩, origin.document, children.filter Construct.isAttribute⟩

def compositorKind? (localName : String) : Option Compositor :=
  match localName with
  | "all" => some .all
  | "choice" => some .choice
  | "sequence" => some .sequence
  | _ => none

def compositorChild? (element : Xml.Element) : Option (Compositor × Xml.Element) :=
  (schemaChildren element).findSome? fun child =>
    (compositorKind? child.name.localName).map (·, child)

def globalModelGroup (origin : Origin) (element : Xml.Element) : Reading ModelGroup := do
  let written ← required element "name"
  match compositorChild? element with
  | some (kind, child) =>
    let occurs ← Occurs.ofElement child
    let children ← constructs origin child.children
    return ⟨⟨origin.targetNamespace, written⟩, origin.document, kind, occurs, children⟩
  | none => throw (.missingAttribute "group" "sequence|choice|all")

end Reading

end SchemaForms
