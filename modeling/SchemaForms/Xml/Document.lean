import SchemaForms.Xml.Element
import SchemaForms.Xml.Prolog
import SchemaForms.Xml.Reference

/-!
From markup to the tree of elements. Entities are put in where they are referred to: their value is
content of its own, which may open and close elements. Entities nest ten deep, and within one
outermost reference at most 255 further ones are followed. Names get their namespaces from the
declarations in scope. A start tag that its entity cuts off opens nothing; its attributes count as
written at the front of the next tag.
-/

namespace SchemaForms.Xml

/-- An element whose end tag has not been read. Text and children are held last first. -/
structure OpenElement where
  written : WrittenName
  name : ExpandedName
  attributes : List Attribute
  scope : List NamespaceBinding
  text : List Char
  children : List Element
  deriving Repr, Inhabited

/-- The elements that are open, innermost first, the finished document elements, last first, the
attributes of start tags that were cut off, and the number of references followed within the
outermost one. -/
structure Builder where
  opened : List OpenElement
  finished : List Element
  pending : List (WrittenName × String)
  followed : Nat
  deriving Repr, Inhabited

def xmlnsNamespace : String := "http://www.w3.org/2000/xmlns/"

def maxEntityDepth : Nat := 10

def maxFollowed : Nat := 255

def entityValue? (entities : List Entity) (name : String) : Option (List Char) :=
  (entities.find? (·.name = name)).map Entity.value

/-- Counts a reference that stands inside an entity. -/
def follow? (isNested : Bool) (followed : Nat) : Option Nat :=
  if isNested then (if followed < maxFollowed then some (followed + 1) else none)
  else some followed

/-- The count starts anew outside of all entities. -/
def leave (isNested : Bool) (followed : Nat) : Nat := if isNested then followed else 0

/-- The value of an attribute. Inside an entity, a less-than sign may not be smuggled in by its
number. -/
def attributePieces? (inEntity : String → Nat → Option (List Char × Nat)) (isNested : Bool) :
    Nat → List Piece → Option (List Char × Nat)
  | followed, [] => some ([], followed)
  | followed, .written '\r' :: .written '\n' :: pieces =>
    (attributePieces? inEntity isNested followed pieces).map fun (value, followed) =>
      (' ' :: value, followed)
  | followed, .written c :: pieces =>
    (attributePieces? inEntity isNested followed pieces).map fun (value, followed) =>
      (spaced c :: value, followed)
  | followed, .numbered c :: pieces =>
    if isNested && c == '<' then none
    else
      (attributePieces? inEntity isNested followed pieces).map fun (value, followed) =>
        ((if isNested then spaced c else c) :: value, followed)
  | followed, .entity name :: pieces => do
    let (inner, followed) ← inEntity name (← follow? isNested followed)
    let (value, followed) ←
      attributePieces? inEntity isNested (leave isNested followed) pieces
    return (inner ++ value, followed)

def attributeEntity? (entities : List Entity) : Nat → String → Nat → Option (List Char × Nat)
  | 0, _, _ => none
  | depth + 1, name, followed => do
    let pieces ← readPieces? (← entityValue? entities name)
    attributePieces? (attributeEntity? entities depth) true followed pieces

/-- A value in an element whose markup may go so many entities deeper. -/
def attributeValue? (entities : List Entity) (depth : Nat) (written : List Char) (followed : Nat) :
    Option (String × Nat) := do
  let (value, followed) ← attributePieces? (attributeEntity? entities depth)
    (depth < maxEntityDepth) followed (← readPieces? written)
  return (String.ofList value, followed)

def attributeValues? (entities : List Entity) (depth : Nat) :
    List WrittenAttribute → Nat → Option (List (WrittenName × String) × Nat)
  | [], followed => some ([], followed)
  | first :: others, followed => do
    let (value, followed) ← attributeValue? entities depth first.value followed
    let (values, followed) ← attributeValues? entities depth others followed
    return ((first.name, value) :: values, followed)

/-- The namespaces that a tag declares. The prefix xml and its namespace belong together, and the
namespace of declarations is never declared. -/
def declaredNamespaces? : List (WrittenName × String) → Option (List NamespaceBinding)
  | [] => some []
  | (name, uri) :: others => do
    let bindings ← declaredNamespaces? others
    if name.qualifier = "xmlns" then
      if uri = xmlnsNamespace || (name.localName = "xml") != (uri = xmlNamespace) then none
      else if name.localName = "xml" then some bindings
      else if bindings.any (·.qualifier = some name.localName) then none
      else some (⟨some name.localName, uri⟩ :: bindings)
    else if name.localName = "xmlns" then
      if uri = xmlNamespace || uri = xmlnsNamespace then none
      else some (⟨none, uri⟩ :: bindings)
    else some bindings

def isNamespaceDeclaration (name : WrittenName) : Bool :=
  name.qualifier = "xmlns" || name.localName = "xmlns"

def inheritScope (declared inherited : List NamespaceBinding) : List NamespaceBinding :=
  if declared.isEmpty then inherited
  else
    inherited.foldl
      (fun scope binding =>
        if scope.any (·.qualifier = binding.qualifier) then scope else scope ++ [binding])
      declared

def lookupScope (scope : List NamespaceBinding) (qualifier : Option String) : Option String :=
  (scope.find? (·.qualifier = qualifier)).map NamespaceBinding.uri

/-- A name without prefix has no namespace as an attribute. -/
def attributeName? (scope : List NamespaceBinding) (name : WrittenName) : Option ExpandedName :=
  if name.qualifier = "xml" then some ⟨some xmlNamespace, name.localName⟩
  else if name.qualifier = "" then some ⟨none, name.localName⟩
  else (lookupScope scope (some name.qualifier)).map fun uri => ⟨some uri, name.localName⟩

/-- A name without prefix is in the default namespace as an element, if there is one. -/
def elementName? (scope : List NamespaceBinding) (name : WrittenName) : Option ExpandedName :=
  if name.qualifier = "" then some ⟨lookupScope scope none, name.localName⟩
  else (lookupScope scope (some name.qualifier)).map fun uri => ⟨some uri, name.localName⟩

def resolveAttributes? (scope : List NamespaceBinding) :
    List (WrittenName × String) → Option (List Attribute)
  | [] => some []
  | (written, value) :: others => do
    let attributes ← resolveAttributes? scope others
    let name ← attributeName? scope written
    if attributes.any (·.name = name) then none else some (⟨name, value⟩ :: attributes)

/-- The namespaces in scope in a tag, and the attributes by their expanded names. -/
def resolveTag? (inherited : List NamespaceBinding) (values : List (WrittenName × String)) :
    Option (List NamespaceBinding × List Attribute) := do
  let scope := inheritScope (← declaredNamespaces? values) inherited
  let attributes ←
    resolveAttributes? scope (values.filter fun (name, _) => !isNamespaceDeclaration name)
  return (scope, attributes)

def openElement? (inherited : List NamespaceBinding) (name : WrittenName)
    (values : List (WrittenName × String)) : Option OpenElement := do
  let (scope, attributes) ← resolveTag? inherited values
  return ⟨name, ← elementName? scope name, attributes, scope, [], []⟩

def OpenElement.close (element : OpenElement) : Element :=
  ⟨element.name, element.attributes, element.scope, String.ofList element.text.reverse,
    element.children.reverse⟩

namespace Builder

def scope (builder : Builder) : List NamespaceBinding :=
  match builder.opened with
  | [] => []
  | element :: _ => element.scope

def addElement (builder : Builder) (element : Element) : Builder :=
  match builder.opened with
  | [] => { builder with finished := element :: builder.finished }
  | parent :: outer =>
    { builder with opened := { parent with children := element :: parent.children } :: outer }

/-- Text outside of all elements is dropped. -/
def addText (builder : Builder) (reversed : List Char) : Builder :=
  match builder.opened with
  | [] => builder
  | parent :: outer =>
    { builder with opened := { parent with text := reversed ++ parent.text } :: outer }

/-- Attributes that are pending at an end tag have to be right there, and then they are dropped. -/
def closeElement? (builder : Builder) (name : WrittenName) : Option Builder :=
  match builder.opened with
  | [] => none
  | element :: outer => do
    let _ ← resolveTag? element.scope builder.pending
    if element.written = name then
      some (addElement { builder with opened := outer, pending := [] } element.close)
    else none

/-- Adds the attributes of a start tag to those that are pending. -/
def addAttributes? (entities : List Entity) (depth : Nat) (builder : Builder) (name : WrittenName)
    (attributes : List WrittenAttribute) : Option Builder := do
  if name.qualifier = "xmlns" then none
  let (values, followed) ← attributeValues? entities depth attributes builder.followed
  return { builder with pending := builder.pending ++ values, followed := followed }

def addTag? (entities : List Entity) (depth : Nat) (builder : Builder) (name : WrittenName)
    (attributes : List WrittenAttribute) (isEmpty : Bool) : Option Builder := do
  let builder ← builder.addAttributes? entities depth name attributes
  let element ← openElement? builder.scope name builder.pending
  let builder := { builder with pending := [] }
  return if isEmpty then builder.addElement element.close
    else { builder with opened := element :: builder.opened }

/-- The namespaces that a cut off tag declares are checked at once. -/
def addCutOffTag? (entities : List Entity) (depth : Nat) (builder : Builder) (name : WrittenName)
    (attributes : List WrittenAttribute) : Option Builder := do
  let builder ← builder.addAttributes? entities depth name attributes
  let _ ← declaredNamespaces? builder.pending
  return builder

/-- Adds the pieces of a text. The characters since the last entity are held last first, and the
next one is kept as written if a character was given by its number right before it. -/
def addPieces? (inEntity : String → Builder → Option Builder) (isNested : Bool) :
    Bool → List Char → Builder → List Piece → Option Builder
  | _, reversed, builder, [] => some (builder.addText reversed)
  | isKept, reversed, builder, .written c :: pieces =>
    addPieces? inEntity isNested false
      (if isKept then c :: reversed else addWritten pieces.isEmpty c reversed) builder pieces
  | _, reversed, builder, .numbered c :: pieces =>
    addPieces? inEntity isNested (!isNested)
      (if isNested then addWritten pieces.isEmpty c reversed else c :: reversed) builder pieces
  | _, reversed, builder, .entity name :: pieces => do
    let builder := builder.addText reversed
    let inner ← inEntity name { builder with followed := ← follow? isNested builder.followed }
    addPieces? inEntity isNested false []
      { inner with followed := leave isNested inner.followed } pieces

/-- Adds markup. An end tag that comes before any start tag of the same entity is refused. -/
def addMarkup? (entities : List Entity) (depth : Nat)
    (inEntity : String → Builder → Option Builder) :
    Bool → Builder → List Markup → Option Builder
  | _, builder, [] => some builder
  | hasTag, builder, markup :: more =>
    match markup with
    | .startTag name attributes isEmpty => do
      addMarkup? entities depth inEntity true
        (← builder.addTag? entities depth name attributes isEmpty) more
    | .cutOffTag name attributes => do
      addMarkup? entities depth inEntity true
        (← builder.addCutOffTag? entities depth name attributes) more
    | .endTag name => do
      if !hasTag then none
      addMarkup? entities depth inEntity hasTag (← builder.closeElement? name) more
    | .text written => do
      let isNested := decide (depth < maxEntityDepth)
      addMarkup? entities depth inEntity hasTag
        (← addPieces? inEntity isNested false [] builder (← readPieces? written)) more
    | .literal written => do
      addMarkup? entities depth inEntity hasTag
        (← addPieces? inEntity false false [] builder (written.map .written)) more
    | .ignored => addMarkup? entities depth inEntity hasTag builder more

/-- Adds the value of an entity that may go so many entities deeper. -/
def addEntity? (entities : List Entity) : Nat → String → Builder → Option Builder
  | 0, _, _ => none
  | depth + 1, name, builder => do
    let (content, _) ← readContent? 0 (← entityValue? entities name)
    addMarkup? entities depth (addEntity? entities depth) false builder content

end Builder

/-- Reads a document and answers its element. A document type is refused unless allowed. -/
def read? (allowDoctype : Bool) (source : String) : Option Element := do
  let document ← WrittenDocument.read? allowDoctype source.toList
  let builder ← Builder.addMarkup? document.entities maxEntityDepth
    (Builder.addEntity? document.entities maxEntityDepth) true ⟨[], [], [], 0⟩ document.markup
  if !builder.opened.isEmpty then none
  else builder.finished.getLast?

end SchemaForms.Xml
