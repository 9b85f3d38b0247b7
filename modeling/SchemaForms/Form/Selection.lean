import SchemaForms.Address.Basic
import SchemaForms.Namespaces.Instance
import SchemaForms.Text.Blank

/-!
What an address selects in a document. Names are matched by their meaning where prefixes are in use
and by their local part where they are not. The name of the wildcard matches every element. A
position selects one among the children of the same name of each parent; a segment without position
selects them all. The document element is selected whatever its index says.
-/

namespace SchemaForms

/-- A document seen through the namespaces of addresses. -/
structure Instance where
  root : Xml.Element
  namespaces : InstanceNamespaces
  deriving Repr, Inhabited

namespace InstanceNamespaces

def matchesElement (namespaces : InstanceNamespaces) (name : PrefixedName)
    (element : Xml.Element) : Bool :=
  match namespaces with
  | disabled =>
    (name.localName = "any" && name.qualifier.isSome) || element.name.localName = name.localName
  | enabled .. =>
    let uri := namespaces.namespaceFor? name.qualifier
    (uri = some schemaNamespace && name.localName = "any") || element.name = ⟨uri, name.localName⟩

def matchesAttribute (namespaces : InstanceNamespaces) (name : PrefixedName)
    (candidate : Xml.Attribute) : Bool :=
  match namespaces with
  | disabled => candidate.name.localName = name.localName
  | enabled .. =>
    let uri := if name.qualifier = some "xml" then some Xml.xmlNamespace
      else namespaces.namespaceFor? name.qualifier
    candidate.name = ⟨uri, name.localName⟩

end InstanceNamespaces

namespace Instance

def childrenNamed (record : Instance) (name : PrefixedName) (element : Xml.Element) :
    List Xml.Element :=
  element.children.filter (record.namespaces.matchesElement name)

def pick (index : Option Index) (elements : List Xml.Element) : List Xml.Element :=
  match index with
  | some (.position number) => (elements.drop (number - 1)).take 1
  | _ => elements

/-- Follows element segments downwards. -/
def descend (record : Instance) : List Segment → List Xml.Element → List Xml.Element
  | .element name index :: segments, parents =>
    descend record segments
      (parents.flatMap fun parent => pick index (record.childrenNamed name parent))
  | _, parents => parents

def elements (record : Instance) (address : Address) : List Xml.Element :=
  match address.segments with
  | [] => []
  | first :: segments =>
    if record.namespaces.matchesElement first.name record.root then
      record.descend segments [record.root]
    else []

def attribute? (record : Instance) (name : PrefixedName) (element : Xml.Element) :
    Option String :=
  (element.attributes.find? (record.namespaces.matchesAttribute name)).map Xml.Attribute.value

def parentElements (record : Instance) (address : Address) : List Xml.Element :=
  record.elements (address.parent?.getD .empty)

/-- How often an element or an attribute occurs. -/
def count (record : Instance) (address : Address) : Nat :=
  match address.leaf? with
  | some (.attr name) =>
    (record.parentElements address).countP fun element => (record.attribute? name element).isSome
  | _ => (record.elements address).length

def childCount (record : Instance) (address : Address) : Nat :=
  ((record.elements address).head?.map fun element => element.children.length).getD 0

/-- How many children of the first element are among the members. -/
def memberCount (record : Instance) (address : Address) (members : List PrefixedName) : Nat :=
  ((record.elements address).head?.map fun element =>
    element.children.countP fun child =>
      members.any fun name => record.namespaces.matchesElement name child).getD 0

/-- The value of an attribute, or the text of an element without the blanks around it. A blank text
is no value. -/
def value? (record : Instance) (address : Address) : Option String :=
  match address.leaf? with
  | none => none
  | some (.attr name) => (record.parentElements address).head?.bind (record.attribute? name)
  | some (.element ..) =>
    ((record.elements address).head?.map fun element => Text.trim element.text).filter (· ≠ "")

end Instance

end SchemaForms
