import SchemaForms.Name

/-!
Documents as trees of elements. An element keeps its own text in one piece, because nothing here
depends on how text and child elements alternate. The namespaces in scope are listed as the
element's own declarations in their order, then the inherited ones that are not declared again.
The prefix xml is never listed.
-/

namespace SchemaForms.Xml

def xmlNamespace : String := "http://www.w3.org/XML/1998/namespace"

structure Attribute where
  name : ExpandedName
  value : String
  deriving DecidableEq, Repr, Inhabited

structure NamespaceBinding where
  qualifier : Option String
  uri : String
  deriving DecidableEq, Repr, Inhabited

structure Element where
  name : ExpandedName
  attributes : List Attribute
  scope : List NamespaceBinding
  text : String
  children : List Element
  deriving Repr, Inhabited

namespace Element

mutual

/-- Trees are compared part by part. -/
def decEq : (left right : Element) → Decidable (left = right)
  | ⟨name, attributes, scope, text, children⟩, ⟨name', attributes', scope', text', children'⟩ =>
    match decEqAll children children' with
    | isTrue h =>
      decidable_of_iff (name = name' ∧ attributes = attributes' ∧ scope = scope' ∧ text = text')
        (by simp [h])
    | isFalse h => isFalse (by simp [h])

def decEqAll : (left right : List Element) → Decidable (left = right)
  | [], [] => isTrue rfl
  | [], _ :: _ => isFalse (by simp)
  | _ :: _, [] => isFalse (by simp)
  | first :: others, first' :: others' =>
    match decEq first first', decEqAll others others' with
    | isTrue h, isTrue h' => isTrue (by rw [h, h'])
    | isFalse h, _ => isFalse (by simp [h])
    | _, isFalse h => isFalse (by simp [h])

end

instance : DecidableEq Element := decEq

def attributeNamed? (element : Element) (name : ExpandedName) : Option String :=
  (element.attributes.find? (·.name = name)).map Attribute.value

/-- The value of an attribute without namespace. -/
def attribute? (element : Element) (localName : String) : Option String :=
  element.attributeNamed? ⟨none, localName⟩

def namespaceFor? (element : Element) (qualifier : Option String) : Option String :=
  (element.scope.find? (·.qualifier = qualifier)).map NamespaceBinding.uri

end Element

end SchemaForms.Xml
