import SchemaForms.Schema.Error
import SchemaForms.Schema.Location
import SchemaForms.Xml.Element

/-!
References from one schema document to another: imports, inclusions and redefinitions. Both the
namespace and the location may be missing. An import of the namespace that the document itself
describes is refused.
-/

namespace SchemaForms

structure Import where
  namespaceName : Option String
  location : Option String
  base : String
  deriving DecidableEq, Repr, Inhabited

namespace Import

def isImportTag (localName : String) : Bool :=
  localName = "import" || localName = "include" || localName = "redefine"

def ofElement (element schema : Xml.Element) (base : String) : Except SchemaError Import :=
  let namespaceName := element.attribute? "namespace"
  match namespaceName, schema.attribute? "targetNamespace" with
  | some uri, some target =>
    if element.name.localName = "import" && uri = target then
      .error (.invalidValue uri "an import namespace other than the targetNamespace")
    else .ok ⟨namespaceName, element.attribute? "schemaLocation", base⟩
  | _, _ => .ok ⟨namespaceName, element.attribute? "schemaLocation", base⟩

def resolvedLocation? (reference : Import) : Option String :=
  reference.location.map (Location.resolve reference.base)

end Import

end SchemaForms
