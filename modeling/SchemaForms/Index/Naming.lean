import SchemaForms.Namespaces.Instance
import SchemaForms.Schema.Set

/-!
How declared elements and attributes are called in addresses. A reference written with a prefix is
resolved against the namespaces at the top of its document. Attributes are only qualified when they
are written with a prefix.
-/

namespace SchemaForms.SchemaSet

def declaration? (set : SchemaSet) : ElementRef → Option ElementDeclaration
  | .locally declaration => some declaration
  | .globally name .. => set.element? name

def elementName (set : SchemaSet) (namespaces : InstanceNamespaces) :
    ElementRef → Except SchemaError PrefixedName
  | .locally declaration => .ok (namespaces.prefixedName declaration.name)
  | .globally name written document =>
    if name.isBuiltin then .ok (.parse written)
    else if written.toList.contains ':' then
      namespaces.resolve written (set.document document).namespaces
    else .ok (namespaces.prefixedName name)

def attributeName (set : SchemaSet) (namespaces : InstanceNamespaces)
    (use : AttributeDeclaration) : Except SchemaError PrefixedName :=
  if use.written.toList.contains ':' then
    namespaces.resolve use.written (set.document use.document).namespaces
  else .ok (.unprefixed use.written)

/-- The name that stands for any element: the first document's name for it. -/
def wildcardName (set : SchemaSet) : PrefixedName :=
  .make (some ((set.documents.head?.map SchemaDocument.schemaPrefix).getD "xs")) "any"

end SchemaForms.SchemaSet
