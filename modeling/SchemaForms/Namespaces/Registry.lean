import SchemaForms.Keyed
import SchemaForms.Xml.Element

/-!
Prefixes and the namespaces bound to them, in order of first binding. The empty prefix stands for
the default namespace. Binding a prefix again keeps its place and changes its namespace. The prefix
xml is bound to its own namespace from the outset and is not listed.
-/

namespace SchemaForms

def schemaNamespace : String := "http://www.w3.org/2001/XMLSchema"

structure NamespaceRegistry where
  bindings : List (String × String)
  deriving DecidableEq, Repr, Inhabited

namespace NamespaceRegistry

def empty : NamespaceRegistry := ⟨[]⟩

def register (registry : NamespaceRegistry) (qualifier uri : String) : NamespaceRegistry :=
  ⟨Keyed.put qualifier uri registry.bindings⟩

def ofList (bindings : List (String × String)) : NamespaceRegistry :=
  bindings.foldl (fun registry (qualifier, uri) => registry.register qualifier uri) empty

/-- The namespaces in scope at an element. -/
def ofElement (element : Xml.Element) : NamespaceRegistry :=
  ofList (element.scope.map fun binding => (binding.qualifier.getD "", binding.uri))

def namespaceFor? (registry : NamespaceRegistry) (qualifier : String) : Option String :=
  if qualifier = "xml" then some Xml.xmlNamespace else registry.bindings.lookup qualifier

def defaultNamespace? (registry : NamespaceRegistry) : Option String :=
  registry.namespaceFor? ""

/-- The first prefix bound to a namespace, the empty prefix only if there is no other. -/
def prefixFor? (registry : NamespaceRegistry) (uri : String) : Option String :=
  if uri = Xml.xmlNamespace then some "xml"
  else
    let bound := (registry.bindings.filter (·.2 = uri)).map Prod.fst
    (bound.find? (· ≠ "")).or bound.head?

end NamespaceRegistry

end SchemaForms
