import SchemaForms.Namespaces.Registry
import SchemaForms.Schema.Error

/-!
How names are spelled in documents and addresses. Either no name carries a prefix, or prefixes are
taken from one registry in which the default namespace has a name of its own. A name written in a
schema is resolved twice: its prefix to a namespace where it is written, and the namespace back to
the prefix used here. Names of the schema language itself keep their spelling.
-/

namespace SchemaForms

inductive InstanceNamespaces where
  | disabled
  | enabled (registry : NamespaceRegistry) (defaultPrefix : String)
  deriving DecidableEq, Repr, Inhabited

def ExpandedName.isBuiltin (name : ExpandedName) : Bool :=
  name.namespaceName = some schemaNamespace

namespace InstanceNamespaces

def isEnabled : InstanceNamespaces → Bool
  | disabled => false
  | enabled .. => true

def registry : InstanceNamespaces → NamespaceRegistry
  | disabled => .empty
  | enabled registry _ => registry

def defaultPrefix : InstanceNamespaces → String
  | disabled => ""
  | enabled _ defaultPrefix => defaultPrefix

def prefixFor? (namespaces : InstanceNamespaces) (uri : String) : Option String :=
  if uri = Xml.xmlNamespace then some "xml"
  else
    match namespaces with
    | disabled => none
    | enabled registry defaultPrefix =>
      (registry.prefixFor? uri).map fun qualifier =>
        if qualifier = "" then defaultPrefix else qualifier

/-- A binding of the default prefix itself comes before the default namespace. -/
def namespaceFor? (namespaces : InstanceNamespaces) (qualifier : Option String) :
    Option String :=
  match namespaces, qualifier with
  | disabled, _ => none
  | enabled .., none => none
  | enabled registry defaultPrefix, some qualifier =>
    if qualifier = defaultPrefix then
      (registry.namespaceFor? qualifier).or registry.defaultNamespace?
    else registry.namespaceFor? qualifier

def prefixedName (namespaces : InstanceNamespaces) (name : ExpandedName) : PrefixedName :=
  .make (name.namespaceName.bind namespaces.prefixFor?) name.localName

def resolve (namespaces : InstanceNamespaces) (written : String) (scope : NamespaceRegistry) :
    Except SchemaError PrefixedName :=
  match Text.cutFirst ':' written.toList with
  | none => .ok (.unprefixed written)
  | some (before, after) =>
    match scope.namespaceFor? (String.ofList before) with
    | none => .error (.unresolvedPrefix (String.ofList before))
    | some uri =>
      let name := ExpandedName.ofNamespace uri (String.ofList after)
      .ok (if name.isBuiltin then .parse written else namespaces.prefixedName name)

end InstanceNamespaces

end SchemaForms
