import SchemaForms.Namespaces.Instance
import SchemaForms.Text.Blank

/-!
Names that refer to schema components. They are resolved where they are written: the last colon
ends the prefix, and a name without prefix is in the default namespace if one is declared, even an
empty one.
-/

namespace SchemaForms.ExpandedName

def resolve (written : String) (element : Xml.Element) : Except SchemaError ExpandedName :=
  match Text.cutLast ':' written.toList with
  | none => .ok ⟨element.namespaceFor? none, written⟩
  | some (before, after) =>
    let qualifier := String.ofList before
    let uri := if qualifier = "xml" then some Xml.xmlNamespace
      else element.namespaceFor? (some qualifier)
    match uri with
    | some uri => .ok ⟨some uri, String.ofList after⟩
    | none => .error (.unresolvedPrefix qualifier)

/-- A reference in an attribute value. -/
def ofValue (value : String) (element : Xml.Element) : Except SchemaError ExpandedName :=
  resolve (Text.trim value) element

def ofValues (value : String) (element : Xml.Element) : Except SchemaError (List ExpandedName) :=
  (Text.words value).mapM (ofValue · element)

end SchemaForms.ExpandedName
