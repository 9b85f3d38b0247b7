import SchemaForms.Name
import SchemaForms.Text.Quoted

/-!
What can go wrong with a schema: its text, its references and its imports. Each cause has one
message. The reader of documents gives no reason, so neither does the message for malformed text.
-/

namespace SchemaForms

inductive ImportFailure where
  | unsupported
  | unreadable (reason : String)
  deriving DecidableEq, Repr

inductive SchemaError where
  | malformed
  | notASchema (found : String)
  | unresolvedPrefix (qualifier : String)
  | missingAttribute (element attributeName : String)
  | invalidValue (value expected : String)
  | unknownComponent (kind : String) (name : ExpandedName)
  | importFailed (location : String) (cause : ImportFailure)
  | nestedTooDeep
  deriving DecidableEq, Repr

namespace ImportFailure

def message : ImportFailure → String
  | unsupported => "the resolver does not support the import"
  | unreadable reason => "failed to read schema file: " ++ reason

end ImportFailure

namespace SchemaError

def message : SchemaError → String
  | malformed => "failed to parse schema document:"
  | notASchema found => "expected a <schema> root element, found <" ++ found ++ ">"
  | unresolvedPrefix qualifier =>
    "failed to resolve prefix " ++ Text.quoted qualifier ++ " to a namespace URI"
  | missingAttribute element attributeName =>
    "<" ++ element ++ "> is missing the required " ++ Text.quoted attributeName ++ " attribute"
  | invalidValue value expected => "invalid value " ++ Text.quoted value ++ " for " ++ expected
  | unknownComponent kind name => "no " ++ kind ++ " named " ++ name.text
  | importFailed location cause =>
    "failed to import " ++ Text.quoted location ++ ": " ++ cause.message
  | nestedTooDeep => "schema documents are nested too deep"

end SchemaError

end SchemaForms
