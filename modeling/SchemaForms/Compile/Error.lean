import SchemaForms.Address.Basic
import SchemaForms.Schema.Error

/-!
Why a node of a schema cannot be shown in a template. Each cause has one message.
-/

namespace SchemaForms

inductive CompileError where
  | unknownAddress (address : Address)
  | headWithoutParent (address : Address)
  | undefinedModelGroup (address : Address) (group : ExpandedName)
  | undefinedAttributeGroup (address : Address) (group : ExpandedName)
  | undefinedBase (address : Address)
  | endlessDerivation (address : Address)
  | restrictedText (address : Address)
  | unrecognizedConstruct (address : Address) (tag : String)
  | unresolvedName (cause : SchemaError)
  | nestedTooDeep (address : Address)
  deriving DecidableEq, Repr

namespace CompileError

def inconsistency (address : Address) (reason : String) : String :=
  "schema inconsistency at " ++ address.text ++ ": " ++ reason

def message : CompileError → String
  | unknownAddress address => "no schema node at " ++ address.text
  | headWithoutParent address => inconsistency address "substitution head at the document root"
  | undefinedModelGroup address group =>
    inconsistency address ("model group " ++ group.text ++ " is not defined")
  | undefinedAttributeGroup address group =>
    inconsistency address ("attribute group " ++ group.text ++ " is not defined")
  | undefinedBase address => inconsistency address "base type is not defined"
  | endlessDerivation address => inconsistency address "extension chain does not terminate"
  | restrictedText address =>
    "restriction of text-only content at " ++ address.text ++ " is not supported"
  | unrecognizedConstruct address tag =>
    "unrecognized construct <" ++ tag ++ "> at " ++ address.text
  | unresolvedName cause => cause.message
  | nestedTooDeep address => inconsistency address "constructs are nested too deep"

end CompileError

end SchemaForms
