import SchemaForms.Namespaces.Registry
import SchemaForms.Schema.Occurs

/-!
The components of a schema. Types are held in a table and referred to by identifiers or by name;
what stands inside a complex type, in the order in which it is declared, is a list of constructs.
Constructs refer to groups and global declarations by name and do not check that they exist.
-/

namespace SchemaForms

abbrev DocumentId := Nat

structure TypeId where
  index : Nat
  deriving DecidableEq, Repr, Inhabited

structure SchemaDocument where
  location : String
  targetNamespace : Option String
  namespaces : NamespaceRegistry
  qualifiesElements : Bool
  deriving DecidableEq, Repr, Inhabited

/-- The prefix of the schema language in a document, if it has one. -/
def SchemaDocument.schemaPrefix (document : SchemaDocument) : String :=
  ((document.namespaces.prefixFor? schemaNamespace).filter (· ≠ "")).getD "xs"

inductive TypeRef where
  | named (name : ExpandedName)
  | anonymous (id : TypeId)
  deriving DecidableEq, Repr, Inhabited

inductive DerivationMethod where
  | extension
  | restriction
  deriving DecidableEq, Repr, Inhabited

def DerivationMethod.tag : DerivationMethod → String
  | extension => "extension"
  | restriction => "restriction"

inductive Compositor where
  | all
  | choice
  | sequence
  deriving DecidableEq, Repr, Inhabited

def Compositor.tag : Compositor → String
  | all => "all"
  | choice => "choice"
  | sequence => "sequence"

/-- A declared attribute, or a reference to a global one, whose type is found there. -/
structure AttributeDeclaration where
  name : ExpandedName
  written : String
  document : DocumentId
  isReference : Bool
  type : TypeRef
  isRequired : Bool
  deriving DecidableEq, Repr, Inhabited

structure ElementDeclaration where
  name : ExpandedName
  document : DocumentId
  type : TypeRef
  isAbstract : Bool
  substitutionGroup : Option ExpandedName
  deriving DecidableEq, Repr, Inhabited

inductive ElementRef where
  | locally (declaration : ElementDeclaration)
  | globally (name : ExpandedName) (written : String) (document : DocumentId)
  deriving DecidableEq, Repr, Inhabited

namespace ElementRef

def name : ElementRef → ExpandedName
  | locally declaration => declaration.name
  | globally name .. => name

end ElementRef

inductive Construct where
  | attributeUse (declaration : AttributeDeclaration)
  | attributeGroup (name : ExpandedName)
  | simpleContent (method : DerivationMethod) (base : TypeRef) (children : List Construct)
  | complexContent (method : DerivationMethod) (base : TypeRef) (children : List Construct)
  | compositor (kind : Compositor) (occurs : Occurs) (children : List Construct)
  | group (name : ExpandedName) (occurs : Occurs)
  | element (reference : ElementRef) (occurs : Occurs)
  | wildcard (occurs : Occurs)
  | other (tag : String)
  deriving Repr, Inhabited

structure Derivation where
  method : DerivationMethod
  base : TypeRef
  children : List Construct
  deriving Repr, Inhabited

namespace Construct

def tag : Construct → String
  | attributeUse _ => "attribute"
  | attributeGroup _ => "attributeGroup"
  | simpleContent .. => "simpleContent"
  | complexContent .. => "complexContent"
  | compositor kind .. => kind.tag
  | group .. => "group"
  | element .. => "element"
  | wildcard _ => "any"
  | other tag => tag

/-- Whether a construct declares attributes. -/
def isAttribute : Construct → Bool
  | attributeUse _ => true
  | attributeGroup _ => true
  | _ => false

end Construct

inductive SimpleVariety where
  | restriction (base : TypeRef) (enumeration : List String)
  | list (item : TypeRef)
  | union (members : List TypeRef)
  deriving DecidableEq, Repr, Inhabited

structure SimpleType where
  name : Option ExpandedName
  document : DocumentId
  variety : SimpleVariety
  deriving DecidableEq, Repr, Inhabited

structure ComplexType where
  name : Option ExpandedName
  document : DocumentId
  isAbstract : Bool
  isMixed : Bool
  content : List Construct
  deriving Repr, Inhabited

/-- What the content of a complex type consists of. -/
inductive ContentModel where
  | textOnly (derivation : Derivation)
  | derived (derivation : Derivation)
  | constructs (content : List Construct)
  deriving Repr, Inhabited

/-- The first derivation among the constructs decides. -/
def ContentModel.first? : List Construct → Option ContentModel
  | [] => none
  | .simpleContent method base children :: _ => some (.textOnly ⟨method, base, children⟩)
  | .complexContent method base children :: _ => some (.derived ⟨method, base, children⟩)
  | _ :: others => first? others

def ComplexType.model (type : ComplexType) : ContentModel :=
  (ContentModel.first? type.content).getD (.constructs type.content)

inductive TypeDefinition where
  | builtin (name : ExpandedName)
  | simple (type : SimpleType)
  | complex (type : ComplexType)
  deriving Repr, Inhabited

namespace TypeDefinition

def name? : TypeDefinition → Option ExpandedName
  | builtin name => some name
  | simple type => type.name
  | complex type => type.name

def complex? : TypeDefinition → Option ComplexType
  | complex type => some type
  | _ => none

def isComplex : TypeDefinition → Bool
  | complex _ => true
  | _ => false

end TypeDefinition

structure AttributeGroup where
  name : ExpandedName
  document : DocumentId
  attributes : List Construct
  deriving Repr, Inhabited

structure ModelGroup where
  name : ExpandedName
  document : DocumentId
  kind : Compositor
  occurs : Occurs
  children : List Construct
  deriving Repr, Inhabited

/-- The bounds of a group where it is referred to: those of the reference, unless they are the
default ones. -/
def ModelGroup.effectiveOccurs (group : ModelGroup) (reference : Occurs) : Occurs :=
  if reference = .once then group.occurs else reference

end SchemaForms
