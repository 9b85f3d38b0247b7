import SchemaForms.Compile.Log
import SchemaForms.Index.Query
import SchemaForms.Template.Basic

/-!
How the nodes of an index are shown. The shape of one occurrence follows from the kind of the node
and the type it is shown as; whether the node is shown by the elements that stand in for it, and
whether it repeats, does not depend on that type. Recursive nodes are neither.
-/

namespace SchemaForms

inductive Shape where
  | attr
  | simple
  | anything
  | complex (content : List Construct)
  | textOnly (derivation : Derivation)
  | derived (derivation : Derivation)
  | recursive
  deriving Repr, Inhabited

namespace Shape

def name : Shape → String
  | attr => "attribute"
  | simple => "simple type"
  | anything => "any type"
  | complex _ => "complex type"
  | textOnly _ => "derived text-only model"
  | derived _ => "derived content model"
  | recursive => "recursive"

def ofDefinition : TypeDefinition → Shape
  | .builtin name => if name = schemaName "anyType" then anything else simple
  | .simple _ => simple
  | .complex type =>
    match type.model with
    | .textOnly derivation => textOnly derivation
    | .derived derivation => derived derivation
    | .constructs content => complex content

def ofNode (types : TypeTable) (node : SchemaNode) (type : TypeId) : Shape :=
  if node.isRecursive then recursive
  else
    match node.kind with
    | .attr => attr
    | .wildcard => anything
    | .element => ofDefinition (types.definition type)

end Shape

structure Classification where
  shape : Shape
  isHead : Bool
  isRepeating : Bool
  deriving Repr, Inhabited

def Classification.name (classification : Classification) : String :=
  (if classification.isRepeating then "repeating " else "") ++
    if classification.isHead then "substitution group" else classification.shape.name

namespace Compile

/-- What is shown, how, and from where on. -/
structure Scope where
  index : SchemaIndex
  mode : Mode
  root : Address
  deriving Repr, Inhabited

namespace Scope

def isEdit (scope : Scope) : Bool := scope.mode = .edit

def types (scope : Scope) : TypeTable := scope.index.set.types

/-- How far below the root of the template an address is. -/
def level (scope : Scope) (address : Address) : Nat := address.depth - scope.root.depth

def node (scope : Scope) (address : Address) : Except CompileError SchemaNode :=
  match scope.index.nodeOf? address with
  | some node => .ok node
  | none => .error (.unknownAddress address)

def classify (scope : Scope) (address : Address) : Except CompileError Classification := do
  let node ← scope.node address
  return ⟨.ofNode scope.types node node.type,
    !node.isRecursive && node.isSubstitutionHead,
    !node.isRecursive && scope.index.isRepeating address⟩

end Scope

end Compile

end SchemaForms
