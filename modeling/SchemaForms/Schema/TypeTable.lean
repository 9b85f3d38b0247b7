import SchemaForms.Schema.Components
import SchemaForms.Namespaces.Instance

/-!
The table of types. An identifier is a place in the table, so tables only grow at their end. Types
of the schema language itself are entered when they are first referred to. Questions about a simple
type follow the bases of restrictions for at most 32 steps, which ends them on cycles.
-/

namespace SchemaForms

def schemaName (localName : String) : ExpandedName := ⟨some schemaNamespace, localName⟩

structure TypeTable where
  definitions : List TypeDefinition
  named : List (ExpandedName × TypeId)
  deriving Repr, Inhabited

namespace TypeTable

def maxDerivationDepth : Nat := 32

/-- Identifiers that the table has not handed out stand for the type of anything. -/
def definition (table : TypeTable) (id : TypeId) : TypeDefinition :=
  table.definitions.getD id.index (.builtin (schemaName "anyType"))

def namedType? (table : TypeTable) (name : ExpandedName) : Option TypeId := table.named.lookup name

def resolve? (table : TypeTable) : TypeRef → Option TypeId
  | .named name => table.namedType? name
  | .anonymous id => some id

def push (table : TypeTable) (definition : TypeDefinition) : TypeTable × TypeId :=
  ({ table with definitions := table.definitions ++ [definition] }, ⟨table.definitions.length⟩)

def intern (table : TypeTable) (name : ExpandedName) : TypeTable :=
  match table.namedType? name with
  | some _ => table
  | none =>
    let (table, id) := table.push (.builtin name)
    { table with named := Keyed.put name id table.named }

/-- The types that are referred to without being written: languages and the type of anything. -/
def initial : TypeTable :=
  (TypeTable.intern ⟨[], []⟩ (schemaName "language")).intern (schemaName "anyType")

def enumerationWithin (table : TypeTable) : Nat → TypeId → List String
  | 0, _ => []
  | depth + 1, id =>
    match table.definition id with
    | .simple ⟨_, _, .restriction base enumeration⟩ =>
      if !enumeration.isEmpty then enumeration
      else
        match table.resolve? base with
        | some base => enumerationWithin table depth base
        | none => []
    | _ => []

/-- The values that a type is restricted to. -/
def enumeration (table : TypeTable) (id : TypeId) : List String :=
  table.enumerationWithin maxDerivationDepth id

def isEnumeration (table : TypeTable) (id : TypeId) : Bool := !(table.enumeration id).isEmpty

/-- A union in which some members are enumerations and some are not. -/
def isComboUnion (table : TypeTable) (id : TypeId) : Bool :=
  match table.definition id with
  | .simple ⟨_, _, .union members⟩ =>
    let members := members.filterMap table.resolve?
    members.any table.isEnumeration && members.any (!table.isEnumeration ·)
  | _ => false

def restrictsWithin (table : TypeTable) (builtin : ExpandedName) : Nat → TypeId → Bool
  | 0, _ => false
  | depth + 1, id =>
    match table.definition id with
    | .builtin name => name = builtin
    | .simple ⟨_, _, .restriction base _⟩ =>
      match table.resolve? base with
      | some base => restrictsWithin table builtin depth base
      | none => false
    | _ => false

def isLanguage (table : TypeTable) (id : TypeId) : Bool :=
  table.restrictsWithin (schemaName "language") maxDerivationDepth id

def isBoolean (table : TypeTable) (id : TypeId) : Bool :=
  match table.definition id with
  | .builtin name => name = schemaName "boolean"
  | _ => false

end TypeTable

end SchemaForms
