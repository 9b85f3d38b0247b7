import SchemaForms.Compile.Shape

/-!
The names that a choice offers and the attributes that a group declares. Compositors and references
to groups are opened; a group that was opened once is not opened again, and a name that was met
once is not listed again. Elements that others stand in for are replaced by these.
-/

namespace SchemaForms.Compile

/-- The groups that were opened and the names that were met so far. -/
structure Leaves where
  opened : List ExpandedName
  names : List PrefixedName
  deriving DecidableEq, Repr

namespace Leaves

def add (leaves : Leaves) (names : List PrefixedName) : Leaves :=
  { leaves with names := leaves.names ++ names }

def opening (leaves : Leaves) (name : ExpandedName) : Leaves :=
  { leaves with opened := name :: leaves.opened }

/-- Drops the names that were met before. -/
def tidy (leaves : Leaves) : Leaves := { leaves with names := leaves.names.eraseDups }

end Leaves

/-- Collecting, with the groups that were opened so far. -/
abbrev Opening := StateT (List ExpandedName) (Except CompileError)

/-- Opens a group unless it was opened before. -/
def openOnce (name : ExpandedName) (collect : Opening (List α)) : Opening (List α) := do
  if name ∈ (← get) then return []
  modify (name :: ·)
  collect

def openAll (collect : Construct → Opening (List α)) : List Construct → Opening (List α)
  | [] => return []
  | construct :: others => do
    let first ← collect construct
    return first ++ (← openAll collect others)

namespace Scope

def elementName (scope : Scope) (reference : ElementRef) : Except CompileError PrefixedName :=
  (scope.index.elementName reference).mapError .unresolvedName

def attributeName (scope : Scope) (use : AttributeDeclaration) :
    Except CompileError PrefixedName :=
  (scope.index.attributeName use).mapError .unresolvedName

def modelGroup (scope : Scope) (here : Address) (name : ExpandedName) :
    Except CompileError ModelGroup :=
  match scope.index.set.modelGroup? name with
  | some group => .ok group
  | none => .error (.undefinedModelGroup here name)

def attributeGroup (scope : Scope) (here : Address) (name : ExpandedName) :
    Except CompileError AttributeGroup :=
  match scope.index.set.attributeGroup? name with
  | some group => .ok group
  | none => .error (.undefinedAttributeGroup here name)

/-- The names under which an element occurs. -/
def memberNames (scope : Scope) (here : Address) (name : PrefixedName) : List PrefixedName :=
  match (scope.index.nodeOf? (here.child name)).filter SchemaNode.isSubstitutionHead with
  | some head => head.members
  | none => [name]

/-- Collects the names of one construct after what was collected so far. -/
def collectLeaf (scope : Scope) (here : Address) :
    Nat → Leaves → Construct → Except CompileError Leaves
  | 0, _, _ => throw (.nestedTooDeep here)
  | depth + 1, leaves, construct =>
    match construct with
    | .element reference _ => do
      return leaves.add (scope.memberNames here (← scope.elementName reference))
    | .compositor _ _ children => do
      return (← children.foldlM (scope.collectLeaf here depth) leaves).tidy
    | .group name _ => do
      if name ∈ leaves.opened then return leaves
      let group ← scope.modelGroup here name
      return (← group.children.foldlM (scope.collectLeaf here depth) (leaves.opening name)).tidy
    | .wildcard _ => return leaves.add [scope.index.wildcardName]
    | _ => return leaves

/-- How deep constructs nest while every group is opened at most once. -/
def leavesDepth (scope : Scope) (constructs : List Construct) : Nat :=
  scope.index.set.walkDepth + 1 + Construct.heights constructs

/-- The names of the elements that may be chosen. -/
def leafNames (scope : Scope) (here : Address) (constructs : List Construct) :
    Except CompileError (List PrefixedName) := do
  let leaves ← constructs.foldlM (scope.collectLeaf here (scope.leavesDepth constructs)) ⟨[], []⟩
  return leaves.tidy.names

def usesOf (scope : Scope) (here : Address) : Nat → ExpandedName →
    Opening (List AttributeDeclaration)
  | 0, _ => throw (.nestedTooDeep here)
  | depth + 1, name => openOnce name do
    let group ← scope.attributeGroup here name
    openAll (fun construct =>
      match construct with
      | .attributeUse use => return [use]
      | .attributeGroup nested => scope.usesOf here depth nested
      | _ => return []) group.attributes

/-- The attributes that a group declares. -/
def groupAttributes (scope : Scope) (here : Address) (name : ExpandedName) :
    Except CompileError (List AttributeDeclaration) := do
  let (uses, _) ← (scope.usesOf here (scope.index.set.attributeGroups.length + 2) name).run []
  return uses

end Scope

end SchemaForms.Compile
