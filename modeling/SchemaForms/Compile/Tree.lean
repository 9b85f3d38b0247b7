import SchemaForms.Compile.Content

/-!
Templates for the nodes of an index. The template for an address holds what the schema declares
below it. What fails there is left out and noted, and only an address that is not indexed is an
error. The walk goes down one address at a time, and inside of an element one construct at a time.
No address in the index is longer than the index is high, so the first never comes to its bound. The
second comes to its bound where constructs open each other for ever, as a model group does that
refers to itself. Such a walk has no end, and no template is made.
-/

namespace SchemaForms

namespace Compile.Scope

/-- An element with content: a header, and below the root a nested group for what follows. -/
def renderElement (scope : Scope) (address : Address) (row : Option Row)
    (content : Attempt (List TemplateNode)) : Attempt (List TemplateNode) := do
  let node ← scope.node address
  let header := scope.header address node (row.map Row.var)
  let nodes ← content
  if address.isRoot then return [.group (.level 0) (header :: nodes)]
  else
    let isCollapsible := row.any Row.isCollapsible
    return [.group (.level (scope.level address))
      [header, .group (.subElements isCollapsible) nodes]]

def scalarRole : Option Row → FieldRole
  | some row => .row row.var
  | none => .plain

/-- How deep constructs nest at one address unless they nest for ever. -/
def constructDepth (scope : Scope) : Nat := scope.index.set.walkDepth + 1

/-- One occurrence of a node, with so many levels of addresses below it, and with constructs nested
to some depth at each of them. -/
def renderWithin (scope : Scope) (depth : Nat) : Nat → Renderer
  | 0, address, _, _ => throw (.nestedTooDeep address)
  | levels + 1, address, row, shape =>
    let each := scope.renderConstruct (scope.renderWithin depth levels) address depth
    match shape with
    | .recursive => return [.recursive address]
    | .attr => do
      let node ← scope.node address
      return [scope.scalarField address node node.type (scalarRole row)]
    | .simple => do
      let node ← scope.node address
      return [scope.scalarField address node node.type (scalarRole row)]
    | .anything => do
      return [scope.anyField address (← scope.node address) (row.map Row.var)]
    | .complex content => scope.renderElement address row (renderAll each address content)
    | .derived derivation =>
      scope.renderElement address row
        (scope.renderDerivation each address TypeTable.maxDerivationDepth derivation)
    | .textOnly derivation =>
      scope.renderText each address row TypeTable.maxDerivationDepth derivation

/-- One occurrence of a node, with so many levels of addresses below it. -/
def render (scope : Scope) : Nat → Renderer := scope.renderWithin scope.constructDepth

end Compile.Scope

structure Compilation where
  template : Template
  log : List LogEntry
  deriving Repr

def Compilation.warnings (compilation : Compilation) : List LogEntry :=
  compilation.log.filter fun entry => entry.note.isWarning

namespace SchemaIndex

/-- The length of the longest address. -/
def height (index : SchemaIndex) : Nat :=
  (index.nodes.map fun node => node.address.depth).foldl max 0

/-- All that the walk from an address makes and notes. -/
def rendered (index : SchemaIndex) (mode : Mode) (address : Address) :
    Logged (List TemplateNode) :=
  let scope : Compile.Scope := ⟨index, mode, address⟩
  scope.renderGuarded (scope.render index.height) address

/-- The template for one address of the index, if the walk from there has an end. -/
def compile (index : SchemaIndex) (mode : Mode) (address : Address) :
    Except CompileError Compilation :=
  match index.nodeOf? address with
  | none => .error (.unknownAddress address)
  | some _ =>
    let nodes := index.rendered mode address
    match nodes.log.findSome? LogEntry.exhausted? with
    | some here => .error (.nestedTooDeep here)
    | none => .ok ⟨⟨address, mode, nodes.value⟩, nodes.log⟩

end SchemaIndex

end SchemaForms
