import SchemaForms.Address.Fresh
import SchemaForms.Compile.Fields

/-!
Nodes that may occur several times, and where nodes are shown. Each occurrence is shown in an
iteration, under a variable that no iteration around it uses. A form for editing shows a node
wherever its parent exists; a form for display shows what is present, and leaves it to an iteration
to find out. What fails is left out of the template.
-/

namespace SchemaForms.Compile

/-- The row of an iteration that an occurrence stands in. -/
structure Row where
  var : String
  isCollapsible : Bool
  deriving DecidableEq, Repr, Inhabited

/-- Shows one occurrence of the node at an address. -/
abbrev Renderer := Address → Option Row → Shape → Attempt (List TemplateNode)

def iteration (render : Renderer) (address : Address) (isCollapsible : Bool) (shape : Shape) :
    Attempt TemplateNode := do
  let siblings := address.siblingPath
  let var := siblings.freshVariable
  let item := siblings.withIndex (.var var)
  return .iteration siblings var item (← render item (some ⟨var, isCollapsible⟩) shape)

/-- All occurrences of a node, shown while there are any. -/
def branch (scope : Scope) (render : Renderer) (address : Address) (isCollapsible : Bool) :
    Attempt (List TemplateNode) := do
  let classification ← scope.classify address
  return [.guard .present address
    [← iteration render address isCollapsible classification.shape]]

namespace Scope

/-- The node's own bound, or that of the compositor in which it stands alone. -/
def occurrenceLimit (node : SchemaNode) : MaxOccurs :=
  match node.occurs.isMany, node.compositor.filter CompositorContext.isSingleton with
  | false, some context => context.occurs.max
  | _, _ => node.occurs.max

def addLabel (address : Address) : String := "add " ++ leafText address

def addSibling (siblings : Address) (limit : MaxOccurs) : TemplateNode :=
  .guard (.countBelow limit) siblings [.affordance .addSibling siblings (addLabel siblings) []]

def addFirst (siblings : Address) : TemplateNode :=
  .guard .absent siblings
    [.header (.ofAddress siblings) [.affordance .addFirst siblings (addLabel siblings) []]]

def addMember (parent head : Address) (members : List PrefixedName) (limit : MaxOccurs) :
    TemplateNode :=
  .guard (.membersBelow members limit) parent
    [.affordance .addMember parent (addLabel head) members]

/-- Rows while there are occurrences, and a control for the first one while there are none. -/
def repetition (scope : Scope) (render : Renderer) (address : Address) (node : SchemaNode)
    (shape : Shape) : Attempt (List TemplateNode) := do
  let siblings := address.siblingPath
  let rows ← iteration render address false shape
  return [.guard .present siblings
      (rows :: scope.editing [addSibling siblings (occurrenceLimit node)])] ++
    scope.editing (if scope.isStartedAbove address then [] else [addFirst siblings])

/-- The elements that stand in for an element, by name, and a control to add one. -/
def substitution (scope : Scope) (render : Renderer) (address : Address) (node : SchemaNode) :
    Attempt (List TemplateNode) := do
  match address.parent? with
  | none => throw (.headWithoutParent address)
  | some parent =>
    let members ← Logged.collect (fun name =>
      Attempt.orSkip address (branch scope render (parent.child name) true)) node.members
    return members ++ scope.editing
      (if node.members.isEmpty then []
      else [addMember parent address node.members node.occurs.max])

def renderNode (scope : Scope) (render : Renderer) (address : Address) :
    Attempt (List TemplateNode) := do
  let node ← scope.node address
  let classification ← scope.classify address
  Attempt.note address (.classified classification.name)
  if classification.isHead then scope.substitution render address node
  else if classification.isRepeating then
    scope.repetition render address node classification.shape
  else render address none classification.shape

def isShownByOccurrence (scope : Scope) (address : Address) : Bool :=
  scope.index.isRepeating address ||
    (scope.index.nodeOf? address).any SchemaNode.isSubstitutionHead

/-- Puts nodes where the address may be shown. Nothing surrounds the root. -/
def guarded (scope : Scope) (address : Address) (nodes : List TemplateNode) : List TemplateNode :=
  match address.parent? with
  | none => nodes
  | some parent =>
    let target := if scope.isEdit || scope.isShownByOccurrence address then parent else address
    [.guard .present target nodes]

def renderGuarded (scope : Scope) (render : Renderer) (address : Address) :
    Logged (List TemplateNode) := do
  let nodes ← Attempt.orSkip address (scope.renderNode render address)
  return if nodes.isEmpty then [] else scope.guarded address nodes

end Scope

end SchemaForms.Compile
