import SchemaForms.Address.Basic
import SchemaForms.Schema.Set

/-!
What the schema says about one address: its name and type, how often it may occur, the compositor
around it, the elements that may stand in for it and the addresses below it.
-/

namespace SchemaForms

inductive NodeKind where
  | element
  | attr
  | wildcard
  deriving DecidableEq, Repr, Inhabited

/-- The compositor right around an element, and whether the element is its only particle. -/
structure CompositorContext where
  kind : Compositor
  occurs : Occurs
  isSingleton : Bool
  deriving DecidableEq, Repr, Inhabited

/-- A node is recursive when its complex type is already being described further up. Nothing below
a recursive node is described. -/
structure SchemaNode where
  address : Address
  kind : NodeKind
  name : ExpandedName
  type : TypeId
  occurs : Occurs
  isRequired : Bool
  compositor : Option CompositorContext
  isRecursive : Bool
  isAbstract : Bool
  members : List PrefixedName
  children : List Address
  repeatingSingleton : Option Address
  deriving DecidableEq, Repr, Inhabited

namespace SchemaNode

def isElement (node : SchemaNode) : Bool := node.kind = .element

def isAttribute (node : SchemaNode) : Bool := node.kind = .attr

/-- Whether other elements stand in for this one. -/
def isSubstitutionHead (node : SchemaNode) : Bool :=
  node.isElement && (node.isAbstract || !node.members.isEmpty)

/-- Repetition comes from the node's own bounds, or from those of a compositor around it alone.
Enumerations do not repeat on their own: their values are chosen together. -/
def isRepeating (node : SchemaNode) (types : TypeTable) : Bool :=
  !node.isAttribute &&
    ((node.occurs.isMany && !types.isEnumeration node.type) ||
      node.compositor.any fun context => context.isSingleton && context.occurs.isMany)

/-- An enumeration of which several values may be chosen. -/
def isMultiSelect (node : SchemaNode) (types : TypeTable) : Bool :=
  node.isElement && node.occurs.isMany && types.isEnumeration node.type

end SchemaNode

end SchemaForms
