import SchemaForms.Index.Build

/-!
Questions to the index. Each is asked of any address and answered for its address in the schema.
-/

namespace SchemaForms.SchemaIndex

/-- The node at exactly this address. -/
def node? (index : SchemaIndex) (address : Address) : Option SchemaNode :=
  index.nodes.find? (·.address = address)

def nodeOf? (index : SchemaIndex) (address : Address) : Option SchemaNode :=
  index.node? address.schemaAddress

def typeOf? (index : SchemaIndex) (address : Address) : Option TypeId :=
  (index.nodeOf? address).map SchemaNode.type

def isRepeating (index : SchemaIndex) (address : Address) : Bool :=
  (index.nodeOf? address).any (·.isRepeating index.set.types)

def isRequired (index : SchemaIndex) (address : Address) : Bool :=
  (index.nodeOf? address).any SchemaNode.isRequired

def isInChoice (index : SchemaIndex) (address : Address) : Bool :=
  ((index.nodeOf? address).bind SchemaNode.compositor).any (·.kind = .choice)

def isRecursive (index : SchemaIndex) (address : Address) : Bool :=
  (index.nodeOf? address).any SchemaNode.isRecursive

def membersOf (index : SchemaIndex) (head : Address) : List PrefixedName :=
  ((index.nodeOf? head).map SchemaNode.members).getD []

def repeatingSingletonOf? (index : SchemaIndex) (address : Address) : Option Address :=
  (index.nodeOf? address).bind SchemaNode.repeatingSingleton

/-- Whether an element of complex type has to be there. -/
def isRequiredBranch (index : SchemaIndex) (address : Address) : Bool :=
  (index.nodeOf? address).any fun node =>
    node.isElement && node.isRequired && (index.set.types.definition node.type).isComplex

def isMultiSelect (index : SchemaIndex) (address : Address) : Bool :=
  (index.nodeOf? address).any (·.isMultiSelect index.set.types)

def hasMultiSelect (index : SchemaIndex) (address : Address) : Bool :=
  (index.nodeOf? address).any fun node => node.children.any index.isMultiSelect

def elementName (index : SchemaIndex) (reference : ElementRef) : Except SchemaError PrefixedName :=
  index.set.elementName index.namespaces reference

def attributeName (index : SchemaIndex) (use : AttributeDeclaration) :
    Except SchemaError PrefixedName :=
  index.set.attributeName index.namespaces use

def wildcardName (index : SchemaIndex) : PrefixedName := index.set.wildcardName

end SchemaForms.SchemaIndex
