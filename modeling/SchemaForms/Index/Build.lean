import SchemaForms.Index.Naming
import SchemaForms.Index.Node

/-!
Describing the addresses below global elements. The first declaration met at an address counts. The
walk enters a complex type unless it is already inside it, by content or as a base, and a group
unless it is already inside a group of that name. The elements that may stand in for an element are
described beside it. What is not defined is left out with a warning.
-/

namespace SchemaForms

inductive IndexWarning where
  | undefinedElementType (address : Address) (element : ExpandedName)
  | undefinedAttributeGroup (parent : Address) (group : ExpandedName)
  | undefinedModelGroup (parent : Address) (group : ExpandedName)
  | elementNotQualified (parent : Address) (error : SchemaError)
  | undeclaredElement (parent : Address) (element : PrefixedName)
  | attributeNotQualified (parent : Address) (error : SchemaError)
  | undefinedAttributeType (parent : Address) (name : PrefixedName)
  | nestedTooDeep (parent : Address)
  deriving DecidableEq, Repr

def IndexWarning.line : IndexWarning → String
  | undefinedElementType address element =>
    "element type is not defined; skipping address=" ++ address.text ++
      " element=" ++ element.text
  | undefinedAttributeGroup parent group =>
    "attribute group is not defined parent=" ++ parent.text ++ " group=" ++ group.text
  | undefinedModelGroup parent group =>
    "model group is not defined parent=" ++ parent.text ++ " group=" ++ group.text
  | elementNotQualified parent error =>
    "element name cannot be qualified parent=" ++ parent.text ++ " error=" ++ error.message
  | undeclaredElement parent element =>
    "referenced element is not declared parent=" ++ parent.text ++ " element=" ++ element.text
  | attributeNotQualified parent error =>
    "attribute name cannot be qualified parent=" ++ parent.text ++ " error=" ++ error.message
  | undefinedAttributeType parent name =>
    "attribute type is not defined; skipping parent=" ++ parent.text ++
      " attribute=" ++ name.text
  | nestedTooDeep parent => "constructs are nested too deep parent=" ++ parent.text

namespace Index

/-- The nodes described so far, in that order. -/
structure Progress where
  nodes : List SchemaNode
  warnings : List IndexWarning
  deriving Repr, Inhabited

/-- The complex types and the groups that the walk is inside of. -/
structure Path where
  types : List TypeId
  groups : List ExpandedName
  deriving DecidableEq, Repr, Inhabited

structure Scope where
  set : SchemaSet
  namespaces : InstanceNamespaces
  deriving Repr, Inhabited

abbrev Walk := StateM Progress

namespace Progress

def node? (progress : Progress) (address : Address) : Option SchemaNode :=
  progress.nodes.find? (·.address = address)

def add (progress : Progress) (node : SchemaNode) : Progress :=
  { progress with nodes := progress.nodes ++ [node] }

def setChildren (progress : Progress) (address : Address) (children : List Address)
    (singleton : Option Address) : Progress :=
  { progress with nodes := progress.nodes.map fun node =>
      if node.address = address then
        { node with children := children, repeatingSingleton := singleton }
      else node }

end Progress

def warn (warning : IndexWarning) : Walk Unit :=
  modify fun progress => { progress with warnings := progress.warnings ++ [warning] }

def isKnown (address : Address) : Walk Bool := do
  return ((← get).node? address).isSome

/-- The declared elements that may stand in for one, with their names. -/
def standIns (scope : Scope) (head : ExpandedName) : List (PrefixedName × ElementDeclaration) :=
  (scope.set.substitutionMembers head).filterMap fun name =>
    (scope.set.element? name).map (scope.namespaces.prefixedName name, ·)

/-- An element that is not abstract is the first to stand for itself, if there are others. -/
def memberNames (scope : Scope) (declaration : ElementDeclaration) : List PrefixedName :=
  let others := (standIns scope declaration.name).map Prod.fst
  if others.isEmpty || declaration.isAbstract then others
  else scope.namespaces.prefixedName declaration.name :: others

/-- The only child element, if it is complex and repeats. -/
def repeatingSingleton? (scope : Scope) (progress : Progress) (children : List Address) :
    Option Address :=
  match children.filter (!·.isAttribute) with
  | [only] =>
    (progress.node? only).bind fun node =>
      if node.isElement && (scope.set.types.definition node.type).isComplex &&
          node.isRepeating scope.set.types then some only
      else none
  | _ => none

def walkAttribute (scope : Scope) (parent : Address) (use : AttributeDeclaration) :
    Walk (List Address) := do
  match scope.set.attributeName scope.namespaces use with
  | .error error =>
    warn (.attributeNotQualified parent error)
    return []
  | .ok name =>
    match scope.set.attributeType? use with
    | none =>
      warn (.undefinedAttributeType parent name)
      return []
    | some type =>
      let address := parent.attr name
      if ← isKnown address then return []
      let occurs : Occurs := ⟨if use.isRequired then 1 else 0, .count 1⟩
      modify (·.add ⟨address, .attr, use.name, type, occurs, use.isRequired, none, false,
        false, [], [], none⟩)
      return [address]

def walkWildcard (scope : Scope) (parent : Address) (occurs : Occurs)
    (compositor : Option CompositorContext) : Walk (List Address) := do
  match scope.set.types.namedType? (schemaName "anyType") with
  | none => return []
  | some type =>
    let address := parent.child scope.set.wildcardName
    if ← isKnown address then return []
    modify (·.add ⟨address, .wildcard, schemaName "anyType", type, occurs, 1 ≤ occurs.min,
      compositor, false, false, [], [], none⟩)
    return [address]

/-- How the content of a type is walked: inside a path, below a parent, in a compositor. -/
abbrev ContentWalk := Path → Address → Option CompositorContext → Construct → Walk (List Address)

def walkAll (walk : Construct → Walk (List Address)) : List Construct → Walk (List Address)
  | [] => return []
  | construct :: others => do
    let first ← walk construct
    return first ++ (← walkAll walk others)

/-- An element, the content of its type and, beside it, the elements that may stand in for it. -/
def walkElement (scope : Scope) (walk : ContentWalk) : Nat → Path → Address →
    ElementDeclaration → Occurs → Option CompositorContext → Walk Unit
  | 0, _, address, _, _, _ => warn (.nestedTooDeep address)
  | depth + 1, path, address, declaration, occurs, compositor => do
    if ← isKnown address then return
    match scope.set.types.resolve? declaration.type with
    | none => warn (.undefinedElementType address declaration.name)
    | some type =>
      let definition := scope.set.types.definition type
      let isRecursive := definition.isComplex && type ∈ path.types
      modify (·.add ⟨address, .element, declaration.name, type, occurs, 1 ≤ occurs.min, compositor,
        isRecursive, declaration.isAbstract, memberNames scope declaration, [], none⟩)
      match definition.complex?, isRecursive with
      | some complex, false =>
        let inner := { path with types := type :: path.types }
        let children ← walkAll (walk inner address none) complex.content
        modify fun progress =>
          progress.setChildren address children (repeatingSingleton? scope progress children)
      | _, _ => pure ()
      match address.parent? with
      | none => return
      | some parent =>
        (standIns scope declaration.name).forM fun (name, member) =>
          walkElement scope walk depth path (parent.child name) member occurs compositor

/-- What an extension takes over from its base, unless the walk is already inside the base. -/
def walkBase (scope : Scope) (walk : ContentWalk) (path : Path) (parent : Address)
    (base : TypeRef) : Walk (List Address) := do
  match scope.set.types.resolve? base with
  | none => return []
  | some type =>
    match (scope.set.types.definition type).complex? with
    | none => return []
    | some complex =>
      if type ∈ path.types then return []
      walkAll (walk { path with types := type :: path.types } parent none) complex.content

def walkDerivation (scope : Scope) (walk : ContentWalk) (path : Path) (parent : Address)
    (method : DerivationMethod) (base : TypeRef) (children : List Construct) :
    Walk (List Address) := do
  let inherited ← match method with
    | .extension => walkBase scope walk path parent base
    | .restriction => pure []
  return inherited ++ (← walkAll (walk path parent none) children)

def walkAttributeGroup (scope : Scope) (walk : ContentWalk) (path : Path) (parent : Address)
    (name : ExpandedName) : Walk (List Address) := do
  match scope.set.attributeGroup? name with
  | none =>
    warn (.undefinedAttributeGroup parent name)
    return []
  | some group =>
    if name ∈ path.groups then return []
    walkAll (walk { path with groups := name :: path.groups } parent none) group.attributes

def walkModelGroup (scope : Scope) (walk : ContentWalk) (path : Path) (parent : Address)
    (name : ExpandedName) (occurs : Occurs) : Walk (List Address) := do
  match scope.set.modelGroup? name with
  | none =>
    warn (.undefinedModelGroup parent name)
    return []
  | some group =>
    if name ∈ path.groups then return []
    let context : CompositorContext :=
      ⟨group.kind, group.effectiveOccurs occurs, group.children.length = 1⟩
    walkAll (walk { path with groups := name :: path.groups } parent (some context)) group.children

def walkParticle (scope : Scope) (walk : ContentWalk) (path : Path) (parent : Address)
    (reference : ElementRef) (occurs : Occurs) (compositor : Option CompositorContext) :
    Walk (List Address) := do
  match scope.set.elementName scope.namespaces reference with
  | .error error =>
    warn (.elementNotQualified parent error)
    return []
  | .ok name =>
    match scope.set.declaration? reference with
    | none =>
      warn (.undeclaredElement parent name)
      return []
    | some declaration =>
      let address := parent.child name
      walkElement scope walk (scope.set.elements.length + 2) path address declaration occurs
        compositor
      return [address]

/-- A construct, whose nesting is followed so deep; answers the addresses right below the parent. -/
def walkConstruct (scope : Scope) : Nat → ContentWalk
  | 0, _, parent, _, _ => do
    warn (.nestedTooDeep parent)
    return []
  | depth + 1, path, parent, compositor, construct =>
    match construct with
    | .attributeUse use => walkAttribute scope parent use
    | .attributeGroup name =>
      walkAttributeGroup scope (walkConstruct scope depth) path parent name
    | .simpleContent method base children =>
      walkDerivation scope (walkConstruct scope depth) path parent method base children
    | .complexContent method base children =>
      walkDerivation scope (walkConstruct scope depth) path parent method base children
    | .compositor kind occurs children =>
      walkAll (walkConstruct scope depth path parent (some ⟨kind, occurs, children.length = 1⟩))
        children
    | .group name occurs =>
      walkModelGroup scope (walkConstruct scope depth) path parent name occurs
    | .element reference occurs =>
      walkParticle scope (walkConstruct scope depth) path parent reference occurs compositor
    | .wildcard occurs => walkWildcard scope parent occurs compositor
    | .other _ => return []

end Index

mutual

/-- How deep constructs are nested in one. -/
def Construct.height : Construct → Nat
  | .simpleContent _ _ children => Construct.heights children + 1
  | .complexContent _ _ children => Construct.heights children + 1
  | .compositor _ _ children => Construct.heights children + 1
  | _ => 1

def Construct.heights : List Construct → Nat
  | [] => 0
  | construct :: others => max construct.height (Construct.heights others)

end

/-- How deep constructs are nested in each of the complex types. -/
def TypeTable.contentHeights (table : TypeTable) : List Nat :=
  table.definitions.filterMap fun definition =>
    definition.complex?.map fun type => Construct.heights type.content

namespace SchemaSet

/-- The nesting of constructs in any one type or group. -/
def contentHeight (set : SchemaSet) : Nat :=
  let attributeGroups := set.attributeGroups.map fun (_, group) =>
    Construct.heights group.attributes
  let modelGroups := set.modelGroups.map fun (_, group) => Construct.heights group.children
  (set.types.contentHeights ++ attributeGroups ++ modelGroups).foldl max 0

/-- A bound on the nesting met in a walk: each complex type and each group is entered at most
once. -/
def walkDepth (set : SchemaSet) : Nat :=
  (set.types.contentHeights.length + set.attributeGroups.length + set.modelGroups.length + 1) *
    (set.contentHeight + 1)

end SchemaSet

structure SchemaIndex where
  set : SchemaSet
  namespaces : InstanceNamespaces
  nodes : List SchemaNode
  roots : List Address
  warnings : List IndexWarning
  deriving Repr, Inhabited

namespace SchemaIndex

def walkRoot (scope : Index.Scope) (declaration : ElementDeclaration) : Index.Walk Address := do
  let address := Address.root (scope.namespaces.prefixedName declaration.name)
  Index.walkElement scope (Index.walkConstruct scope scope.set.walkDepth)
    (scope.set.elements.length + 2) ⟨[], []⟩ address declaration .once none
  return address

def rootDeclaration (set : SchemaSet) (name : ExpandedName) :
    Except SchemaError ElementDeclaration :=
  match set.element? name with
  | some declaration => .ok declaration
  | none => .error (.unknownComponent "element" name)

/-- Describes the trees below global elements, which have to be declared. -/
def build (set : SchemaSet) (namespaces : InstanceNamespaces) (roots : List ExpandedName) :
    Except SchemaError SchemaIndex := do
  let declarations ← roots.mapM (rootDeclaration set)
  let (addresses, progress) :=
    (declarations.mapM (walkRoot ⟨set, namespaces⟩)).run ⟨[], []⟩
  return ⟨set, namespaces, progress.nodes, addresses, progress.warnings⟩

end SchemaIndex

end SchemaForms
