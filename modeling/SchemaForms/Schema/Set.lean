import SchemaForms.Schema.TypeTable

/-!
All components of the documents that have been loaded. Global components are found by kind and
name, and a later declaration replaces an earlier one. Elements keep the order in which their names
were first declared. The members of a substitution group keep the order of their declarations; a
member that is declared again under another head stays with the first one too.
-/

namespace SchemaForms

structure SchemaSet where
  documents : List SchemaDocument
  types : TypeTable
  elements : List (ExpandedName × ElementDeclaration)
  attributes : List (ExpandedName × AttributeDeclaration)
  attributeGroups : List (ExpandedName × AttributeGroup)
  modelGroups : List (ExpandedName × ModelGroup)
  members : List (ExpandedName × List ExpandedName)
  deriving Repr, Inhabited

namespace SchemaSet

def initial : SchemaSet := ⟨[], .initial, [], [], [], [], []⟩

/-- Documents that were not loaded are taken to be empty. -/
def document (set : SchemaSet) (id : DocumentId) : SchemaDocument :=
  set.documents.getD id ⟨"", none, .empty, false⟩

def element? (set : SchemaSet) (name : ExpandedName) : Option ElementDeclaration :=
  set.elements.lookup name

def globalElements (set : SchemaSet) : List ElementDeclaration := set.elements.map Prod.snd

def attribute? (set : SchemaSet) (name : ExpandedName) : Option AttributeDeclaration :=
  set.attributes.lookup name

def attributeGroup? (set : SchemaSet) (name : ExpandedName) : Option AttributeGroup :=
  set.attributeGroups.lookup name

def modelGroup? (set : SchemaSet) (name : ExpandedName) : Option ModelGroup :=
  set.modelGroups.lookup name

def substitutionMembers (set : SchemaSet) (head : ExpandedName) : List ExpandedName :=
  (set.members.lookup head).getD []

def languageAttribute : ExpandedName := ⟨some Xml.xmlNamespace, "lang"⟩

/-- The type of an attribute where it is used. A reference takes the type of the global
declaration, and the language attribute has its type even where it is not declared. -/
def attributeType? (set : SchemaSet) (use : AttributeDeclaration) : Option TypeId :=
  if use.isReference then
    match set.attribute? use.name with
    | some declaration => set.types.resolve? declaration.type
    | none =>
      if use.name = languageAttribute then set.types.namedType? (schemaName "language")
      else set.types.resolve? use.type
  else set.types.resolve? use.type

def addMember (set : SchemaSet) (head member : ExpandedName) : SchemaSet :=
  let members := set.substitutionMembers head
  if member ∈ members then set
  else { set with members := Keyed.put head (members ++ [member]) set.members }

def addElement (set : SchemaSet) (declaration : ElementDeclaration) : SchemaSet :=
  let set := match declaration.substitutionGroup with
    | some head => set.addMember head declaration.name
    | none => set
  { set with elements := Keyed.put declaration.name declaration set.elements }

def addAttribute (set : SchemaSet) (declaration : AttributeDeclaration) : SchemaSet :=
  { set with attributes := Keyed.put declaration.name declaration set.attributes }

def addAttributeGroup (set : SchemaSet) (group : AttributeGroup) : SchemaSet :=
  { set with attributeGroups := Keyed.put group.name group set.attributeGroups }

def addModelGroup (set : SchemaSet) (group : ModelGroup) : SchemaSet :=
  { set with modelGroups := Keyed.put group.name group set.modelGroups }

/-- Enters a type under its name. -/
def addType (set : SchemaSet) (name : ExpandedName) (definition : TypeDefinition) : SchemaSet :=
  let (table, id) := set.types.push definition
  { set with types := { table with named := Keyed.put name id table.named } }

end SchemaSet

end SchemaForms
