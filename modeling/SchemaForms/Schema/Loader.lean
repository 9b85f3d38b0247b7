import SchemaForms.Schema.Import
import SchemaForms.Schema.Reading
import SchemaForms.Schema.Set
import SchemaForms.Xml.Document

/-!
Loading schema documents and, through resolvers, the documents that they refer to. A document is
loaded at most once for each location; it counts as loaded as soon as its top element has been
read, so that references in a circle end. The first resolver that supports a reference answers it.
A failure ends the load, and what was entered before stays.
-/

namespace SchemaForms

structure SchemaSource where
  location : String
  text : String
  deriving DecidableEq, Repr, Inhabited

/-- A resolver answers references to documents with sources out of a finite stock. -/
structure Resolver where
  stock : List SchemaSource
  answer : Import → Except ImportFailure SchemaSource
  mem_stock : ∀ {reference source}, answer reference = .ok source → source ∈ stock

namespace Resolver

/-- Answers with the first source at the resolved location, or fails as told. -/
def ofSources (stock : List SchemaSource) (failure : ImportFailure) : Resolver where
  stock := stock
  answer reference :=
    match reference.resolvedLocation? with
    | none => .error failure
    | some location =>
      match stock.find? (·.location = location) with
      | some source => .ok source
      | none => .error failure
  mem_stock := by
    intro reference source h
    split at h
    · cases h
    · split at h
      · rename_i found hfound
        cases h
        exact List.mem_of_find?_eq_some hfound
      · cases h

end Resolver

inductive LoadWarning where
  | builtinRedefined (name : ExpandedName)
  | typeRedefined (name : ExpandedName)
  | importSkipped (location : String)
  deriving DecidableEq, Repr

def LoadWarning.line : LoadWarning → String
  | builtinRedefined name => "schema redefines a built-in type name=" ++ name.text
  | typeRedefined name =>
    "type defined more than once; the last definition wins name=" ++ name.text
  | importSkipped location => "no resolver supports import; skipping location=" ++ location

structure Loader where
  resolvers : List Resolver
  allowsDoctype : Bool
  set : SchemaSet
  loaded : List (String × DocumentId)
  warnings : List LoadWarning

abbrev Loading := ExceptT SchemaError (StateM Loader)

namespace Loader

def new (resolvers : List Resolver) (allowsDoctype : Bool) : Loader :=
  ⟨resolvers, allowsDoctype, .initial, [], []⟩

/-- Each document inside another one is a new one out of some stock. -/
def maxDepth (loader : Loader) : Nat :=
  (loader.resolvers.flatMap Resolver.stock).length + 1

end Loader

namespace Loading

def warn (warning : LoadWarning) : Loading Unit :=
  modify fun loader => { loader with warnings := loader.warnings ++ [warning] }

def changeSet (change : SchemaSet → SchemaSet) : Loading Unit :=
  modify fun loader => { loader with set := change loader.set }

def read (reading : Reading α) : Loading α := fun loader =>
  let (result, types) := reading.run loader.set.types
  (result, { loader with set := { loader.set with types := types } })

/-- A type with a name of the schema language is entered as well. -/
def globalType (origin : Origin) (element : Xml.Element) : Loading Unit := do
  let written ← Reading.required element "name"
  let name : ExpandedName := ⟨origin.targetNamespace, written⟩
  if name.isBuiltin then warn (.builtinRedefined name)
  let definition ←
    if element.name.localName = "complexType" then
      read (Reading.complexType origin (some name) element)
    else read (Reading.simpleType origin (some name) element)
  let isKnown := ((← get).set.types.namedType? name).isSome
  changeSet (·.addType name definition)
  if isKnown then warn (.typeRedefined name)

/-- The first answer; a resolver that does not support the reference passes it on. -/
def firstAnswer? (reference : Import) : List Resolver → Except ImportFailure (Option SchemaSource)
  | [] => .ok none
  | resolver :: others =>
    match resolver.answer reference with
    | .ok source => .ok (some source)
    | .error .unsupported => firstAnswer? reference others
    | .error failure => .error failure

def followImport (load : SchemaSource → Loading DocumentId) (schema : Xml.Element)
    (location : String) (element : Xml.Element) : Loading Unit := do
  let reference ← Import.ofElement element schema location
  match reference.resolvedLocation? with
  | none => return
  | some target =>
    let loader ← get
    if (loader.loaded.lookup target).isSome then return
    match firstAnswer? reference loader.resolvers with
    | .ok (some source) => let _ ← load source
    | .ok none => warn (.importSkipped target)
    | .error failure => throw (.importFailed target failure)

/-- One element at the top of a schema document, whatever its namespace. -/
def topElement (load : SchemaSource → Loading DocumentId) (schema : Xml.Element)
    (location : String) (origin : Origin) (element : Xml.Element) : Loading Unit := do
  match element.name.localName with
  | "import" => followImport load schema location element
  | "include" => followImport load schema location element
  | "redefine" => followImport load schema location element
  | "element" =>
    let declaration ← read (Reading.globalElement origin element)
    changeSet (·.addElement declaration)
  | "complexType" => globalType origin element
  | "simpleType" => globalType origin element
  | "attributeGroup" =>
    let group ← read (Reading.globalAttributeGroup origin element)
    changeSet (·.addAttributeGroup group)
  | "group" =>
    let group ← read (Reading.globalModelGroup origin element)
    changeSet (·.addModelGroup group)
  | "attribute" =>
    let declaration ← read (Reading.attributeDeclaration origin true element)
    changeSet (·.addAttribute declaration)
  | _ => return

def topElements (load : SchemaSource → Loading DocumentId) (schema : Xml.Element)
    (location : String) (origin : Origin) : List Xml.Element → Loading Unit
  | [] => return
  | element :: others => do
    topElement load schema location origin element
    topElements load schema location origin others

def documentOf (location : String) (schema : Xml.Element) : SchemaDocument where
  location := location
  targetNamespace := schema.attribute? "targetNamespace"
  namespaces := .ofElement schema
  qualifiesElements := schema.attribute? "elementFormDefault" == some "qualified"

/-- Enters a document and answers its number. -/
def enterDocument (document : SchemaDocument) : Loading DocumentId := do
  let loader ← get
  let id := loader.set.documents.length
  set { loader with
    set := { loader.set with documents := loader.set.documents ++ [document] }
    loaded := Keyed.put document.location id loader.loaded }
  return id

def parse (source : SchemaSource) : Loading Xml.Element := do
  match Xml.read? (← get).allowsDoctype source.text with
  | none => throw .malformed
  | some schema =>
    if schema.name = schemaName "schema" then return schema
    else throw (.notASchema schema.name.localName)

def unlessLoaded (location : String) (load : Loading DocumentId) : Loading DocumentId := do
  match (← get).loaded.lookup location with
  | some id => return id
  | none => load

/-- Loads a document; documents nest at most so deep. -/
def document : Nat → SchemaSource → Loading DocumentId
  | 0, source => unlessLoaded source.location (throw .nestedTooDeep)
  | depth + 1, source => unlessLoaded source.location do
    let schema ← parse source
    let entry := documentOf source.location schema
    let id ← enterDocument entry
    topElements (document depth) schema source.location
      ⟨id, entry.targetNamespace, entry.qualifiesElements⟩ schema.children
    return id

end Loading

namespace Loader

def load (loader : Loader) (source : SchemaSource) : Except SchemaError DocumentId × Loader :=
  (Loading.document loader.maxDepth source).run loader

end Loader

end SchemaForms
