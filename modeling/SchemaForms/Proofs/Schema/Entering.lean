import SchemaForms.Proofs.Schema.ReadingTwice

/-!
What stands at the top of a document, other than references to documents, declares at most one
component. It is read, which changes the table of types only, and then the component is entered
under its name. When the reading fails nothing is entered, but the types of its parts stay.
-/

namespace SchemaForms

/-- A component of a schema; a type has its place in the table. -/
inductive Component where
  | type (name : ExpandedName) (id : TypeId)
  | element (declaration : ElementDeclaration)
  | attr (declaration : AttributeDeclaration)
  | attributeGroup (group : AttributeGroup)
  | modelGroup (group : ModelGroup)
  | nothing

inductive ComponentKind where
  | type
  | element
  | attr
  | attributeGroup
  | modelGroup
  deriving DecidableEq, Repr

/-- The kind of a component, and the name it is entered under. -/
def Component.key? : Component → Option (ComponentKind × ExpandedName)
  | .type name _ => some (.type, name)
  | .element declaration => some (.element, declaration.name)
  | .attr declaration => some (.attr, declaration.name)
  | .attributeGroup group => some (.attributeGroup, group.name)
  | .modelGroup group => some (.modelGroup, group.name)
  | .nothing => none

inductive Component.Matches (matching : Matching) : Component → Component → Prop
  | type {name left right} (h : matching.ref (.anonymous left) (.anonymous right)) :
    Matches matching (.type name left) (.type name right)
  | element {left right} (h : left.Matches matching right) :
    Matches matching (.element left) (.element right)
  | attr {left right} (h : left.Matches matching right) :
    Matches matching (.attr left) (.attr right)
  | attributeGroup {left right} (h : left.Matches matching right) :
    Matches matching (.attributeGroup left) (.attributeGroup right)
  | modelGroup {left right} (h : left.Matches matching right) :
    Matches matching (.modelGroup left) (.modelGroup right)
  | nothing : Matches matching .nothing .nothing

namespace Reading

def typeComponent (origin : Origin) (element : Xml.Element) : Reading Component := do
  let written ← required element "name"
  let name : ExpandedName := ⟨origin.targetNamespace, written⟩
  let definition ←
    if element.name.localName = "complexType" then complexType origin (some name) element
    else simpleType origin (some name) element
  return .type name (← enterType definition)

/-- The component that an element at the top of a document declares. -/
def component (origin : Origin) (element : Xml.Element) : Reading Component :=
  match element.name.localName with
  | "element" => do return .element (← globalElement origin element)
  | "complexType" => typeComponent origin element
  | "simpleType" => typeComponent origin element
  | "attributeGroup" => do return .attributeGroup (← globalAttributeGroup origin element)
  | "group" => do return .modelGroup (← globalModelGroup origin element)
  | "attribute" => do return .attr (← attributeDeclaration origin true element)
  | _ => return .nothing

/-- The kind and the name of what an element at the top of a document declares. An attribute that
refers to another one is entered under the name of that one. -/
def declared? (targetNamespace : Option String) (element : Xml.Element) :
    Option (ComponentKind × ExpandedName) :=
  let named (kind : ComponentKind) := (element.attribute? "name").map fun written =>
    (kind, (⟨targetNamespace, written⟩ : ExpandedName))
  match element.name.localName with
  | "element" => named .element
  | "complexType" => named .type
  | "simpleType" => named .type
  | "attributeGroup" => named .attributeGroup
  | "group" => named .modelGroup
  | "attribute" =>
    match element.attribute? "ref" with
    | some value => (ExpandedName.ofValue value element).toOption.map (.attr, ·)
    | none => named .attr
  | _ => none

/-- Only elements declare elements. -/
theorem eq_element_of_declared? {targetNamespace : Option String} {element : Xml.Element}
    {name : ExpandedName} (h : declared? targetNamespace element = some (.element, name)) :
    element.name.localName = "element" := by
  unfold declared? at h
  split at h
  case h_1 htag => exact htag
  case h_6 =>
    split at h
    · simp at h
    · simp at h
  all_goals simp at h

variable {origin : Origin}

theorem attribute?_of_required {element : Xml.Element} {name written : String}
    (h : required element name = .ok written) : element.attribute? name = some written := by
  unfold required at h
  split at h
  · rename_i value hvalue
    rw [hvalue, Except.ok.inj h]
  · cases h

/-- A step after the name was read, when what it makes does not depend on the tables. -/
theorem keeps_required {α : Type} {made : α → Prop} {element : Xml.Element} {name : String}
    {next : String → Reading α}
    (h : ∀ written, element.attribute? name = some written →
      Keeps (fun _ => True) made (next written)) :
    Keeps (fun _ => True) made (liftM (required element name) >>= next) :=
  .bind (.except fun _ hrequired => hrequired) fun written hrequired =>
    h written (attribute?_of_required hrequired)

theorem keeps_anything {α : Type} (reading : Reading α) :
    Keeps (fun _ => True) (fun _ => True) reading :=
  fun _ _ => ⟨trivial, fun _ _ => trivial⟩

/-- Steps that make something under the name that was read. -/
theorem keeps_named {α : Type} {element : Xml.Element} {reading : Reading α} {wrap : α → Component}
    {kind : ComponentKind}
    (h : Keeps (fun _ => True) (fun made => ∃ written, element.attribute? "name" = some written ∧
      (wrap made).key? = some (kind, ⟨origin.targetNamespace, written⟩)) reading) :
    Keeps (fun _ => True) (fun component => component.key? =
      (element.attribute? "name").map fun written => (kind, ⟨origin.targetNamespace, written⟩))
      (do return wrap (← reading)) := by
  refine .bind h fun made hmade => .pure ?_
  obtain ⟨written, hwritten, hkey⟩ := hmade
  rw [hkey, hwritten, Option.map_some]

/-- A component has the name that is declared. -/
theorem keeps_component (element : Xml.Element) :
    Keeps (fun _ => True)
      (fun component => component.key? = declared? origin.targetNamespace element)
      (component origin element) := by
  have htype : Keeps (fun _ => True) (fun component : Component =>
      component.key? = (element.attribute? "name").map fun written =>
        (ComponentKind.type, (⟨origin.targetNamespace, written⟩ : ExpandedName)))
      (typeComponent origin element) := by
    refine keeps_required fun written hwritten => ?_
    rw [hwritten]
    dsimp only
    split <;> exact .bind (keeps_anything _) fun _ _ => .bind (keeps_anything _) fun _ _ =>
      .pure rfl
  unfold component declared?
  generalize element.name.localName = tag
  split
  · refine keeps_named (keeps_required fun written hwritten => ?_)
    refine .after fun _ => .after fun _ => .bind (keeps_anything _) fun _ _ => .pure ?_
    exact ⟨written, hwritten, rfl⟩
  · exact htype
  · exact htype
  · refine keeps_named (keeps_required fun written hwritten => ?_)
    exact .bind (keeps_anything _) fun _ _ => .pure ⟨written, hwritten, rfl⟩
  · refine keeps_named (keeps_required fun written hwritten => ?_)
    split
    · exact .after fun _ => .bind (keeps_anything _) fun _ _ => .pure ⟨written, hwritten, rfl⟩
    · exact .throw
  · unfold attributeDeclaration
    cases href : element.attribute? "ref" with
    | some value =>
      refine .bind (show Keeps _ (fun made => (Component.attr made).key? = _) _ from ?_) fun _ h =>
        .pure h
      refine .bind (.except fun _ hname => hname) fun name hname => ?_
      refine .bind (keeps_anything _) fun _ _ => .pure ?_
      simp only [hname]
      rfl
    | none =>
      refine keeps_named (keeps_required fun written hwritten => ?_)
      exact .bind (keeps_anything _) fun _ _ => .pure ⟨written, hwritten, rfl⟩
  · exact .pure rfl

theorem uniform_typeComponent (element : Xml.Element) :
    Uniform origin Component.Matches (typeComponent origin element) := by
  have hdefined : ∀ (name : ExpandedName) (reading : Reading TypeDefinition),
      Uniform origin TypeDefinition.Matches reading →
        Uniform origin Component.Matches (do return .type name (← enterType (← reading))) := by
    intro name reading hreading world hdocument
    refine .bind (hreading world hdocument) fun _ _ _ _ hmatches => ?_
    exact .bind (lockstep_enterType hmatches) fun _ _ _ _ href => .pure (.type href)
  unfold typeComponent
  refine uniform_after fun written => ?_
  dsimp only
  split
  · exact hdefined _ _ (uniform_complexType _ element)
  · exact hdefined _ _ (uniform_simpleType _ element)

theorem uniform_component (element : Xml.Element) :
    Uniform origin Component.Matches (component origin element) := by
  unfold component
  split
  · exact fun world hdocument => .bind (uniform_globalElement element world hdocument)
      fun _ _ _ _ h => .pure (.element h)
  · exact uniform_typeComponent element
  · exact uniform_typeComponent element
  · exact fun world hdocument => .bind (uniform_globalAttributeGroup element world hdocument)
      fun _ _ _ _ h => .pure (.attributeGroup h)
  · exact fun world hdocument => .bind (uniform_globalModelGroup element world hdocument)
      fun _ _ _ _ h => .pure (.modelGroup h)
  · exact fun world hdocument => .bind (uniform_attributeDeclaration true element world hdocument)
      fun _ _ _ _ h => .pure (.attr h)
  · exact fun _ _ => .pure .nothing

end Reading

namespace TypeTable

/-- The table with a type under a name. -/
def call (table : TypeTable) (name : ExpandedName) (id : TypeId) : TypeTable :=
  { table with named := Keyed.put name id table.named }

theorem namedType?_call (table : TypeTable) (name other : ExpandedName) (id : TypeId) :
    (table.call name id).namedType? other =
      if other = name then some id else table.namedType? other :=
  Keyed.lookup_put ..

end TypeTable

namespace SchemaSet

def enter (set : SchemaSet) : Component → SchemaSet
  | .type name id => { set with types := set.types.call name id }
  | .element declaration => set.addElement declaration
  | .attr declaration => set.addAttribute declaration
  | .attributeGroup group => set.addAttributeGroup group
  | .modelGroup group => set.addModelGroup group
  | .nothing => set

/-- The members of substitution groups after an element was declared. -/
def membersWith (members : List (ExpandedName × List ExpandedName))
    (declaration : ElementDeclaration) : List (ExpandedName × List ExpandedName) :=
  match declaration.substitutionGroup with
  | none => members
  | some head =>
    let held := (members.lookup head).getD []
    if declaration.name ∈ held then members
    else Keyed.put head (held ++ [declaration.name]) members

theorem addElement_eq (set : SchemaSet) (declaration : ElementDeclaration) :
    set.addElement declaration = { set with
      elements := Keyed.put declaration.name declaration set.elements
      members := membersWith set.members declaration } := by
  unfold addElement membersWith
  cases declaration.substitutionGroup with
  | none => rfl
  | some head =>
    show { set.addMember head declaration.name with
      elements := Keyed.put declaration.name declaration
        (set.addMember head declaration.name).elements } = _
    by_cases hmem : declaration.name ∈ set.substitutionMembers head
    · rw [addMember, if_pos hmem]
      simp only [substitutionMembers] at hmem
      simp only [if_pos hmem]
    · rw [addMember, if_neg hmem]
      simp only [substitutionMembers] at hmem
      simp only [if_neg hmem, substitutionMembers]

/-- The schema after a component was read, and whether it was. -/
def enterRead (set : SchemaSet) (reading : Reading Component) :
    Except SchemaError Unit × SchemaSet :=
  match reading.run.run set.types with
  | (.ok component, types) => (.ok (), enter { set with types := types } component)
  | (.error error, types) => (.error error, { set with types := types })

def read (set : SchemaSet) (origin : Origin) (element : Xml.Element) :
    Except SchemaError Unit × SchemaSet :=
  set.enterRead (Reading.component origin element)

theorem documents_read (set : SchemaSet) (origin : Origin) (element : Xml.Element) :
    (set.read origin element).2.documents = set.documents := by
  unfold read enterRead
  rcases (Reading.component origin element).run.run set.types with ⟨error | component, types⟩
  · rfl
  · cases component with
    | element declaration =>
      show (addElement _ declaration).documents = _
      rw [addElement_eq]
    | _ => rfl

theorem error_of_read {set : SchemaSet} {origin : Origin} {element : Xml.Element}
    {error : SchemaError} (h : (set.read origin element).1 = .error error) :
    ((Reading.component origin element).run.run set.types).1 = .error error := by
  unfold read enterRead at h
  generalize (Reading.component origin element).run.run set.types = made at h
  obtain ⟨cause | component, types⟩ := made
  · obtain rfl := Except.error.inj h
    rfl
  · nomatch h

def readAll (set : SchemaSet) (origin : Origin) : List Xml.Element →
    Except SchemaError Unit × SchemaSet
  | [] => (.ok (), set)
  | element :: others =>
    match set.read origin element with
    | (.ok _, set) => set.readAll origin others
    | (.error error, set) => (.error error, set)

section ReadAll

variable {set : SchemaSet} {origin : Origin} {element : Xml.Element} {others : List Xml.Element}

theorem readAll_cons (h : (set.read origin element).1 = .ok ()) :
    set.readAll origin (element :: others) = (set.read origin element).2.readAll origin others := by
  rw [readAll]
  rcases hread : set.read origin element with ⟨error | done, after⟩
  · rw [hread] at h
    cases h
  · rfl

theorem read_of_readAll (h : (set.readAll origin (element :: others)).1 = .ok ()) :
    (set.read origin element).1 = .ok () := by
  rw [readAll] at h
  rcases hread : set.read origin element with ⟨error | done, after⟩
  · rw [hread] at h
    cases h
  · rfl

end ReadAll

end SchemaSet

namespace Loading

variable {load : SchemaSource → Loading DocumentId} {schema : Xml.Element} {location : String}
  {origin : Origin}

theorem run_read {α : Type} {reading : Reading α} {loader : Loader} {result : Except SchemaError α}
    {types : TypeTable} (h : reading.run.run loader.set.types = (result, types)) :
    (read reading).run.run loader =
      (result, { loader with set := { loader.set with types := types } }) := by
  show ((reading.run.run loader.set.types).1, { loader with
    set := { loader.set with types := (reading.run.run loader.set.types).2 } }) = _
  rw [h]

/-- Entering what is read is entering a component, when what is read is only wrapped. -/
theorem run_changeSet {α : Type} {reading : Reading α} (wrap : α → Component)
    {change : α → SchemaSet → SchemaSet}
    (hchange : ∀ a set, change a set = set.enter (wrap a)) (loader : Loader) :
    (do let a ← read reading; changeSet (change a) : Loading Unit).run.run loader =
      ((loader.set.enterRead (do return wrap (← reading))).1,
        { loader with set := (loader.set.enterRead (do return wrap (← reading))).2 }) := by
  rw [SchemaSet.enterRead, ExceptT.run_bind, StateT.run_bind, ExceptT.run_bind, StateT.run_bind]
  rcases hrun : reading.run.run loader.set.types with ⟨error | a, types⟩
  · rw [run_read hrun]
    rfl
  · rw [run_read hrun]
    show (Except.ok (), { loader with set := change a { loader.set with types := types } }) = _
    rw [hchange]
    rfl

/-- Reading a type and entering it under its name. -/
def addType (reading : Reading TypeDefinition) (name : ExpandedName) : Loading Unit := do
  let definition ← read reading
  let isKnown := ((← get).set.types.namedType? name).isSome
  changeSet (·.addType name definition)
  if isKnown then warn (.typeRedefined name)

theorem run_addType (reading : Reading TypeDefinition) (name : ExpandedName) (loader : Loader) :
    ∃ warnings, (addType reading name).run.run loader =
      ((loader.set.enterRead (do return .type name (← Reading.enterType (← reading)))).1,
        { loader with
          set := (loader.set.enterRead (do return .type name (← Reading.enterType (← reading)))).2
          warnings := warnings }) := by
  rw [addType, SchemaSet.enterRead, ExceptT.run_bind, StateT.run_bind, ExceptT.run_bind,
    StateT.run_bind]
  rcases hrun : reading.run.run loader.set.types with ⟨error | definition, types⟩
  · rw [run_read hrun]
    exact ⟨loader.warnings, rfl⟩
  · rw [run_read hrun]
    show ∃ warnings, (if (types.namedType? name).isSome then warn (.typeRedefined name)
      else pure () : Loading Unit).run.run { loader with
        set := SchemaSet.addType { loader.set with types := types } name definition } = _
    split
    · exact ⟨loader.warnings ++ [.typeRedefined name], rfl⟩
    · exact ⟨loader.warnings, rfl⟩

/-- A type is entered in the same way, and some warnings are noted on the way. -/
theorem run_globalType (element : Xml.Element) (loader : Loader) :
    ∃ warnings, (globalType origin element).run.run loader =
      ((loader.set.enterRead (Reading.typeComponent origin element)).1, { loader with
        set := (loader.set.enterRead (Reading.typeComponent origin element)).2
        warnings := warnings }) := by
  unfold globalType Reading.typeComponent
  cases hrequired : Reading.required element "name" with
  | error error => exact ⟨loader.warnings, rfl⟩
  | ok written =>
    let name : ExpandedName := ⟨origin.targetNamespace, written⟩
    let noted : List LoadWarning :=
      loader.warnings ++ if name.isBuiltin then [.builtinRedefined name] else []
    have hnoted : ∀ rest : Loading Unit,
        (if name.isBuiltin then do warn (.builtinRedefined name); rest else rest).run.run loader =
          rest.run.run { loader with warnings := noted } := by
      intro rest
      by_cases hbuiltin : name.isBuiltin
      · simp only [noted, hbuiltin, if_true]
        rfl
      · simp only [noted, hbuiltin]
        simp
    by_cases htag : element.name.localName = "complexType"
    · obtain ⟨warnings, h⟩ := run_addType (Reading.complexType origin (some name) element) name
        { loader with warnings := noted }
      refine ⟨warnings, ?_⟩
      simp only [if_pos htag]
      exact (hnoted _).trans h
    · obtain ⟨warnings, h⟩ := run_addType (Reading.simpleType origin (some name) element) name
        { loader with warnings := noted }
      refine ⟨warnings, ?_⟩
      simp only [if_neg htag]
      exact (hnoted _).trans h

variable (load schema location origin)

/-- What is not a reference to a document enters its component into the schema, and nothing else
changes but the warnings. -/
theorem run_topElement {element : Xml.Element}
    (h : Import.isImportTag element.name.localName = false) (loader : Loader) :
    ∃ warnings, (topElement load schema location origin element).run.run loader =
      ((loader.set.read origin element).1, { loader with
        set := (loader.set.read origin element).2
        warnings := warnings }) := by
  unfold topElement SchemaSet.read Reading.component
  generalize element.name.localName = tag at h ⊢
  split
  · cases h
  · cases h
  · cases h
  · exact ⟨loader.warnings, run_changeSet .element (fun _ _ => rfl) loader⟩
  · exact run_globalType element loader
  · exact run_globalType element loader
  · exact ⟨loader.warnings, run_changeSet .attributeGroup (fun _ _ => rfl) loader⟩
  · exact ⟨loader.warnings, run_changeSet .modelGroup (fun _ _ => rfl) loader⟩
  · exact ⟨loader.warnings, run_changeSet .attr (fun _ _ => rfl) loader⟩
  · split
    case h_7 => exact ⟨loader.warnings, rfl⟩
    all_goals contradiction

theorem run_topElements {elements : List Xml.Element}
    (h : ∀ element ∈ elements, Import.isImportTag element.name.localName = false)
    (loader : Loader) :
    ∃ warnings, (topElements load schema location origin elements).run.run loader =
      ((loader.set.readAll origin elements).1, { loader with
        set := (loader.set.readAll origin elements).2
        warnings := warnings }) := by
  induction elements generalizing loader with
  | nil => exact ⟨loader.warnings, rfl⟩
  | cons element others ih =>
    obtain ⟨warnings, hfirst⟩ :=
      run_topElement load schema location origin (h element List.mem_cons_self) loader
    rw [topElements, ExceptT.run_bind, StateT.run_bind, hfirst, SchemaSet.readAll]
    rcases loader.set.read origin element with ⟨error | done, set⟩
    · exact ⟨warnings, rfl⟩
    · exact ih (fun other hother => h other (List.mem_cons_of_mem _ hother)) _

end Loading

end SchemaForms
