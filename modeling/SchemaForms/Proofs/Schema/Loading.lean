import SchemaForms.Proofs.Schema.Keeping
import SchemaForms.Proofs.Schema.Reading

/-!
Loading schemas. However many documents are loaded one after the other, whether the loads succeed or
fail, and however deep imports nest: every reference that a loader holds was written in one of its
documents and resolved there, at the element at which it is written. Documents are never dropped or
changed once they are entered, so this is kept while other documents are loaded in the midst of one.
-/

namespace SchemaForms

theorem Keyed.forall_mem_put {α β : Type} [DecidableEq α] {P : α × β → Prop} {key : α} {value : β}
    {entries : List (α × β)} (h : ∀ entry ∈ entries, P entry) (hnew : P (key, value)) :
    ∀ entry ∈ Keyed.put key value entries, P entry := by
  induction entries with
  | nil => simpa [Keyed.put] using hnew
  | cons first others ih =>
    have hothers := (List.forall_mem_cons.mp h).2
    unfold Keyed.put
    split
    · exact List.forall_mem_cons.mpr ⟨hnew, hothers⟩
    · exact List.forall_mem_cons.mpr ⟨(List.forall_mem_cons.mp h).1, ih hothers⟩

theorem getElem?_of_prefix {α : Type} {left right : List α} {index : Nat} {a : α}
    (hfront : left <+: right) (h : left[index]? = some a) : right[index]? = some a := by
  obtain ⟨hlt, rfl⟩ := List.getElem?_eq_some_iff.mp h
  exact List.prefix_iff_getElem?.mp hfront index hlt

/-- A property of all references of a component. Those of a type are in the table. -/
def Component.AllRefer (R : ExpandedName → String → DocumentId → Prop) : Component → Prop
  | .attr declaration => declaration.Refers R
  | .attributeGroup group => ∀ construct ∈ group.attributes, construct.AllRefer R
  | .modelGroup group => ∀ construct ∈ group.children, construct.AllRefer R
  | _ => True

namespace Reading

variable {R : ExpandedName → String → DocumentId → Prop} {root element : Xml.Element}
  {origin : Origin} (hR : HoldsIn R root origin.document) (hholds : root.Holds element)

include hR hholds

theorem keeps_typeComponent_allRefer :
    Keeps (TypeTable.AllRefer R) (Component.AllRefer R) (typeComponent origin element) := by
  refine .after fun written => ?_
  have hentered : ∀ name definition, definition.AllRefer (WrittenIn root origin.document) →
      Keeps (TypeTable.AllRefer R) (Component.AllRefer R)
        (do return .type name (← enterType definition)) := fun name definition hdefinition =>
    .bind (keeps_enterType (hdefinition.mono hR)) fun _ _ => .pure trivial
  dsimp only
  split
  · exact .bind (keeps_complexType hR _ element hholds) (hentered _)
  · exact .bind (keeps_simpleType origin _ element) fun definition hcontent =>
      hentered _ definition (.of_content hcontent)

theorem keeps_component_allRefer :
    Keeps (TypeTable.AllRefer R) (Component.AllRefer R) (component origin element) := by
  unfold component
  split
  · exact .bind (keeps_globalElement hR hholds) fun _ _ => .pure trivial
  · exact keeps_typeComponent_allRefer hR hholds
  · exact keeps_typeComponent_allRefer hR hholds
  · exact .bind (keeps_globalAttributeGroup hR hholds) fun group hgroup => .pure
      fun construct hconstruct => (hgroup construct hconstruct).mono hR
  · exact .bind (keeps_globalModelGroup hR hholds) fun group hgroup => .pure
      fun construct hconstruct => (hgroup construct hconstruct).mono hR
  · exact .bind (keeps_attributeDeclaration true hholds) fun declaration hdeclaration => .pure
      fun href => hR _ _ _ (hdeclaration href)
  · exact .pure trivial

end Reading

namespace SchemaSet

/-- All constructs of a schema, at whatever depth. -/
def constructs (set : SchemaSet) : List Construct :=
  Construct.partsOf (set.types.definitions.flatMap TypeDefinition.content ++
    set.attributeGroups.flatMap (·.2.attributes) ++ set.modelGroups.flatMap (·.2.children))

/-- A property of all references of a schema. -/
structure AllRefer (R : ExpandedName → String → DocumentId → Prop) (set : SchemaSet) : Prop where
  types : set.types.AllRefer R
  attributes : ∀ entry ∈ set.attributes, entry.2.Refers R
  attributeGroups : ∀ entry ∈ set.attributeGroups,
    ∀ construct ∈ entry.2.attributes, construct.AllRefer R
  modelGroups : ∀ entry ∈ set.modelGroups, ∀ construct ∈ entry.2.children, construct.AllRefer R

variable {R : ExpandedName → String → DocumentId → Prop} {set : SchemaSet}

theorem AllRefer.mono {S : ExpandedName → String → DocumentId → Prop}
    (h : ∀ name written document, R name written document → S name written document)
    (hall : set.AllRefer R) : set.AllRefer S where
  types definition hdefinition := (hall.types definition hdefinition).mono h
  attributes entry hentry href := h _ _ _ (hall.attributes entry hentry href)
  attributeGroups entry hentry construct hconstruct :=
    (hall.attributeGroups entry hentry construct hconstruct).mono h
  modelGroups entry hentry construct hconstruct :=
    (hall.modelGroups entry hentry construct hconstruct).mono h

theorem AllRefer.constructs (h : set.AllRefer R) : ∀ part ∈ set.constructs, part.Refers R := by
  intro part hpart
  obtain ⟨construct, hconstruct, hinside⟩ := Construct.mem_partsOf.mp hpart
  simp only [List.mem_append, List.mem_flatMap] at hconstruct
  rcases hconstruct with (⟨definition, hmem, hcontent⟩ | ⟨entry, hmem, hcontent⟩) |
    ⟨entry, hmem, hcontent⟩
  · exact h.types definition hmem construct hcontent part hinside
  · exact h.attributeGroups entry hmem construct hcontent part hinside
  · exact h.modelGroups entry hmem construct hcontent part hinside

theorem allRefer_initial : SchemaSet.initial.AllRefer R where
  types := TypeTable.allRefer_initial
  attributes := fun _ h => nomatch h
  attributeGroups := fun _ h => nomatch h
  modelGroups := fun _ h => nomatch h

theorem AllRefer.addElement (h : set.AllRefer R) (declaration : ElementDeclaration) :
    (set.addElement declaration).AllRefer R := by
  rw [addElement_eq]
  exact ⟨h.types, h.attributes, h.attributeGroups, h.modelGroups⟩

theorem AllRefer.addAttribute (h : set.AllRefer R) {declaration : AttributeDeclaration}
    (hdeclaration : declaration.Refers R) : (set.addAttribute declaration).AllRefer R :=
  ⟨h.types, Keyed.forall_mem_put h.attributes hdeclaration, h.attributeGroups, h.modelGroups⟩

theorem AllRefer.addAttributeGroup (h : set.AllRefer R) {group : AttributeGroup}
    (hgroup : ∀ construct ∈ group.attributes, construct.AllRefer R) :
    (set.addAttributeGroup group).AllRefer R :=
  ⟨h.types, h.attributes, Keyed.forall_mem_put h.attributeGroups hgroup, h.modelGroups⟩

theorem AllRefer.addModelGroup (h : set.AllRefer R) {group : ModelGroup}
    (hgroup : ∀ construct ∈ group.children, construct.AllRefer R) :
    (set.addModelGroup group).AllRefer R :=
  ⟨h.types, h.attributes, h.attributeGroups, Keyed.forall_mem_put h.modelGroups hgroup⟩

theorem AllRefer.enter (h : set.AllRefer R) {component : Component}
    (hcomponent : component.AllRefer R) : (set.enter component).AllRefer R := by
  cases component with
  | type name id => exact ⟨h.types, h.attributes, h.attributeGroups, h.modelGroups⟩
  | element declaration => exact h.addElement declaration
  | attr declaration => exact h.addAttribute hcomponent
  | attributeGroup group => exact h.addAttributeGroup hcomponent
  | modelGroup group => exact h.addModelGroup hcomponent
  | nothing => exact h

/-- What is read refers to what is written inside of it. -/
theorem AllRefer.read (h : set.AllRefer R) {root element : Xml.Element} {origin : Origin}
    (hR : HoldsIn R root origin.document) (hholds : root.Holds element) :
    (set.read origin element).2.AllRefer R := by
  obtain ⟨htypes, hmade⟩ := Reading.keeps_component_allRefer hR hholds set.types h.types
  unfold SchemaSet.read enterRead
  generalize (Reading.component origin element).run.run set.types = read at htypes hmade
  obtain ⟨error | component, types⟩ := read
  all_goals
    have hread : AllRefer R { set with types := types } :=
      ⟨htypes, h.attributes, h.attributeGroups, h.modelGroups⟩
  · exact hread
  · exact hread.enter (hmade component rfl)

end SchemaSet

namespace Loader

/-- A reference is written in a document that was loaded, and it is resolved there. -/
def Reads (loader : Loader) (name : ExpandedName) (written : String) (document : DocumentId) :
    Prop :=
  ∃ (source : SchemaSource) (root : Xml.Element),
    Xml.read? loader.allowsDoctype source.text = some root ∧
    loader.set.documents[document]? = some (Loading.documentOf source.location root) ∧
      root.Writes name written

/-- The document was read from the text of a source. -/
def WasRead (allowsDoctype : Bool) (document : SchemaDocument) : Prop :=
  ∃ (source : SchemaSource) (root : Xml.Element),
    Xml.read? allowsDoctype source.text = some root ∧
      document = Loading.documentOf source.location root

/-- The loader still has the documents, its documents were read, and all references were read from
them. -/
structure Sound (allowsDoctype : Bool) (documents : List SchemaDocument) (loader : Loader) :
    Prop where
  allows : loader.allowsDoctype = allowsDoctype
  holds : documents <+: loader.set.documents
  wereRead : ∀ document ∈ loader.set.documents, WasRead allowsDoctype document
  refers : loader.set.AllRefer loader.Reads

/-- Loaders that come out of any number of loads, successful or not. -/
inductive Loaded : Loader → Prop
  | new (resolvers : List Resolver) (allowsDoctype : Bool) :
    Loaded (Loader.new resolvers allowsDoctype)
  | load {loader : Loader} (h : Loaded loader) (source : SchemaSource) :
    Loaded (loader.load source).2

variable {loader other : Loader}

theorem Reads.mono {name : ExpandedName} {written : String} {document : DocumentId}
    (h : loader.Reads name written document)
    (hallows : other.allowsDoctype = loader.allowsDoctype)
    (hdocuments : loader.set.documents <+: other.set.documents) :
    other.Reads name written document := by
  obtain ⟨source, root, hread, hdocument, hwrites⟩ := h
  exact ⟨source, root, hallows ▸ hread, getElem?_of_prefix hdocuments hdocument, hwrites⟩

end Loader

namespace Loading

variable {allowsDoctype : Bool}

section Document

variable {documents : List SchemaDocument} {source : SchemaSource} {root : Xml.Element}
  {origin : Origin} (hread : Xml.read? allowsDoctype source.text = some root)
  (hentry : documents[origin.document]? = some (documentOf source.location root))

include hread hentry

/-- What is written in the document is read by every loader that still has it. -/
theorem holdsIn {loader : Loader} (h : loader.Sound allowsDoctype documents) :
    HoldsIn loader.Reads root origin.document := by
  rintro name written _ ⟨rfl, hwrites⟩
  exact ⟨source, root, h.allows ▸ hread, getElem?_of_prefix h.holds hentry, hwrites⟩

theorem isKeptByReading_sound {element : Xml.Element} (hholds : root.Holds element) :
    IsKeptByReading (Loader.Sound allowsDoctype documents) origin element := by
  intro loader h
  have hsame : (loader.set.read origin element).2.documents = loader.set.documents :=
    SchemaSet.documents_read ..
  have hrefers := h.refers.read (holdsIn hread hentry h) hholds
  exact ⟨h.allows, hsame.symm ▸ h.holds, hsame.symm ▸ h.wereRead, hrefers.mono fun _ _ _ hreads =>
    hreads.mono rfl (hsame.symm ▸ List.prefix_refl _)⟩

end Document

theorem sound_entering {documents : List SchemaDocument} {loader : Loader} {source : SchemaSource}
    {root : Xml.Element} (h : loader.Sound allowsDoctype documents)
    (hread : Xml.read? loader.allowsDoctype source.text = some root) :
    (loader.entering (documentOf source.location root)).Sound allowsDoctype
      (loader.set.documents ++ [documentOf source.location root]) := by
  have hreads : ∀ name written id, loader.Reads name written id →
      (loader.entering (documentOf source.location root)).Reads name written id :=
    fun _ _ _ h => h.mono rfl (List.prefix_append _ _)
  have hrefers := h.refers.mono hreads
  refine ⟨h.allows, List.prefix_refl _, fun found hfound => ?_, hrefers.types, hrefers.attributes,
    hrefers.attributeGroups, hrefers.modelGroups⟩
  rcases List.mem_append.mp hfound with hold | hnew
  · exact h.wereRead found hold
  · exact ⟨source, root, h.allows ▸ hread, List.mem_singleton.mp hnew⟩

/-- Whatever documents are held, a load keeps them, because each document that it enters is held
along with them while the elements of the document are read. -/
theorem carries_sound : Carries (Loader.Sound allowsDoctype) where
  ignores _ _ _ h := ⟨h.allows, h.holds, h.wereRead, h.refers⟩
  entered documents loader source root h _ hread := by
    refine ⟨_, sound_entering h hread, fun after hafter => ?_, fun element helement => ?_⟩
    · have hholds := h.holds.trans ((List.prefix_append _ _).trans hafter.holds)
      exact ⟨hafter.allows, hholds, hafter.wereRead, hafter.refers⟩
    · exact isKeptByReading_sound (h.allows ▸ hread) List.getElem?_concat_length
        (Relation.ReflTransGen.single helement)

end Loading

namespace Loader

/-- However many documents were loaded, they were read, and so were all references. -/
theorem Loaded.sound {loader : Loader} (h : loader.Loaded) :
    loader.Sound loader.allowsDoctype [] := by
  induction h with
  | new resolvers allowsDoctype =>
    exact ⟨rfl, List.nil_prefix, (fun _ h => nomatch h), SchemaSet.allRefer_initial⟩
  | @load loader h source ih =>
    have hafter := Loading.carries_sound.load ih source
    exact ⟨rfl, List.nil_prefix, hafter.allows ▸ hafter.wereRead, hafter.refers⟩

/-- All references that a loader holds were read from the documents that it has loaded. -/
theorem Loaded.allRefer {loader : Loader} (h : loader.Loaded) :
    loader.set.AllRefer loader.Reads :=
  h.sound.refers

end Loader

end SchemaForms
