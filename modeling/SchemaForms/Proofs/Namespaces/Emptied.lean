import SchemaForms.Proofs.Compile.Naming
import SchemaForms.Proofs.Index.Listing
import SchemaForms.Proofs.Namespaces.Prefixes
import SchemaForms.Proofs.Schema.Moving
import SchemaForms.Proofs.Schema.Overlooking
import SchemaForms.Proofs.Schema.Targets
import Mathlib.Data.List.GetD

/-!
Schema documents that declare the empty default namespace. In the terms of XML they declare none,
but a reference without prefix is read as a name in the empty namespace, and nothing is declared
there. So every reference that is in no namespace otherwise is lost. Where all references are in
some namespace, the document is loaded as it is without the declaration, the same is indexed, and
the templates are the same.
-/

namespace SchemaForms

namespace SchemaSet

/-- Nothing is declared under the name. An attribute at the top of a document may refer to it. -/
structure Lacks (set : SchemaSet) (name : ExpandedName) : Prop where
  type : set.types.namedType? name = none
  element : set.element? name = none
  attr : ∀ declaration, set.attribute? name = some declaration →
    declaration.isReference = true
  attributeGroup : set.attributeGroup? name = none
  modelGroup : set.modelGroup? name = none

/-- How the attributes and the references to elements of a document are written. -/
def writtenIn (set : SchemaSet) (id : DocumentId) : List String :=
  set.constructs.filterMap fun
    | .attributeUse use => if use.document = id then some use.written else none
    | .element (.globally _ written document) _ => if document = id then some written else none
    | _ => none

/-- Schemas that only differ in the default namespaces that are recorded for documents. -/
structure SameButDefaults (left right : SchemaSet) : Prop where
  same : right = { left with documents := right.documents }
  documents : List.Forall₂ (fun document document' =>
    document' = { document with namespaces := document'.namespaces } ∧
      document'.namespaces.prefixed = document.namespaces.prefixed) left.documents right.documents

theorem sameButDefaults_self (set : SchemaSet) : set.SameButDefaults set :=
  ⟨rfl, List.forall₂_same.mpr fun _ _ => ⟨rfl, rfl⟩⟩

section Names

variable {left right : SchemaSet} (h : left.SameButDefaults right)

include h

theorem SameButDefaults.prefixed (id : DocumentId) :
    (right.document id).namespaces.prefixed = (left.document id).namespaces.prefixed := by
  have hnone : SchemaDocument.mk "" none .empty false = ⟨"", none, .empty, false⟩ ∧
      NamespaceRegistry.empty.prefixed = NamespaceRegistry.empty.prefixed := ⟨rfl, rfl⟩
  exact (forall₂_getD h.documents hnone id).2

/-- The default namespace is only asked for where something is written with a colon in front. -/
theorem SameButDefaults.namesAlike (namespaces : InstanceNamespaces)
    (hcolon : ∀ id, ∀ written ∈ left.writtenIn id, written.toList.head? = some ':' →
      right.document id = left.document id) : NamesAlike namespaces left right := by
  have hresolve : ∀ id, ∀ written ∈ left.writtenIn id,
      namespaces.resolve written (right.document id).namespaces =
        namespaces.resolve written (left.document id).namespaces := by
    intro id written hwritten
    by_cases hfront : written.toList.head? = some ':'
    · rw [hcolon id written hwritten hfront]
    · exact InstanceNamespaces.resolve_eq (h.prefixed id) namespaces hfront
  refine ⟨h.same, fun reference occurs hmem => ?_, fun use hmem => ?_, ?_⟩
  · cases reference with
    | locally declaration => rfl
    | globally name written document =>
      have hwritten : written ∈ left.writtenIn document :=
        List.mem_filterMap.mpr ⟨_, hmem, if_pos rfl⟩
      simp only [elementName, hresolve document written hwritten]
  · have hwritten : use.written ∈ left.writtenIn use.document :=
      List.mem_filterMap.mpr ⟨_, hmem, if_pos rfl⟩
    simp only [attributeName, hresolve _ _ hwritten]
  · have hdocuments := h.documents
    unfold wildcardName
    generalize left.documents = documents at hdocuments
    generalize right.documents = documents' at hdocuments
    cases hdocuments with
    | nil => rfl
    | cons hfirst _ =>
      simp only [List.head?_cons, Option.map_some, SchemaDocument.schemaPrefix_eq hfirst.2]

end Names

end SchemaSet

/-- The second element has the same attributes, and the names written there are read in the empty
namespace where the first one reads them in none. -/
structure Xml.Element.ReadsEmptied (element element' : Xml.Element) : Prop where
  attributes : element'.attributes = element.attributes
  resolve : ∀ written, ExpandedName.resolve written element' =
    (ExpandedName.resolve written element).map ExpandedName.emptied

namespace Loader

variable {loader : Loader} {source source' : SchemaSource} {root : Xml.Element}

theorem lacks_empty (h : loader.Loaded)
    (htargets : ∀ document ∈ loader.set.documents, document.targetNamespace ≠ some "")
    (localName : String) : loader.set.Lacks ⟨some "", localName⟩ := by
  have hdeclared := h.declaredIn
  have hnot : some "" ∉ loader.set.targets := by
    intro hmem
    obtain ⟨document, hdocument, htarget⟩ := List.mem_map.mp hmem
    exact htargets document hdocument htarget
  have hnone : ∀ {α : Type} {found : Option α},
      (found.isSome = true → some "" ∈ loader.set.targets) → found = none := by
    intro α found hfound
    exact Option.not_isSome_iff_eq_none.mp (mt hfound hnot)
  refine ⟨hnone (hdeclared.types _ ?_), hnone (hdeclared.elements _), fun declaration h => ?_,
    hnone (hdeclared.attributeGroups _), hnone (hdeclared.modelGroups _)⟩
  · simp [ExpandedName.isBuiltin, schemaNamespace]
  · exact (hdeclared.attributes _ _ h).resolve_right hnot

theorem exists_root_alike (hroot : source.root? loader.allowsDoctype = some root)
    (htext : Xml.DeclaresEmptyDefault loader.allowsDoctype source.text source'.text) :
    ∃ root', source'.root? loader.allowsDoctype = some root' ∧ root.Alike (some "") root' := by
  obtain ⟨hread, hname⟩ := Option.filter_eq_some_iff.mp hroot
  have halike := Xml.read?_declaresEmptyDefault htext
  rw [hread] at halike
  cases hread' : Xml.read? loader.allowsDoctype source'.text with
  | none =>
    rw [hread'] at halike
    cases halike
  | some root' =>
    rw [hread'] at halike
    cases halike with
    | some halike =>
      refine ⟨root', ?_, halike⟩
      have hname : root.name = schemaName "schema" := by simpa using hname
      rw [SchemaSource.root?, hread', Option.filter_some, halike.name_eq, hname]
      rfl

/-- A qualified document is loaded as it is without the declaration, except for what is recorded of
the document itself. -/
theorem load_sameButDefaults {root' : Xml.Element} (hlocation : source'.location = source.location)
    (hroot : source.root? loader.allowsDoctype = some root)
    (hroot' : source'.root? loader.allowsDoctype = some root')
    (halike : root.Alike (some "") root')
    (hqualified : root.children.all Reading.isQualifiedInside = true) :
    (loader.load source').1 = (loader.load source).1 ∧
      (loader.load source').2.warnings = (loader.load source).2.warnings ∧
      (loader.load source).2.set.SameButDefaults (loader.load source').2.set ∧
      ∀ id, id ≠ loader.set.documents.length →
        (loader.load source').2.set.document id = (loader.load source).2.set.document id := by
  cases hnew : loader.loaded.lookup source.location with
  | some known =>
    rw [load_of_loaded hnew, load_of_loaded (hlocation ▸ hnew)]
    exact ⟨rfl, rfl, SchemaSet.sameButDefaults_self _, fun _ _ => rfl⟩
  | none =>
    obtain ⟨later, hdocuments, hsame⟩ :=
      load_of_alike hnew hlocation hroot hroot' halike hqualified
    have hentry : Loading.documentOf source.location root' =
        { Loading.documentOf source.location root with namespaces := .ofElement root' } := by
      simp only [Loading.documentOf, halike.attribute?_eq]
    rw [hsame]
    refine ⟨rfl, rfl, ⟨rfl, ?_⟩, fun id hid => ?_⟩
    · rw [hdocuments]
      refine List.rel_append (List.forall₂_same.mpr fun _ _ => ⟨rfl, rfl⟩)
        (.cons ⟨hentry, ?_⟩ (List.forall₂_same.mpr fun _ _ => ⟨rfl, rfl⟩))
      exact NamespaceRegistry.prefixed_ofElement halike.scope.listed
    · show (loader.set.documents ++ Loading.documentOf source.location root' :: later).getD id _ =
        (loader.load source).2.set.documents.getD id _
      rw [hdocuments]
      rcases Nat.lt_or_gt_of_ne hid with hlt | hgt
      · rw [List.getD_append _ _ _ _ hlt, List.getD_append _ _ _ _ hlt]
      · obtain ⟨position, hposition⟩ : ∃ position, id - loader.set.documents.length =
            position + 1 := ⟨id - loader.set.documents.length - 1, by omega⟩
        rw [List.getD_append_right _ _ _ _ (Nat.le_of_lt hgt), hposition,
          List.getD_append_right _ _ _ _ (Nat.le_of_lt hgt), hposition]
        rfl

/-- Declaring the empty default namespace for a whole document changes what the references without
prefix mean: those in no namespace are in the empty one, where nothing is declared. If there are
none, then the document is loaded in the same way, and the same is indexed and shown, unless the
name of an attribute begins with a colon. -/
theorem emptyDefault_changes_unqualified (hloaded : loader.Loaded)
    (hlocation : source'.location = source.location)
    (hroot : source.root? loader.allowsDoctype = some root)
    (htext : Xml.DeclaresEmptyDefault loader.allowsDoctype source.text source'.text) :
    let loaded := loader.load source
    let loaded' := loader.load source'
    ∃ root', source'.root? loader.allowsDoctype = some root' ∧
      (∀ path, Option.Rel Xml.Element.ReadsEmptied (root.at? path) (root'.at? path)) ∧
      ((∀ document ∈ loaded'.2.set.documents, document.targetNamespace ≠ some "") →
        ∀ localName, loaded'.2.set.Lacks ⟨some "", localName⟩) ∧
      (root.children.all Reading.isQualifiedInside = true →
        loaded'.1 = loaded.1 ∧ loaded'.2.warnings = loaded.2.warnings ∧
          loaded.2.set.SameButDefaults loaded'.2.set ∧
          ((∀ written ∈ loaded.2.set.writtenIn loader.set.documents.length,
              written.toList.head? ≠ some ':') →
            ∀ namespaces roots mode address,
              (SchemaIndex.build loaded'.2.set namespaces roots).map (fun index =>
                  (index.roots, index.nodes, index.warnings, index.compile mode address)) =
                (SchemaIndex.build loaded.2.set namespaces roots).map fun index =>
                  (index.roots, index.nodes, index.warnings, index.compile mode address))) := by
  intro loaded loaded'
  obtain ⟨root', hroot', halike⟩ := exists_root_alike hroot htext
  refine ⟨root', hroot', fun path => ?_, ?_, fun hqualified => ?_⟩
  · exact rel_mono (halike.at? path) fun _ _ h => ⟨h.attributes_eq, h.resolve_eq⟩
  · exact lacks_empty (.load hloaded source')
  · obtain ⟨hresult, hwarnings, hsame, hothers⟩ :=
      load_sameButDefaults hlocation hroot hroot' halike hqualified
    refine ⟨hresult, hwarnings, hsame, fun hcolon namespaces roots mode address => ?_⟩
    have hnames := hsame.namesAlike namespaces fun id written hwritten hfront =>
      hothers id fun hid => hcolon written (hid ▸ hwritten) hfront
    rw [hnames.build_eq]
    cases hbuild : SchemaIndex.build loaded.2.set namespaces roots with
    | error error => rfl
    | ok index =>
      obtain ⟨hset, hnamespaces, -⟩ := SchemaIndex.exists_lists hbuild
      rw [← hset, ← hnamespaces] at hnames
      have hcompile := hnames.compile_eq mode address
      simp only [Except.map, hcompile]

/-- A document without target namespace. -/
def bareSchema (declarations content : String) : SchemaSource :=
  ⟨"main.xsd", "<x:schema xmlns:x='http://www.w3.org/2001/XMLSchema'" ++ declarations ++ ">" ++
    content ++ "</x:schema>"⟩

/-- An element whose type is referred to with a prefix. -/
def builtinRoot : String :=
  "<x:element name='r' type='x:string'/>"

/-- An element with a type that is declared beside it. -/
def typedRoot : String :=
  "<x:element name='r' type='T'/><x:complexType name='T'/>"

/-- What is indexed of the element `r` if the document is the only one. -/
def indexedAddresses (source : SchemaSource) : Option (List String) :=
  (SchemaIndex.build ((Loader.new [] false).load source).2.set .disabled
    [⟨none, "r"⟩]).toOption.map fun index => index.nodes.map fun node => node.address.text

/-- How the top of such a document is read, with the declarations and what follows. -/
def bareMarkup (declarations : List Xml.WrittenAttribute) (more : List Xml.Markup) :
    Xml.WrittenDocument :=
  ⟨[], .startTag ⟨"x", "schema"⟩
    (⟨⟨"xmlns", "x"⟩, schemaNamespace.toList⟩ :: declarations) false :: more⟩

/-- What follows the top tag of the document. -/
def markupBelow (source : SchemaSource) : List Xml.Markup :=
  (Xml.WrittenDocument.read? false source.text.toList).elim [] fun document => document.markup.tail

theorem bareMarkup_declaresEmptyDefault
    (hbare : Xml.WrittenDocument.read? false source.text.toList =
      some (bareMarkup [] (markupBelow source)))
    (hemptied : Xml.WrittenDocument.read? false source'.text.toList =
      some (bareMarkup [⟨Xml.emptyDefault, []⟩] (markupBelow source))) :
    Xml.DeclaresEmptyDefault false source.text source'.text := by
  refine ⟨_, _, [_], [], _, _, hbare, hemptied, ?_⟩
  simp [Xml.WrittenName.DeclaresDefault]

theorem emptyDefault_changes_unqualified_builtin :
    let loader := Loader.new [] false
    let source := bareSchema "" builtinRoot
    let source' := bareSchema " xmlns=''" builtinRoot
    loader.Loaded ∧ source'.location = source.location ∧
      Xml.DeclaresEmptyDefault loader.allowsDoctype source.text source'.text ∧
      indexedAddresses source = some ["/r"] ∧
      ∃ root, source.root? loader.allowsDoctype = some root ∧
        root.children.all Reading.isQualifiedInside = true ∧
        ∀ namespaces roots mode address,
          (SchemaIndex.build (loader.load source').2.set namespaces roots).map (fun index =>
              (index.roots, index.nodes, index.warnings, index.compile mode address)) =
            (SchemaIndex.build (loader.load source).2.set namespaces roots).map fun index =>
              (index.roots, index.nodes, index.warnings, index.compile mode address) := by
  intro loader source source'
  obtain ⟨hbare, hemptied, hindexed, hread, hcolon⟩ :
      Xml.WrittenDocument.read? false source.text.toList =
          some (bareMarkup [] (markupBelow source)) ∧
        Xml.WrittenDocument.read? false source'.text.toList =
          some (bareMarkup [⟨Xml.emptyDefault, []⟩] (markupBelow source)) ∧
        indexedAddresses source = some ["/r"] ∧
        ((source.root? loader.allowsDoctype).any fun root =>
          root.children.all Reading.isQualifiedInside) = true ∧
        ∀ written ∈ (loader.load source).2.set.writtenIn loader.set.documents.length,
          written.toList.head? ≠ some ':' := by
    decide +kernel
  have hloaded : loader.Loaded := .new [] false
  have hlocation : source'.location = source.location := rfl
  have htext := bareMarkup_declaresEmptyDefault hbare hemptied
  obtain ⟨root, hroot, hqualified⟩ := (Option.any_eq_true _ _).mp hread
  obtain ⟨-, -, -, -, hsame⟩ := emptyDefault_changes_unqualified hloaded hlocation hroot htext
  refine ⟨hloaded, hlocation, htext, hindexed, root, hroot, hqualified, ?_⟩
  exact (hsame hqualified).2.2.2 hcolon

theorem emptyDefault_empties_index :
    let loader := Loader.new [] false
    let source := bareSchema "" typedRoot
    let source' := bareSchema " xmlns=''" typedRoot
    Xml.DeclaresEmptyDefault loader.allowsDoctype source.text source'.text ∧
      (loader.load source).1.toOption = some 0 ∧ (loader.load source').1.toOption = some 0 ∧
      indexedAddresses source = some ["/r"] ∧ indexedAddresses source' = some [] := by
  intro loader source source'
  obtain ⟨hbare, hemptied, hruns⟩ :
      Xml.WrittenDocument.read? false source.text.toList =
          some (bareMarkup [] (markupBelow source)) ∧
        Xml.WrittenDocument.read? false source'.text.toList =
          some (bareMarkup [⟨Xml.emptyDefault, []⟩] (markupBelow source)) ∧
        (loader.load source).1.toOption = some 0 ∧ (loader.load source').1.toOption = some 0 ∧
        indexedAddresses source = some ["/r"] ∧ indexedAddresses source' = some [] := by
    decide +kernel
  exact ⟨bareMarkup_declaresEmptyDefault hbare hemptied, hruns⟩

end Loader

end SchemaForms
