import SchemaForms.Proofs.Schema.Qualified
import SchemaForms.Proofs.Schema.Retrying

/-!
The namespaces at the top of a document are recorded with it, and loads do not ask for them. So a
document that declares the empty default namespace is loaded like the same one without, if all
references in it are in some namespace: the same is entered, with the same warnings, and only the
record of the document is another one.
-/

namespace SchemaForms

def Loader.withDocuments (loader : Loader) (documents : List SchemaDocument) : Loader :=
  { loader with set := { loader.set with documents := documents } }

namespace Loading

variable {α β : Type} {front front' : List SchemaDocument}
  {load : SchemaSource → Loading DocumentId} {origin : Origin}

/-- The step does the same when other documents stand in the place of the first ones. -/
def Overlooks (front front' : List SchemaDocument) (step : Loading α) : Prop :=
  ∀ loader rest, loader.set.documents = front ++ rest → ∃ rest',
    (step.run.run loader).2.set.documents = front ++ rest' ∧
      step.run.run (loader.withDocuments (front' ++ rest)) =
        ((step.run.run loader).1, (step.run.run loader).2.withDocuments (front' ++ rest'))

section Rules

theorem Overlooks.pure (a : α) : Overlooks front front' (Pure.pure a : Loading α) :=
  fun _ rest h => ⟨rest, h, rfl⟩

theorem Overlooks.throw (error : SchemaError) :
    Overlooks front front' (MonadExcept.throw error : Loading α) :=
  fun _ rest h => ⟨rest, h, rfl⟩

theorem Overlooks.bind {step : Loading α} {next : α → Loading β} (h : Overlooks front front' step)
    (hnext : ∀ a, Overlooks front front' (next a)) : Overlooks front front' (step >>= next) := by
  intro loader rest hdocuments
  obtain ⟨rest', hafter, hrun⟩ := h loader rest hdocuments
  rw [ExceptT.run_bind, StateT.run_bind, StateT.run_bind, hrun]
  generalize step.run.run loader = reached at hafter
  obtain ⟨error | a, after⟩ := reached
  · exact ⟨rest', hafter, rfl⟩
  · exact hnext a after rest' hafter

theorem Overlooks.lookup (result : Except SchemaError α) {next : α → Loading β}
    (hnext : ∀ a, Overlooks front front' (next a)) :
    Overlooks front front' (liftM result >>= next) := by
  cases result with
  | ok a => exact hnext a
  | error error => exact .throw error

/-- What is asked of the loader does not depend on the documents. -/
theorem Overlooks.get {next : Loader → Loading α}
    (hsame : ∀ loader documents, next (loader.withDocuments documents) = next loader)
    (hnext : ∀ loader, Overlooks front front' (next loader)) :
    Overlooks front front' (get >>= next) := by
  intro loader rest hdocuments
  rw [run_get_bind, run_get_bind, hsame]
  exact hnext loader loader rest hdocuments

theorem overlooks_warn (warning : LoadWarning) : Overlooks front front' (warn warning) :=
  fun _ rest h => ⟨rest, h, rfl⟩

theorem overlooks_read (reading : Reading α) : Overlooks front front' (read reading) :=
  fun _ rest h => ⟨rest, h, rfl⟩

theorem overlooks_changeSet {change : SchemaSet → SchemaSet}
    (h : ∀ set documents, change { set with documents := documents } =
      { change set with documents := documents }) :
    Overlooks front front' (changeSet change) := by
  intro loader rest hdocuments
  have hkept : (change loader.set).documents = loader.set.documents := by
    rw [h loader.set loader.set.documents]
  refine ⟨rest, hkept.trans hdocuments, ?_⟩
  exact congrArg (fun set => (Except.ok (), { loader with set := set })) (h ..)

end Rules

theorem overlooks_globalType (element : Xml.Element) :
    Overlooks front front' (globalType origin element) := by
  have hdefined : ∀ name definition, Overlooks front front' (do
      let isKnown := ((← get).set.types.namedType? name).isSome
      changeSet (·.addType name definition)
      if isKnown then warn (.typeRedefined name)) := by
    intro name definition
    refine .get (fun _ _ => rfl) fun _ => .bind (overlooks_changeSet fun _ _ => rfl) fun _ => ?_
    split
    · exact overlooks_warn _
    · exact .pure _
  unfold globalType
  refine .lookup _ fun written => ?_
  dsimp only
  split
  · refine .bind (overlooks_warn _) fun _ => ?_
    split
    · exact .bind (overlooks_read _) (hdefined _)
    · exact .bind (overlooks_read _) (hdefined _)
  · split
    · exact .bind (overlooks_read _) (hdefined _)
    · exact .bind (overlooks_read _) (hdefined _)

theorem overlooks_followImport (hload : ∀ source, Overlooks front front' (load source))
    (schema : Xml.Element) (location : String) (element : Xml.Element) :
    Overlooks front front' (followImport load schema location element) := by
  refine .lookup _ fun reference => ?_
  split
  · exact .pure _
  · refine .get (fun _ _ => rfl) fun loader => ?_
    split
    · exact .pure _
    · split
      · exact .bind (hload _) fun _ => .pure _
      · exact overlooks_warn _
      · exact .throw _

theorem overlooks_topElement (hload : ∀ source, Overlooks front front' (load source))
    (schema : Xml.Element) (location : String) (element : Xml.Element) :
    Overlooks front front' (topElement load schema location origin element) := by
  unfold topElement
  split
  · exact overlooks_followImport hload schema location element
  · exact overlooks_followImport hload schema location element
  · exact overlooks_followImport hload schema location element
  · refine .bind (overlooks_read _) fun declaration => overlooks_changeSet fun set documents => ?_
    rw [SchemaSet.addElement_eq, SchemaSet.addElement_eq]
  · exact overlooks_globalType element
  · exact overlooks_globalType element
  · exact .bind (overlooks_read _) fun _ => overlooks_changeSet fun _ _ => rfl
  · exact .bind (overlooks_read _) fun _ => overlooks_changeSet fun _ _ => rfl
  · exact .bind (overlooks_read _) fun _ => overlooks_changeSet fun _ _ => rfl
  · exact .pure _

theorem overlooks_topElements (hload : ∀ source, Overlooks front front' (load source))
    (schema : Xml.Element) (location : String) (elements : List Xml.Element) :
    Overlooks front front' (topElements load schema location origin elements) := by
  induction elements with
  | nil => exact .pure _
  | cons element others ih =>
    exact .bind (overlooks_topElement hload schema location element) fun _ => ih

theorem overlooks_parse (source : SchemaSource) : Overlooks front front' (parse source) := by
  refine .get (fun _ _ => rfl) fun loader => ?_
  split
  · exact .throw _
  · split
    · exact .pure _
    · exact .throw _

/-- A document gets the same number, because as many documents are held. -/
theorem overlooks_enterDocument (hlength : front.length = front'.length)
    (document : SchemaDocument) : Overlooks front front' (enterDocument document) := by
  intro loader rest hdocuments
  refine ⟨rest ++ [document], ?_, ?_⟩
  · show loader.set.documents ++ [document] = _
    rw [hdocuments, List.append_assoc]
  · have hsame : (front' ++ rest).length = loader.set.documents.length := by
      rw [hdocuments, List.length_append, List.length_append, hlength]
    show (Except.ok (front' ++ rest).length, { loader with
      set := { loader.set with documents := front' ++ rest ++ [document] }
      loaded := Keyed.put document.location (front' ++ rest).length loader.loaded }) = _
    rw [hsame, List.append_assoc]
    rfl

theorem overlooks_unlessLoaded {location : String} {step : Loading DocumentId}
    (h : Overlooks front front' step) : Overlooks front front' (unlessLoaded location step) := by
  refine .get (fun _ _ => rfl) fun loader => ?_
  split
  · exact .pure _
  · exact h

theorem overlooks_document (hlength : front.length = front'.length) (depth : Nat)
    (source : SchemaSource) : Overlooks front front' (document depth source) := by
  induction depth generalizing source with
  | zero => exact overlooks_unlessLoaded (.throw _)
  | succ depth ih =>
    refine overlooks_unlessLoaded (.bind (overlooks_parse source) fun root => ?_)
    refine .bind (overlooks_enterDocument hlength _) fun id => ?_
    exact .bind (overlooks_topElements ih root source.location _) fun _ => .pure _

section Twins

variable {child child' : Xml.Element} (h : Reading.Twins child child')

include h

theorem globalType_eq : globalType origin child' = globalType origin child := by
  unfold globalType
  simp only [Reading.required_eq h.alike, h.alike.localName_eq, Reading.complexType_eq _ _ _ h,
    Reading.simpleType_eq _ _ _ h]

theorem followImport_eq (schema : Xml.Element) (location : String) :
    followImport load schema location child' = followImport load schema location child := by
  unfold followImport Import.ofElement
  simp only [h.alike.attribute?_eq, h.alike.localName_eq]

theorem topElement_eq (schema : Xml.Element) (location : String) :
    topElement load schema location origin child' =
      topElement load schema location origin child := by
  unfold topElement
  rw [h.alike.localName_eq, followImport_eq h, h.globalElement_eq, globalType_eq h,
    h.globalAttributeGroup_eq, h.globalModelGroup_eq, h.attributeDeclaration_eq]

end Twins

theorem topElements_eq {children children' : List Xml.Element}
    (h : List.Forall₂ Reading.Twins children children') (schema : Xml.Element)
    (location : String) : topElements load schema location origin children' =
      topElements load schema location origin children := by
  induction h with
  | nil => rfl
  | cons hfirst _ ih => rw [topElements, topElements, topElement_eq hfirst, ih]

end Loading

namespace Loader

variable {loader : Loader} {source source' : SchemaSource} {root root' : Xml.Element}

/-- A new document that declares the empty default namespace is loaded like the same one without, if
all references are in some namespace. What is recorded of it is another registry of namespaces. -/
theorem load_of_alike (hnew : loader.loaded.lookup source.location = none)
    (hlocation : source'.location = source.location)
    (hroot : source.root? loader.allowsDoctype = some root)
    (hroot' : source'.root? loader.allowsDoctype = some root')
    (halike : root.Alike (some "") root')
    (hqualified : root.children.all Reading.isQualifiedInside = true) : ∃ later,
    (loader.load source).2.set.documents =
        loader.set.documents ++ Loading.documentOf source.location root :: later ∧
      loader.load source' = ((loader.load source).1, (loader.load source).2.withDocuments
        (loader.set.documents ++ Loading.documentOf source.location root' :: later)) := by
  let body : Loading DocumentId :=
    Loading.topElements (Loading.document loader.maxDepth.pred) root source.location
      ⟨loader.set.documents.length, root.attribute? "targetNamespace",
        (Loading.documentOf source.location root).qualifiesElements⟩ root.children >>= fun _ =>
      pure loader.set.documents.length
  have hload : loader.load source =
      body.run.run (loader.entering (Loading.documentOf source.location root)) :=
    Loading.run_document_of_root? hnew hroot loader.maxDepth.pred
  have hload' : loader.load source' =
      body.run.run (loader.entering (Loading.documentOf source.location root')) := by
    have htwins : List.Forall₂ Reading.Twins root.children root'.children :=
      List.forall₂_iff_get.mpr ⟨halike.children.length_eq, fun position hlt hlt' =>
        ⟨(List.forall₂_iff_get.mp halike.children).2 position hlt hlt',
          List.all_eq_true.mp hqualified _ (List.get_mem _ _)⟩⟩
    have hqualifies : (Loading.documentOf source.location root').qualifiesElements =
        (Loading.documentOf source.location root).qualifiesElements := by
      simp only [Loading.documentOf, halike.attribute?_eq]
    have hrun := Loading.run_document_of_root? (hlocation ▸ hnew) hroot' loader.maxDepth.pred
    rw [hlocation, Loading.topElements_eq htwins, Loading.topElements_congr halike.attributes_eq,
      halike.attribute?_eq, hqualifies] at hrun
    exact hrun
  have hoverlooks : Loading.Overlooks
      (loader.set.documents ++ [Loading.documentOf source.location root])
      (loader.set.documents ++ [Loading.documentOf source.location root']) body :=
    .bind (Loading.overlooks_topElements (Loading.overlooks_document (by simp) _) _ _ _) fun _ =>
      .pure _
  obtain ⟨later, hdocuments, hsame⟩ := hoverlooks
    (loader.entering (Loading.documentOf source.location root)) [] (by simp [entering])
  refine ⟨later, ?_, ?_⟩
  · rw [hload, hdocuments, List.append_assoc, List.singleton_append]
  · have hentering : loader.entering (Loading.documentOf source.location root') =
        (loader.entering (Loading.documentOf source.location root)).withDocuments
          (loader.set.documents ++ [Loading.documentOf source.location root'] ++ []) := by
      simp only [entering, withDocuments, Loading.documentOf, List.append_nil]
    rw [hload, hload', hentering, hsame, List.append_assoc, List.singleton_append]

end Loader

end SchemaForms
