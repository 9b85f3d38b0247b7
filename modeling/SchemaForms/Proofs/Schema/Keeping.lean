import SchemaForms.Proofs.Schema.Entering

/-!
What loads keep. A load changes the schema at two points only: a document is entered once its text
has been read, and then what stands at its top is read into the schema, unless it is a reference to
another document. So a property of loaders that does not depend on the warnings is kept by loads,
however documents nest and wherever a load ends, when it is kept at these two points. While a
document is read more may hold than before it was entered.
-/

namespace SchemaForms

/-- The state right after a document was entered. -/
def Loader.entering (loader : Loader) (document : SchemaDocument) : Loader :=
  { loader with
    set := { loader.set with documents := loader.set.documents ++ [document] }
    loaded := Keyed.put document.location loader.set.documents.length loader.loaded }

namespace Loading

section Running

variable {loader : Loader} {source : SchemaSource} {root : Xml.Element}

theorem run_get_bind {α : Type} (next : Loader → Loading α) (loader : Loader) :
    (get >>= next : Loading α).run.run loader = (next loader).run.run loader := rfl

theorem topElement_of_isImportTag (load : SchemaSource → Loading DocumentId)
    (schema : Xml.Element) (location : String) (origin : Origin) {element : Xml.Element}
    (h : Import.isImportTag element.name.localName = true) :
    topElement load schema location origin element =
      followImport load schema location element := by
  simp only [Import.isImportTag, Bool.or_eq_true, decide_eq_true_eq] at h
  rcases h with (h | h) | h <;> simp [topElement, h]

theorem run_document_of_loaded {id : DocumentId}
    (h : loader.loaded.lookup source.location = some id) (depth : Nat) :
    (document (depth + 1) source).run.run loader = (.ok id, loader) := by
  rw [document, unlessLoaded, run_get_bind, h]
  rfl

theorem run_document_of_unread (hnew : loader.loaded.lookup source.location = none)
    (hread : Xml.read? loader.allowsDoctype source.text = none) (depth : Nat) :
    (document (depth + 1) source).run.run loader = (.error .malformed, loader) := by
  rw [document, unlessLoaded, run_get_bind, hnew, parse]
  dsimp only
  rw [bind_assoc, run_get_bind, hread]
  rfl

/-- A document that is not loaded yet is entered first, and then what it has at its top. -/
theorem run_document (hnew : loader.loaded.lookup source.location = none)
    (hread : Xml.read? loader.allowsDoctype source.text = some root) (depth : Nat) :
    (document (depth + 1) source).run.run loader =
      if root.name = schemaName "schema" then
        ((topElements (document depth) root source.location
          ⟨loader.set.documents.length, root.attribute? "targetNamespace",
            (documentOf source.location root).qualifiesElements⟩ root.children >>= fun _ =>
          pure loader.set.documents.length : Loading DocumentId).run.run
            (loader.entering (documentOf source.location root)))
      else (.error (.notASchema root.name.localName), loader) := by
  have hparsed : ∀ next : Xml.Element → Loading DocumentId,
      (parse source >>= next).run.run loader =
        if root.name = schemaName "schema" then (next root).run.run loader
        else (.error (.notASchema root.name.localName), loader) := by
    intro next
    rw [parse, bind_assoc, run_get_bind, hread]
    dsimp only
    split <;> rfl
  rw [document, unlessLoaded, run_get_bind, hnew]
  exact hparsed _

end Running

/-- The property does not depend on the warnings. -/
def IgnoresWarnings (kept : Loader → Prop) : Prop :=
  ∀ loader warnings, kept loader → kept { loader with warnings := warnings }

/-- The property is kept when an element at the top of a document is read, successfully or not. -/
def IsKeptByReading (kept : Loader → Prop) (origin : Origin) (element : Xml.Element) : Prop :=
  ∀ loader, kept loader → kept { loader with set := (loader.set.read origin element).2 }

section Keeping

variable {kept : Loader → Prop} {load : SchemaSource → Loading DocumentId} {origin : Origin}

theorem keeps_get : Keeps kept (fun _ => True) (get : Loading Loader) :=
  fun _ h => ⟨h, fun _ _ => trivial⟩

variable (hignores : IgnoresWarnings kept)
  (hload : ∀ source, Keeps kept (fun _ => True) (load source)) (schema : Xml.Element)
  (location : String)

include hignores hload

theorem keeps_followImport (element : Xml.Element) :
    Keeps kept (fun _ => True) (followImport load schema location element) := by
  refine .after fun reference => ?_
  split
  · exact .pure trivial
  · refine .bind keeps_get fun loader _ => ?_
    split
    · exact .pure trivial
    · split
      · exact .bind (hload _) fun _ _ => .pure trivial
      · exact .modify fun loader => hignores loader _
      · exact .throw

theorem keeps_topElement {element : Xml.Element} (hread : IsKeptByReading kept origin element) :
    Keeps kept (fun _ => True) (topElement load schema location origin element) := by
  by_cases htag : Import.isImportTag element.name.localName = true
  · rw [topElement_of_isImportTag load schema location origin htag]
    exact keeps_followImport hignores hload schema location element
  · intro loader h
    obtain ⟨warnings, hrun⟩ :=
      run_topElement load schema location origin (eq_false_of_ne_true htag) loader
    rw [hrun]
    exact ⟨hignores _ warnings (hread loader h), fun _ _ => trivial⟩

theorem keeps_topElements {elements : List Xml.Element}
    (hread : ∀ element ∈ elements, IsKeptByReading kept origin element) :
    Keeps kept (fun _ => True) (topElements load schema location origin elements) := by
  induction elements with
  | nil => exact .pure trivial
  | cons element others ih =>
    obtain ⟨hfirst, hothers⟩ := List.forall_mem_cons.mp hread
    exact .bind (keeps_topElement hignores hload schema location hfirst) fun _ _ => ih hothers

end Keeping

variable {ι : Type}

/-- A family of properties that loads keep: for each of them that holds when a document is entered
there is one that implies it, holds afterwards, and is kept while the document is read. -/
structure Carries (kept : ι → Loader → Prop) : Prop where
  ignores : ∀ i, IgnoresWarnings (kept i)
  entered : ∀ i {loader : Loader} {source : SchemaSource} {root : Xml.Element}, kept i loader →
    loader.loaded.lookup source.location = none →
    Xml.read? loader.allowsDoctype source.text = some root →
    ∃ inner, kept inner (loader.entering (documentOf source.location root)) ∧
      (∀ after, kept inner after → kept i after) ∧
      ∀ element ∈ root.children, IsKeptByReading (kept inner)
        ⟨loader.set.documents.length, root.attribute? "targetNamespace",
          (documentOf source.location root).qualifiesElements⟩ element

variable {kept : ι → Loader → Prop}

theorem Carries.keeps_document (h : Carries kept) (depth : Nat) :
    ∀ i source, Keeps (kept i) (fun _ => True) (document depth source) := by
  -- One level deeper another property of the family is kept.
  induction depth with
  | zero =>
    intro i source
    refine .bind keeps_get fun loader _ => ?_
    split
    · exact .pure trivial
    · exact .throw
  | succ depth ih =>
    intro i source loader hkept
    refine ⟨?_, fun _ _ => trivial⟩
    cases hnew : loader.loaded.lookup source.location with
    | some id =>
      rw [run_document_of_loaded hnew]
      exact hkept
    | none =>
      cases hread : Xml.read? loader.allowsDoctype source.text with
      | none =>
        rw [run_document_of_unread hnew hread]
        exact hkept
      | some root =>
        rw [run_document hnew hread]
        split
        · obtain ⟨inner, hentered, himplies, hreads⟩ := h.entered i hkept hnew hread
          have hbody := keeps_topElements (h.ignores inner) (ih inner) root source.location hreads
          have hafter : Keeps (kept inner) (fun _ => True) _ :=
            hbody.bind fun _ _ => .pure (a := loader.set.documents.length) trivial
          exact himplies _ (hafter _ hentered).1
        · exact hkept

theorem Carries.load (h : Carries kept) {i : ι} {loader : Loader} (hkept : kept i loader)
    (source : SchemaSource) : kept i (loader.load source).2 :=
  (h.keeps_document loader.maxDepth i source loader hkept).1

end Loading

end SchemaForms
