import SchemaForms.Proofs.Schema.Importing
import SchemaForms.Proofs.Schema.Reordering

/-!
Loading a document once more after the load of it failed. A location is known from the moment at
which the top element has been read, and whatever fails afterwards, nothing takes it off the list.
So the second load answers the number of a document of which only a part was read. Only a text that
is no schema document is reported again: it was turned down before anything was entered.
-/

namespace SchemaForms

/-- The top element of a schema document. -/
def SchemaSource.root? (source : SchemaSource) (allowsDoctype : Bool) : Option Xml.Element :=
  (Xml.read? allowsDoctype source.text).filter (·.name = schemaName "schema")

/-- What is wrong with a text that is no schema document. -/
def SchemaSource.rejection (source : SchemaSource) (allowsDoctype : Bool) : SchemaError :=
  match Xml.read? allowsDoctype source.text with
  | none => .malformed
  | some root => .notASchema root.name.localName

/-- The document is entered under its location. -/
structure Loader.Knows (document : SchemaDocument) (id : DocumentId) (loader : Loader) : Prop where
  loaded : loader.loaded.lookup document.location = some id
  entered : loader.set.documents[id]? = some document

namespace Loading

variable {known : SchemaDocument} {id : DocumentId} {load : SchemaSource → Loading DocumentId}

/-- The step leaves a known document known, also when it fails. -/
abbrev Remembers {α : Type} (known : SchemaDocument) (id : DocumentId) (step : Loading α) : Prop :=
  Keeps (Loader.Knows known id) (fun _ => True) step

theorem knows_entering {loader : Loader} (h : loader.Knows known id) {document : SchemaDocument}
    (hother : document.location ≠ known.location) : (loader.entering document).Knows known id := by
  have hlt : id < loader.set.documents.length := (List.getElem?_eq_some_iff.mp h.entered).1
  constructor
  · rw [Loader.entering, Keyed.lookup_put, if_neg hother.symm]
    exact h.loaded
  · rw [Loader.entering, List.getElem?_append_left hlt]
    exact h.entered

theorem entering_knows (loader : Loader) (document : SchemaDocument) :
    (loader.entering document).Knows document loader.set.documents.length := by
  constructor
  · rw [Loader.entering, Keyed.lookup_put, if_pos rfl]
  · rw [Loader.entering, List.getElem?_concat_length]

section Running

variable {loader : Loader} {source : SchemaSource} {root : Xml.Element}

/-- A text that is no schema document is turned down before anything is entered. -/
theorem run_document_of_rejected (hnew : loader.loaded.lookup source.location = none)
    (hroot : source.root? loader.allowsDoctype = none) (depth : Nat) :
    (document (depth + 1) source).run.run loader =
      (.error (source.rejection loader.allowsDoctype), loader) := by
  unfold SchemaSource.root? at hroot
  unfold SchemaSource.rejection
  cases hread : Xml.read? loader.allowsDoctype source.text with
  | none => exact run_document_of_unread hnew hread depth
  | some schema =>
    have hname : schema.name ≠ schemaName "schema" := by simpa [hread] using hroot
    rw [run_document hnew hread, if_neg hname]

theorem run_document_of_root? (hnew : loader.loaded.lookup source.location = none)
    (hroot : source.root? loader.allowsDoctype = some root) (depth : Nat) :
    (document (depth + 1) source).run.run loader =
      (topElements (document depth) root source.location
        ⟨loader.set.documents.length, root.attribute? "targetNamespace",
          (documentOf source.location root).qualifiesElements⟩ root.children >>= fun _ =>
        pure loader.set.documents.length : Loading DocumentId).run.run
          (loader.entering (documentOf source.location root)) := by
  obtain ⟨hread, hname⟩ := Option.filter_eq_some_iff.mp hroot
  rw [run_document hnew hread, if_pos (by simpa using hname)]

end Running

theorem isKeptByReading_knows (origin : Origin) (element : Xml.Element) :
    IsKeptByReading (Loader.Knows known id) origin element :=
  fun _ h => ⟨h.loaded, (SchemaSet.documents_read ..).symm ▸ h.entered⟩

/-- At its own location a known document is answered, and no other one takes its place. -/
theorem carries_knows : Carries fun _ : Unit => Loader.Knows known id where
  ignores _ _ _ h := ⟨h.loaded, h.entered⟩
  entered _ loader source root h hnew _ := by
    have hother : source.location ≠ known.location := by
      intro hsame
      rw [hsame, h.loaded] at hnew
      nomatch hnew
    exact ⟨(), knows_entering h hother, fun _ hafter => hafter, fun element _ =>
      isKeptByReading_knows _ element⟩

theorem remembers_topElements (depth : Nat) (schema : Xml.Element) (location : String)
    (origin : Origin) (elements : List Xml.Element) :
    Remembers known id (topElements (document depth) schema location origin elements) :=
  keeps_topElements (carries_knows.ignores ()) (carries_knows.keeps_document depth ()) schema
    location fun element _ => isKeptByReading_knows origin element

/-- Whatever the load of a schema document comes to, the document is known afterwards. -/
theorem knows_document {loader : Loader} {source : SchemaSource} {root : Xml.Element}
    (hnew : loader.loaded.lookup source.location = none)
    (hroot : source.root? loader.allowsDoctype = some root) (depth : Nat) :
    ((document (depth + 1) source).run.run loader).2.Knows (documentOf source.location root)
      loader.set.documents.length := by
  rw [run_document_of_root? hnew hroot]
  have hrest : Remembers (documentOf source.location root) loader.set.documents.length
      (topElements (document depth) root source.location
        ⟨loader.set.documents.length, root.attribute? "targetNamespace",
          (documentOf source.location root).qualifiesElements⟩ root.children >>= fun _ =>
        pure loader.set.documents.length : Loading DocumentId) :=
    (remembers_topElements depth _ _ _ _).bind fun _ _ => .pure trivial
  exact (hrest _ (entering_knows loader _)).1

end Loading

namespace Loader

variable {loader failed : Loader} {source : SchemaSource} {error : SchemaError}

theorem load_of_loaded {id : DocumentId} (h : loader.loaded.lookup source.location = some id) :
    loader.load source = (.ok id, loader) :=
  Loading.run_document_of_loaded h _

/-- A load fails at an unknown location only. -/
theorem lookup_of_load_error (h : loader.load source = (.error error, failed)) :
    loader.loaded.lookup source.location = none := by
  cases hnew : loader.loaded.lookup source.location with
  | none => rfl
  | some id =>
    rw [load_of_loaded hnew] at h
    nomatch h

/-- When a load fails, the next one of the same document answers a number if and only if its text is
a schema document: then it is entered under that number, although what stands in it was not read to
the end. Otherwise both loads fail alike and leave everything as it was. -/
theorem load_after_failure (h : loader.load source = (.error error, failed)) :
    ((∃ id, (failed.load source).1 = .ok id) ↔
      (source.root? loader.allowsDoctype).isSome = true) ∧
    (∀ root, source.root? loader.allowsDoctype = some root →
      failed.load source = (.ok loader.set.documents.length, failed) ∧
        failed.set.documents[loader.set.documents.length]? =
          some (Loading.documentOf source.location root)) ∧
    (source.root? loader.allowsDoctype = none →
      failed = loader ∧ failed.load source = (.error error, failed)) := by
  have hnew := lookup_of_load_error h
  have hknown : ∀ root, source.root? loader.allowsDoctype = some root →
      failed.load source = (.ok loader.set.documents.length, failed) ∧
        failed.set.documents[loader.set.documents.length]? =
          some (Loading.documentOf source.location root) := by
    intro root hroot
    have hknows : (loader.load source).2.Knows (Loading.documentOf source.location root)
        loader.set.documents.length := Loading.knows_document hnew hroot _
    rw [h] at hknows
    exact ⟨load_of_loaded hknows.loaded, hknows.entered⟩
  have hrejected : source.root? loader.allowsDoctype = none →
      failed = loader ∧ failed.load source = (.error error, failed) := by
    intro hroot
    have hsame : failed = loader := by
      have hrun := (Loading.run_document_of_rejected hnew hroot _).symm.trans h
      exact (congrArg Prod.snd hrun).symm
    refine ⟨hsame, ?_⟩
    rw [hsame] at h ⊢
    exact h
  refine ⟨⟨fun ⟨id, hid⟩ => ?_, fun hroot => ?_⟩, hknown, hrejected⟩
  · by_contra hnone
    rw [(hrejected (by simpa using hnone)).2] at hid
    nomatch hid
  · obtain ⟨root, hroot⟩ := Option.isSome_iff_exists.mp hroot
    exact ⟨_, congrArg Prod.fst (hknown root hroot).1⟩

end Loader

/-- A schema document with an element that has no name. -/
def unnamedElement : SchemaSource :=
  ⟨"part.xsd", "<schema xmlns='http://www.w3.org/2001/XMLSchema'><element/></schema>"⟩

/-- The document is given up and then answered as if it had been loaded. -/
theorem abandoned_document_answered :
    ((Loader.new [] false).load unnamedElement).1 = .error (.missingAttribute "element" "name") ∧
    (((Loader.new [] false).load unnamedElement).2.load unnamedElement).1 = .ok 0 := by
  decide +kernel

/-- A document that includes the one with the element without a name. -/
def includesUnnamed : SchemaSource :=
  ⟨"main.xsd", "<schema xmlns='http://www.w3.org/2001/XMLSchema'>" ++
    "<include schemaLocation='part.xsd'/><element name='r'/></schema>"⟩

def loaderOfUnnamed : Loader := .new [.ofSources [unnamedElement] .unsupported] false

theorem load_after_failure_included :
    (loaderOfUnnamed.load includesUnnamed).1 = .error (.missingAttribute "element" "name") ∧
    (includesUnnamed.root? false).isSome = true ∧
    ∃ id, ((loaderOfUnnamed.load includesUnnamed).2.load includesUnnamed).1 = .ok id := by
  have hrun : (loaderOfUnnamed.load includesUnnamed).1 =
        .error (.missingAttribute "element" "name") ∧
      (includesUnnamed.root? false).isSome = true := by
    decide +kernel
  have hload : loaderOfUnnamed.load includesUnnamed =
      (.error (.missingAttribute "element" "name"), (loaderOfUnnamed.load includesUnnamed).2) := by
    rw [← hrun.1]
  exact ⟨hrun.1, hrun.2, (Loader.load_after_failure hload).1.mpr hrun.2⟩

end SchemaForms
