import SchemaForms.Proofs.Schema.Loading

/-!
What lasts while schemas are loaded. A property of schemas lasts when it holds of the first one and
is kept when a document is entered and when something at the top of an entered document is read,
successfully or not. Then it holds after any number of loads, however documents nest and wherever a
load ends.
-/

namespace SchemaForms

structure SchemaSet.Lasts (P : SchemaSet → Prop) : Prop where
  initial : P .initial
  enterDocument : ∀ (set : SchemaSet) document, P set →
    P { set with documents := set.documents ++ [document] }
  read : ∀ (set : SchemaSet) (origin : Origin) element, P set →
    origin.document < set.documents.length → P (set.read origin element).2

namespace Loading

/-- The loader holds so many documents, and its schema has the property. -/
structure Holding (P : SchemaSet → Prop) (count : Nat) (loader : Loader) : Prop where
  holds : P loader.set
  documents : count ≤ loader.set.documents.length

/-- The step keeps the property and the documents, also when it fails. -/
abbrev Preserves {α : Type} (P : SchemaSet → Prop) (count : Nat) (step : Loading α) : Prop :=
  Keeps (Holding P count) (fun _ => True) step

variable {P : SchemaSet → Prop} {count : Nat} {load : SchemaSource → Loading DocumentId}
  {origin : Origin}

theorem ignoresWarnings_holding : IgnoresWarnings (Holding P count) :=
  fun _ _ h => ⟨h.holds, h.documents⟩

variable (hP : SchemaSet.Lasts P)

include hP

theorem isKeptByReading_holding (horigin : origin.document < count) (element : Xml.Element) :
    IsKeptByReading (Holding P count) origin element := by
  intro loader h
  constructor
  · exact hP.read _ _ _ h.holds (Nat.lt_of_lt_of_le horigin h.documents)
  · exact (SchemaSet.documents_read ..).symm ▸ h.documents

theorem holding_entering {loader : Loader} (h : P loader.set) (document : SchemaDocument) :
    Holding P (loader.set.documents.length + 1) (loader.entering document) :=
  ⟨hP.enterDocument _ _ h, by simp [Loader.entering]⟩

/-- Once a document is entered there is one more, and what follows may refer to it. -/
theorem carries_holding : Carries (Holding P) where
  ignores _ := ignoresWarnings_holding
  entered count loader source root h _ _ := by
    refine ⟨loader.set.documents.length + 1, holding_entering hP h.holds _, fun after hafter => ?_,
      fun element _ => ?_⟩
    · have hcount := Nat.le_trans h.documents (Nat.le_succ loader.set.documents.length)
      exact ⟨hafter.holds, Nat.le_trans hcount hafter.documents⟩
    · exact isKeptByReading_holding hP (Nat.lt_succ_self loader.set.documents.length) element

theorem preserves_topElements (hload : ∀ source, Preserves P count (load source))
    (schema : Xml.Element) (location : String) (horigin : origin.document < count)
    (elements : List Xml.Element) :
    Preserves P count (topElements load schema location origin elements) :=
  keeps_topElements ignoresWarnings_holding hload schema location fun element _ =>
    isKeptByReading_holding hP horigin element

end Loading

/-- What lasts holds of the schema of every loader. -/
theorem Loader.Loaded.lasting {P : SchemaSet → Prop} (hP : SchemaSet.Lasts P) {loader : Loader}
    (h : loader.Loaded) : P loader.set := by
  induction h with
  | new resolvers allowsDoctype => exact hP.initial
  | @load loader h source ih =>
    have hholding : Loading.Holding P 0 loader := ⟨ih, Nat.zero_le _⟩
    exact ((Loading.carries_holding hP).load hholding source).holds

end SchemaForms
