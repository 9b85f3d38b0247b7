import SchemaForms.Proofs.Schema.Blaming
import SchemaForms.Proofs.Schema.Loading
import Mathlib.Data.Finset.Card

/-!
Following the references from one schema document to another. They may form any graph, with circles
and with several ways to the same document. A document is entered before its own references are
followed, so a load does not come back to it, and no document is entered twice; below each document
there is less left to enter, so the load ends. While a document is read the load has promised more
than it has entered, and only a load that does not fail keeps its promise.
-/

namespace SchemaForms

namespace Reading

theorem blames_enterType (definition : TypeDefinition) : BlamesText (enterType definition) :=
  fun _ _ h => nomatch h

theorem blames_typeComponent (origin : Origin) (element : Xml.Element) :
    BlamesText (typeComponent origin element) := by
  refine .lookup (blames_required _ _) fun _ => ?_
  dsimp only
  split
  · exact .bind (blames_complexType origin _ element) fun _ =>
      .bind (blames_enterType _) fun _ => .pure
  · exact .bind (blames_simpleType origin _ element) fun _ =>
      .bind (blames_enterType _) fun _ => .pure

theorem blames_component (origin : Origin) (element : Xml.Element) :
    BlamesText (component origin element) := by
  unfold component
  split
  · exact .bind (blames_globalElement origin element) fun _ => .pure
  · exact blames_typeComponent origin element
  · exact blames_typeComponent origin element
  · exact .bind (blames_globalAttributeGroup origin element) fun _ => .pure
  · exact .bind (blames_globalModelGroup origin element) fun _ => .pure
  · exact .bind (blames_attributeDeclaration origin element true) fun _ => .pure
  · exact .pure

end Reading

/-- A first document, and other ones that are found at their locations. -/
structure Library where
  resolvers : List Resolver
  allowsDoctype : Bool
  documents : List SchemaSource
  first : SchemaSource

/-- An element at the top of a document refers to a location. -/
def Xml.Element.RefersTo (root : Element) (base : String) (element : Element) (target : String) :
    Prop :=
  Import.isImportTag element.name.localName = true ∧
    ∃ reference, Import.ofElement element root base = .ok reference ∧
      reference.resolvedLocation? = some target

namespace Library

/-- The resolvers answer the references to the documents with these, and no others. -/
def Serves (library : Library) : Prop :=
  ∀ reference source, Loading.firstAnswer? reference library.resolvers = .ok (some source) ↔
    source ∈ library.documents ∧ reference.resolvedLocation? = some source.location

/-- A document refers to a location at its top. -/
def RefersTo (library : Library) (source : SchemaSource) (target : String) : Prop :=
  ∃ root, Xml.read? library.allowsDoctype source.text = some root ∧
    ∃ element ∈ root.children, root.RefersTo source.location element target

/-- The documents that the first one leads to. It is at its own location even if another document is
known there. -/
inductive Reached (library : Library) : SchemaSource → Prop
  | first : Reached library library.first
  | reference {source target : SchemaSource} (h : Reached library source)
    (hrefers : library.RefersTo source target.location) (hknown : target ∈ library.documents)
    (hother : target.location ≠ library.first.location) : Reached library target

def load (library : Library) : Except SchemaError DocumentId × Loader :=
  (Loader.new library.resolvers library.allowsDoctype).load library.first

end Library

def SchemaSource.locations (sources : List SchemaSource) : List String :=
  sources.map SchemaSource.location

def SchemaSet.locations (set : SchemaSet) : List String :=
  set.documents.map SchemaDocument.location

/-- Sources out of a stock are answered at their own locations, where these are different. -/
theorem Resolver.answer_ofSources_iff {stock : List SchemaSource}
    (hnodup : (SchemaSource.locations stock).Nodup) {failure : ImportFailure}
    {reference : Import} {source : SchemaSource} :
    (ofSources stock failure).answer reference = .ok source ↔
      source ∈ stock ∧ reference.resolvedLocation? = some source.location := by
  dsimp only [ofSources]
  cases reference.resolvedLocation? with
  | none => simp
  | some location =>
    dsimp only
    constructor
    · intro h
      split at h
      · rename_i found hfound
        obtain rfl := Except.ok.inj h
        have hsame : found.location = location := by simpa using List.find?_some hfound
        exact ⟨List.mem_of_find?_eq_some hfound, by rw [hsame]⟩
      · cases h
    · rintro ⟨hmem, hsame⟩
      obtain rfl := Option.some.inj hsame
      have hfound : (stock.find? (·.location = source.location)).isSome :=
        List.find?_isSome.mpr ⟨source, hmem, by simp⟩
      obtain ⟨found, hfind⟩ := Option.isSome_iff_exists.mp hfound
      rw [hfind]
      have hfoundLocation : found.location = source.location := by
        simpa using List.find?_some hfind
      exact congrArg Except.ok (List.inj_on_of_nodup_map hnodup (List.mem_of_find?_eq_some hfind)
        hmem hfoundLocation)

namespace Loading

theorem firstAnswer?_singleton {reference : Import} {source : SchemaSource} {resolver : Resolver} :
    firstAnswer? reference [resolver] = .ok (some source) ↔
      resolver.answer reference = .ok source := by
  rw [firstAnswer?]
  split <;> simp_all [firstAnswer?]

theorem mem_stock_of_firstAnswer? {reference : Import} {source : SchemaSource}
    {resolvers : List Resolver} (h : firstAnswer? reference resolvers = .ok (some source)) :
    source ∈ resolvers.flatMap Resolver.stock := by
  induction resolvers with
  | nil => nomatch h
  | cons resolver others ih =>
    rw [firstAnswer?] at h
    rw [List.flatMap_cons]
    split at h
    · rename_i found hfound
      obtain rfl := Option.some.inj (Except.ok.inj h)
      exact List.mem_append_left _ (resolver.mem_stock hfound)
    · exact List.mem_append_right _ (ih h)
    · nomatch h

theorem firstAnswer?_of_unsupported {reference : Import} {resolvers : List Resolver}
    (h : ∀ resolver ∈ resolvers, resolver.answer reference = .error .unsupported) :
    firstAnswer? reference resolvers = .ok none := by
  induction resolvers with
  | nil => rfl
  | cons resolver others ih =>
    rw [List.forall_mem_cons] at h
    simp only [firstAnswer?, h.1, ih h.2]

theorem ok_bind {α β : Type} (a : α) (next : α → Loading β) :
    (liftM (Except.ok a : Except SchemaError α) >>= next : Loading β) = next a := rfl

end Loading

namespace Library

variable (library : Library)

/-- How many locations of the stock are not entered yet. -/
def room (entered : List SchemaSource) : Nat :=
  ((SchemaSource.locations (library.resolvers.flatMap Resolver.stock)).toFinset \
    (SchemaSource.locations entered).toFinset).card

/-- The sources are those of the documents of a loader, each at another location. -/
structure Entered (entered : List SchemaSource) (loader : Loader) : Prop where
  resolvers : loader.resolvers = library.resolvers
  allows : loader.allowsDoctype = library.allowsDoctype
  documents : loader.set.locations = SchemaSource.locations entered
  loaded : ∀ location, (loader.loaded.lookup location).isSome ↔
    location ∈ SchemaSource.locations entered
  nodup : (SchemaSource.locations entered).Nodup

/-- A known document that an element refers to is entered. -/
def FollowedAt (root : Xml.Element) (base : String) (element : Xml.Element)
    (entered : List SchemaSource) : Prop :=
  ∀ target ∈ library.documents, root.RefersTo base element target.location →
    target.location ∈ SchemaSource.locations entered

/-- All references of a document to known ones were followed. -/
def Settled (source : SchemaSource) (entered : List SchemaSource) : Prop :=
  ∀ root, Xml.read? library.allowsDoctype source.text = some root →
    ∀ element ∈ root.children, library.FollowedAt root source.location element entered

/-- What a step that starts with some sources leaves behind. What it enters is reached, and settled
unless it fails. -/
structure Leaves {α : Type} (entered : List SchemaSource)
    (made : List SchemaSource → α → Prop) (outcome : Except SchemaError α × Loader)
    (later : List SchemaSource) : Prop where
  kept : entered ⊆ later
  state : library.Entered later outcome.2
  reached : ∀ source ∈ later, source ∈ entered ∨ library.Reached source
  within : ∀ error, outcome.1 = .error error → error ≠ .nestedTooDeep
  settled : ∀ a, outcome.1 = .ok a →
    ∀ source ∈ later, source ∈ entered ∨ library.Settled source later
  made : ∀ a, outcome.1 = .ok a → made later a

/-- Whatever the loader holds, after the step there are more sources, and what is described. -/
def Advances {α : Type} (entered : List SchemaSource) (made : List SchemaSource → α → Prop)
    (step : Loading α) : Prop :=
  ∀ loader, library.Entered entered loader →
    ∃ later, library.Leaves entered made (step.run.run loader) later

variable {library} {entered later : List SchemaSource}

theorem locations_subset (h : entered ⊆ later) :
    SchemaSource.locations entered ⊆ SchemaSource.locations later :=
  List.map_subset _ h

theorem room_le_of_subset (h : entered ⊆ later) : library.room later ≤ library.room entered := by
  refine Finset.card_le_card (Finset.sdiff_subset_sdiff (Finset.Subset.refl _) ?_)
  intro location hlocation
  rw [List.mem_toFinset] at hlocation ⊢
  exact locations_subset h hlocation

theorem room_append_lt {source : SchemaSource}
    (hstock : source ∈ library.resolvers.flatMap Resolver.stock)
    (hnew : source.location ∉ SchemaSource.locations entered) :
    library.room (entered ++ [source]) < library.room entered := by
  refine Finset.card_lt_card (Finset.ssubset_iff_of_subset ?_ |>.mpr ⟨source.location, ?_, ?_⟩)
  · refine Finset.sdiff_subset_sdiff (Finset.Subset.refl _) fun location hlocation => ?_
    rw [List.mem_toFinset] at hlocation ⊢
    exact locations_subset (List.subset_append_left _ _) hlocation
  · rw [Finset.mem_sdiff, List.mem_toFinset, List.mem_toFinset]
    exact ⟨List.mem_map.mpr ⟨source, hstock, rfl⟩, hnew⟩
  · simp [SchemaSource.locations]

theorem FollowedAt.mono {root element : Xml.Element} {base : String}
    (h : library.FollowedAt root base element entered) (hkept : entered ⊆ later) :
    library.FollowedAt root base element later :=
  fun target hknown hrefers => locations_subset hkept (h target hknown hrefers)

theorem Settled.mono {source : SchemaSource} (h : library.Settled source entered)
    (hkept : entered ⊆ later) : library.Settled source later :=
  fun root hread element helement => (h root hread element helement).mono hkept

theorem Settled.mem_locations {source target : SchemaSource} (h : library.Settled source entered)
    (hrefers : library.RefersTo source target.location) (hknown : target ∈ library.documents) :
    target.location ∈ SchemaSource.locations entered := by
  obtain ⟨root, hread, element, helement, hrefers⟩ := hrefers
  exact h root hread element helement target hknown hrefers

section Steps

variable {α β : Type} {made : List SchemaSource → α → Prop} {Q : List SchemaSource → β → Prop}

/-- A step that enters nothing. -/
theorem Advances.aside {step : Loading α}
    (hstate : ∀ loader, library.Entered entered loader →
      library.Entered entered (step.run.run loader).2)
    (hwithin : ∀ loader error, (step.run.run loader).1 = .error error → error ≠ .nestedTooDeep)
    (hmade : ∀ loader a, library.Entered entered loader → (step.run.run loader).1 = .ok a →
      made entered a) : library.Advances entered made step :=
  fun loader h => ⟨entered, List.Subset.refl _, hstate loader h, fun _ => Or.inl,
    hwithin loader, fun _ _ _ => Or.inl, fun a => hmade loader a h⟩

theorem Advances.pure {a : α} (h : made entered a) :
    library.Advances entered made (Pure.pure a : Loading α) := by
  refine .aside (fun _ h => h) (fun _ _ h => nomatch h) fun loader b _ hb => ?_
  obtain rfl := Except.ok.inj hb
  exact h

theorem Advances.throw {error : SchemaError} (h : error ≠ .nestedTooDeep) :
    library.Advances entered made (MonadExcept.throw error : Loading α) := by
  refine .aside (fun _ h => h) ?_ fun _ _ _ h => nomatch h
  rintro loader _ ⟨⟩
  exact h

theorem Advances.get {next : Loader → Loading α}
    (h : ∀ loader, library.Entered entered loader → library.Advances entered made (next loader)) :
    library.Advances entered made (get >>= next) :=
  fun loader hentered => h loader hentered loader hentered

/-- The second step starts with what the first one has entered. -/
theorem Advances.bind {step : Loading α} {next : α → Loading β}
    (hstep : library.Advances entered made step)
    (hnext : ∀ later a, entered ⊆ later → made later a → library.Advances later Q (next a)) :
    library.Advances entered Q (step >>= next) := by
  intro loader hentered
  obtain ⟨middle, hfirst⟩ := hstep loader hentered
  rw [ExceptT.run_bind, StateT.run_bind]
  rcases hrun : step.run.run loader with ⟨error | a, reached⟩
  · rw [hrun] at hfirst
    refine ⟨middle, hfirst.kept, hfirst.state, hfirst.reached, fun cause hcause => ?_,
      fun _ h => (nomatch h), fun _ h => (nomatch h)⟩
    obtain rfl := Except.error.inj hcause
    exact hfirst.within _ rfl
  · rw [hrun] at hfirst
    obtain ⟨later, hsecond⟩ := hnext middle a hfirst.kept (hfirst.made a rfl) reached hfirst.state
    refine ⟨later, List.Subset.trans hfirst.kept hsecond.kept, hsecond.state, ?_, hsecond.within,
      ?_, hsecond.made⟩
    · intro source hsource
      rcases hsecond.reached source hsource with hmiddle | hnew
      · exact hfirst.reached source hmiddle
      · exact Or.inr hnew
    · intro b hb source hsource
      rcases hsecond.settled b hb source hsource with hmiddle | hnew
      · exact (hfirst.settled a rfl source hmiddle).imp_right fun h => h.mono hsecond.kept
      · exact Or.inr hnew

theorem Advances.weaken {step : Loading α} {weaker : List SchemaSource → α → Prop}
    (h : library.Advances entered made step)
    (hweaker : ∀ later a, entered ⊆ later → made later a → weaker later a) :
    library.Advances entered weaker step := by
  intro loader hentered
  obtain ⟨later, hleaves⟩ := h loader hentered
  exact ⟨later, hleaves.kept, hleaves.state, hleaves.reached, hleaves.within, hleaves.settled,
    fun a ha => hweaker later a hleaves.kept (hleaves.made a ha)⟩

/-- What is looked up enters nothing. -/
theorem Advances.lookup {result : Except SchemaError α} {next : α → Loading β}
    (hwithin : ∀ error, result = .error error → error ≠ .nestedTooDeep)
    (hnext : ∀ a, result = .ok a → library.Advances entered Q (next a)) :
    library.Advances entered Q (liftM result >>= next) := by
  cases result with
  | ok a => exact hnext a rfl
  | error error => exact .throw (hwithin error rfl)

end Steps

section Elements

theorem advances_warn (warning : LoadWarning) :
    library.Advances entered (fun _ _ => True) (Loading.warn warning) :=
  .aside (fun _ h => ⟨h.resolvers, h.allows, h.documents, h.loaded, h.nodup⟩)
    (fun _ _ h => nomatch h) fun _ _ _ _ => trivial

end Elements

/-- A step that follows references: it loads what a document may refer to, unless that is entered
already, and enters it with everything that it leads to. -/
def Follows (library : Library) (entered : List SchemaSource)
    (load : SchemaSource → Loading DocumentId) : Prop :=
  ∀ later target, entered ⊆ later → library.Reached target →
    target ∈ library.resolvers.flatMap Resolver.stock →
      target.location ∉ SchemaSource.locations later →
        library.Advances later
          (fun after _ => target.location ∈ SchemaSource.locations after) (load target)

theorem Follows.mono {load : SchemaSource → Loading DocumentId} (h : library.Follows entered load)
    (hkept : entered ⊆ later) : library.Follows later load :=
  fun _ target hmore => h _ target (List.Subset.trans hkept hmore)

/-- The elements that are no references enter nothing. -/
theorem advances_component (load : SchemaSource → Loading DocumentId) (root : Xml.Element)
    (base : String) (origin : Origin) {element : Xml.Element}
    (htag : Import.isImportTag element.name.localName = false) :
    library.Advances entered (fun _ _ => True)
      (Loading.topElement load root base origin element) := by
  refine .aside (fun loader hentered => ?_) (fun loader error herror => ?_) fun _ _ _ _ => trivial
  all_goals obtain ⟨warnings, hrun⟩ := Loading.run_topElement load root base origin htag loader
  · have hsame : (loader.set.read origin element).2.locations = loader.set.locations :=
      congrArg (List.map SchemaDocument.location) (SchemaSet.documents_read ..)
    rw [hrun]
    exact ⟨hentered.resolvers, hentered.allows, hsame.trans hentered.documents, hentered.loaded,
      hentered.nodup⟩
  · rw [hrun] at herror
    have hread := SchemaSet.error_of_read herror
    exact (Reading.blames_component origin element _ error hread).ne_nestedTooDeep

section Document

variable (hserves : library.Serves) {source : SchemaSource} {root : Xml.Element}
  (hreached : library.Reached source) (hfirst : library.first ∈ entered)
  (hread : Xml.read? library.allowsDoctype source.text = some root)
  {load : SchemaSource → Loading DocumentId} (hload : library.Follows entered load)

include hserves hreached hfirst hread hload

/-- What a reference leads to is entered afterwards, if it is known. -/
theorem advances_followImport {element : Xml.Element} (helement : element ∈ root.children)
    (htag : Import.isImportTag element.name.localName = true) :
    library.Advances entered
      (fun later _ => library.FollowedAt root source.location element later)
      (Loading.followImport load root source.location element) := by
  refine .lookup (fun _ h => ?_) fun reference hreference => ?_
  · exact (Import.blames_ofElement _ _ _ _ h).ne_nestedTooDeep
  have hsame : ∀ target, root.RefersTo source.location element target →
      reference.resolvedLocation? = some target := by
    rintro target ⟨-, other, hother, htarget⟩
    obtain rfl := Except.ok.inj (hreference.symm.trans hother)
    exact htarget
  split
  · rename_i hnowhere
    refine .pure fun target _ hrefers => ?_
    cases hnowhere.symm.trans (hsame _ hrefers)
  · rename_i location hlocation
    have hrefers : root.RefersTo source.location element location :=
      ⟨htag, reference, hreference, hlocation⟩
    have honly : ∀ target, root.RefersTo source.location element target → target = location :=
      fun target h => Option.some.inj ((hsame target h).symm.trans hlocation)
    refine .get fun loader hentered => ?_
    split
    · rename_i hloaded
      refine .pure fun target _ htarget => ?_
      rw [honly _ htarget]
      exact (hentered.loaded location).mp hloaded
    · rename_i hloaded
      rw [hentered.resolvers]
      split
      · rename_i target hanswer
        obtain ⟨hknown, htarget⟩ := (hserves reference target).mp hanswer
        obtain rfl : location = target.location := Option.some.inj (hlocation.symm.trans htarget)
        have hnew : target.location ∉ SchemaSource.locations entered :=
          fun h => hloaded ((hentered.loaded _).mpr h)
        have hother : target.location ≠ library.first.location := fun h =>
          hnew (h ▸ List.mem_map.mpr ⟨_, hfirst, rfl⟩)
        have htargetReached : library.Reached target :=
          .reference hreached ⟨root, hread, element, helement, hrefers⟩ hknown hother
        refine .bind (hload entered target (List.Subset.refl _) htargetReached
          (Loading.mem_stock_of_firstAnswer? hanswer) hnew) fun _ _ _ hloaded => ?_
        refine .pure fun other _ hrefersOther => ?_
        rw [honly _ hrefersOther]
        exact hloaded
      · rename_i hanswer
        refine (advances_warn _).weaken fun _ _ _ _ target hknown htarget => ?_
        have hanswered := (hserves reference target).mpr ⟨hknown, hsame _ htarget⟩
        cases hanswer.symm.trans hanswered
      · exact .throw (by simp)

theorem advances_topElement (origin : Origin) {element : Xml.Element}
    (helement : element ∈ root.children) :
    library.Advances entered
      (fun later _ => library.FollowedAt root source.location element later)
      (Loading.topElement load root source.location origin element) := by
  cases htag : Import.isImportTag element.name.localName with
  | true =>
    rw [Loading.topElement_of_isImportTag _ _ _ _ htag]
    exact advances_followImport hserves hreached hfirst hread hload helement htag
  | false =>
    refine (advances_component _ _ _ origin htag).weaken fun _ _ _ _ _ _ hrefers => ?_
    exact nomatch htag.symm.trans hrefers.1

theorem advances_topElements (origin : Origin) {elements : List Xml.Element}
    (helements : elements ⊆ root.children) :
    library.Advances entered
      (fun later _ => ∀ element ∈ elements,
        library.FollowedAt root source.location element later)
      (Loading.topElements load root source.location origin elements) := by
  induction elements generalizing entered with
  | nil => exact .pure fun _ h => nomatch h
  | cons element others ih =>
    obtain ⟨helement, hothers⟩ := List.cons_subset.mp helements
    refine .bind (advances_topElement hserves hreached hfirst hread hload origin helement)
      fun middle _ hkept hleft => ?_
    refine (ih (hkept hfirst) (hload.mono hkept) hothers).weaken fun later _ hmore hright => ?_
    exact List.forall_mem_cons.mpr ⟨hleft.mono hmore, hright⟩

end Document

/-- A document that is entered counts as loaded from then on. -/
theorem Entered.enter {loader : Loader} (h : library.Entered entered loader)
    {source : SchemaSource} (hnew : source.location ∉ SchemaSource.locations entered)
    (root : Xml.Element) :
    library.Entered (entered ++ [source]) { loader with
      set := { loader.set with
        documents := loader.set.documents ++ [Loading.documentOf source.location root] }
      loaded := Keyed.put source.location loader.set.documents.length loader.loaded } := by
  have hlocations : SchemaSource.locations (entered ++ [source]) =
      SchemaSource.locations entered ++ [source.location] := by
    simp [SchemaSource.locations]
  refine ⟨h.resolvers, h.allows, ?_, fun location => ?_, ?_⟩
  · rw [hlocations, ← h.documents]
    simp [SchemaSet.locations, Loading.documentOf]
  · rw [hlocations, List.mem_append, List.mem_singleton, ← h.loaded location, Keyed.lookup_put]
    split <;> simp [*]
  · rw [hlocations]
    exact h.nodup.append (List.nodup_singleton _) (by simpa using hnew)

theorem forall_or_of_append {P : SchemaSource → Prop} {source : SchemaSource} (hsource : P source)
    (h : ∀ other ∈ later, other ∈ entered ++ [source] ∨ P other) :
    ∀ other ∈ later, other ∈ entered ∨ P other := by
  intro other hmem
  rcases h other hmem with hmem | hother
  · rcases List.mem_append.mp hmem with hold | hown
    · exact Or.inl hold
    · exact Or.inr (List.mem_singleton.mp hown ▸ hsource)
  · exact Or.inr hother

/-- What follows the entry of a new document settles its references. -/
theorem advances_entered {α : Type} {source : SchemaSource} {root : Xml.Element}
    {next : DocumentId → Loading α} (hreached : library.Reached source)
    (hnew : source.location ∉ SchemaSource.locations entered)
    (hnext : ∀ id, library.Advances (entered ++ [source])
      (fun later _ => library.Settled source later) (next id)) :
    library.Advances entered (fun later _ => source.location ∈ SchemaSource.locations later)
      (Loading.enterDocument (Loading.documentOf source.location root) >>= next) := by
  intro loader hentered
  obtain ⟨later, hleaves⟩ := hnext loader.set.documents.length _ (hentered.enter hnew root)
  have hsource : source ∈ later := hleaves.kept (by simp)
  exact ⟨later, List.Subset.trans (List.subset_append_left _ _) hleaves.kept, hleaves.state,
    forall_or_of_append hreached hleaves.reached, hleaves.within,
    fun a ha => forall_or_of_append (hleaves.made a ha) (hleaves.settled a ha),
    fun _ _ => List.mem_map.mpr ⟨source, hsource, rfl⟩⟩

theorem Advances.parse {α : Type} {made : List SchemaSource → α → Prop} {source : SchemaSource}
    {next : Xml.Element → Loading α}
    (h : ∀ root, Xml.read? library.allowsDoctype source.text = some root →
      library.Advances entered made (next root)) :
    library.Advances entered made (Loading.parse source >>= next) := by
  unfold Loading.parse
  rw [bind_assoc]
  refine .get fun loader hentered => ?_
  rw [hentered.allows]
  split
  · exact .throw (by simp)
  · rename_i root hroot
    split
    · exact h root hroot
    · exact .throw (by simp)

/-- A load enters a document with all that it leads to, where there is room for it. The document is
the first one, or the first one is entered before. -/
theorem advances_document (hserves : library.Serves) (depth : Nat) {source : SchemaSource}
    (hreached : library.Reached source)
    (hfirst : library.first ∈ entered ++ [source])
    (hnew : source.location ∉ SchemaSource.locations entered)
    (hroom : library.room (entered ++ [source]) < depth) :
    library.Advances entered (fun later _ => source.location ∈ SchemaSource.locations later)
      (Loading.document depth source) := by
  induction depth generalizing entered source with
  | zero => exact absurd hroom (Nat.not_lt_zero _)
  | succ depth ih =>
    have hfollows : library.Follows (entered ++ [source]) (Loading.document depth) := by
      intro later target hkept hreached hstock hnew
      have hless := room_append_lt hstock hnew
      have hle : library.room later ≤ library.room (entered ++ [source]) := room_le_of_subset hkept
      refine ih hreached (List.mem_append_left _ (hkept hfirst)) hnew ?_
      omega
    refine .get fun loader hentered => ?_
    split
    · rename_i hloaded
      exact absurd ((hentered.loaded _).mp (by simp [hloaded])) hnew
    · refine .parse fun root hread => advances_entered hreached hnew fun id => ?_
      refine .bind (advances_topElements hserves hreached hfirst hread hfollows _
        (List.Subset.refl _)) fun later _ _ hsettled => .pure fun other hother => ?_
      obtain rfl := Option.some.inj (hread.symm.trans hother)
      exact hsettled

/-- Documents at one location are the same, since the resolvers know only one. -/
theorem Reached.eq_of_location_eq (hserves : library.Serves) {left right : SchemaSource}
    (hleft : library.Reached left) (hright : library.Reached right)
    (h : left.location = right.location) : left = right := by
  cases hleft with
  | first =>
    cases hright with
    | first => rfl
    | reference _ _ _ hother => exact absurd h.symm hother
  | reference _ hrefers hknown hother =>
    cases hright with
    | first => exact absurd h hother
    | reference _ _ hknownRight _ =>
      obtain ⟨root, -, element, -, -, reference, -, hlocation⟩ := hrefers
      have hanswer := (hserves reference left).mpr ⟨hknown, hlocation⟩
      have hanswerRight := (hserves reference right).mpr ⟨hknownRight, h ▸ hlocation⟩
      exact Option.some.inj (Except.ok.inj (hanswer.symm.trans hanswerRight))

theorem entered_new :
    library.Entered [] (Loader.new library.resolvers library.allowsDoctype) :=
  ⟨rfl, rfl, rfl, fun _ => iff_of_false Bool.false_ne_true List.not_mem_nil, List.nodup_nil⟩

theorem exists_leaves (hserves : library.Serves) :
    ∃ later, library.Leaves []
      (fun later _ => library.first.location ∈ SchemaSource.locations later) library.load
      later := by
  refine advances_document hserves _ .first List.mem_cons_self List.not_mem_nil ?_ _ entered_new
  refine Nat.lt_succ_of_le ((Finset.card_le_card Finset.sdiff_subset).trans ?_)
  exact (List.toFinset_card_le _).trans (List.length_map _).le

/-- What a load that does not fail has entered is closed under references to known documents. -/
theorem Reached.mem_locations (hserves : library.Serves) {id : DocumentId}
    (hleaves : library.Leaves [] (fun later _ => library.first.location ∈
      SchemaSource.locations later) library.load later)
    (hok : library.load.1 = .ok id) {source : SchemaSource} (h : library.Reached source) :
    source.location ∈ SchemaSource.locations later := by
  induction h with
  | first => exact hleaves.made id hok
  | @reference source target hsource hrefers hknown hother ih =>
    obtain ⟨found, hfound, hlocation⟩ := List.mem_map.mp ih
    have hreached : library.Reached found :=
      (hleaves.reached found hfound).resolve_left List.not_mem_nil
    obtain rfl := hreached.eq_of_location_eq hserves hsource hlocation
    have hsettled := (hleaves.settled id hok found hfound).resolve_left List.not_mem_nil
    exact hsettled.mem_locations hrefers hknown

end Library

/-- A reference that no resolver supports changes nothing but the warnings. -/
theorem Loading.topElement_of_unsupported {loader : Loader} {element root : Xml.Element}
    {base : String} {reference : Import}
    (htag : Import.isImportTag element.name.localName = true)
    (hreference : Import.ofElement element root base = .ok reference)
    (h : ∀ resolver ∈ loader.resolvers, resolver.answer reference = .error .unsupported)
    (load : SchemaSource → Loading DocumentId) (origin : Origin) :
    ∃ warnings, (topElement load root base origin element).run.run loader =
      (.ok (), { loader with warnings := warnings }) := by
  rw [topElement_of_isImportTag _ _ _ _ htag]
  unfold followImport
  rw [hreference, ok_bind]
  cases reference.resolvedLocation? with
  | none => exact ⟨loader.warnings, rfl⟩
  | some target =>
    dsimp only
    rw [run_get_bind, firstAnswer?_of_unsupported h]
    split
    · exact ⟨loader.warnings, rfl⟩
    · exact ⟨loader.warnings ++ [.importSkipped target], rfl⟩

namespace Library

/-- However the documents refer to each other, a load ends by itself, and the documents that it
enters are at different locations. Unless it fails, they are at the locations that the first one
leads to. A reference that no resolver supports adds nothing and does not fail. -/
theorem load_reached (library : Library) (hserves : library.Serves) :
    library.load.1 ≠ .error .nestedTooDeep ∧
      library.load.2.set.locations.Nodup ∧
      (∀ id, library.load.1 = .ok id → ∀ location, location ∈ library.load.2.set.locations ↔
        ∃ source, library.Reached source ∧ source.location = location) ∧
      ∀ loader load root base origin element reference,
        Import.isImportTag element.name.localName = true →
          Import.ofElement element root base = .ok reference →
            (∀ resolver ∈ loader.resolvers, resolver.answer reference = .error .unsupported) →
              ∃ warnings, (Loading.topElement load root base origin element).run.run loader =
                (.ok (), { loader with warnings := warnings }) := by
  obtain ⟨later, hleaves⟩ := exists_leaves hserves
  refine ⟨fun h => hleaves.within _ h rfl, ?_, fun id hok location => ?_, ?_⟩
  · rw [hleaves.state.documents]
    exact hleaves.state.nodup
  · rw [hleaves.state.documents]
    constructor
    · intro hmem
      obtain ⟨source, hsource, rfl⟩ := List.mem_map.mp hmem
      exact ⟨source, (hleaves.reached source hsource).resolve_left List.not_mem_nil, rfl⟩
    · rintro ⟨source, hreached, rfl⟩
      exact hreached.mem_locations hserves hleaves hok
  · exact fun _ load _ _ origin _ _ htag hreference h =>
      Loading.topElement_of_unsupported htag hreference h load origin

theorem serves_ofSources {stock : List SchemaSource} (hnodup : (SchemaSource.locations stock).Nodup)
    (failure : ImportFailure) (allowsDoctype : Bool) (first : SchemaSource) :
    Serves ⟨[.ofSources stock failure], allowsDoctype, stock, first⟩ := by
  intro reference source
  rw [Loading.firstAnswer?_singleton, Resolver.answer_ofSources_iff hnodup]

end Library

/-- A schema document that includes others. -/
def includingSchema (location : String) (others : List String) : SchemaSource where
  location := location
  text := "<schema xmlns=\"http://www.w3.org/2001/XMLSchema\">" ++
    String.join (others.map fun other => "<include schemaLocation=\"" ++ other ++ "\"/>") ++
    "</schema>"

def circularLibrary : Library :=
  let stock := [includingSchema "part" ["main"], includingSchema "other" ["main"]]
  ⟨[.ofSources stock .unsupported], false, stock, includingSchema "main" ["part", "missing"]⟩

/-- The documents that refer to each other are loaded once. One document is missing, and one is not
referred to. -/
theorem load_reached_circularLibrary :
    circularLibrary.Serves ∧ circularLibrary.load.1.toOption = some 0 ∧
      circularLibrary.load.2.set.locations = ["main", "part"] ∧
      circularLibrary.load.2.set.locations.Nodup ∧
      (∃ source, circularLibrary.Reached source ∧ source.location = "part") ∧
      ¬ ∃ source, circularLibrary.Reached source ∧ source.location = "other" := by
  have hserves : circularLibrary.Serves := Library.serves_ofSources (by decide) _ _ _
  have hload : circularLibrary.load.1.toOption = some 0 ∧
      circularLibrary.load.2.set.locations = ["main", "part"] := by
    decide +kernel
  obtain ⟨-, hnodup, hreached, -⟩ := Library.load_reached circularLibrary hserves
  obtain ⟨id, hid⟩ : ∃ id, circularLibrary.load.1 = .ok id := by
    cases hresult : circularLibrary.load.1 with
    | ok id => exact ⟨id, rfl⟩
    | error error => exact nomatch hresult ▸ hload.1
  refine ⟨hserves, hload.1, hload.2, hnodup, ?_, ?_⟩
  · rw [← hreached id hid, hload.2]
    decide
  · rw [← hreached id hid, hload.2]
    decide

end SchemaForms
