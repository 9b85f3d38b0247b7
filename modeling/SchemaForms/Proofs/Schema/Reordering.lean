import SchemaForms.Proofs.Compile.Related

/-!
The order of what a document declares. Two components next to each other may be read in either
order, unless both declare elements: the members of a substitution group are listed as they are
declared. So a component moves past others to its place in any order that keeps the elements in
theirs, and whatever is shown stays the same. References to types, groups and attributes that are
declared further down are no exception, because names are resolved when forms are made.
-/

namespace SchemaForms

namespace SchemaSet

/-- Schemas that have the same roots, and show the same under them, with the same warnings and
logs. -/
def SameForms (left right : SchemaSet) : Prop :=
  ∀ namespaces roots mode address,
    (SchemaIndex.build left namespaces roots).map (fun index =>
      (index.roots, index.warnings, index.compile mode address)) =
    (SchemaIndex.build right namespaces roots).map (fun index =>
      (index.roots, index.warnings, index.compile mode address))

theorem SameForms.refl (set : SchemaSet) : set.SameForms set := fun _ _ _ _ => rfl

theorem SameForms.trans {left middle right : SchemaSet} (h : left.SameForms middle)
    (hnext : middle.SameForms right) : left.SameForms right :=
  fun namespaces roots mode address =>
    (h namespaces roots mode address).trans (hnext namespaces roots mode address)

theorem Related.sameForms {pairs : TypeId → TypeId → Prop} {left right : SchemaSet}
    (h : Related pairs left right) : left.SameForms right := by
  intro namespaces roots mode address
  have hbuild := SchemaIndex.together_build h namespaces roots
  generalize SchemaIndex.build left namespaces roots = built at hbuild
  generalize SchemaIndex.build right namespaces roots = built' at hbuild
  cases hbuild with
  | error error => rfl
  | ok hsame =>
    simp only [Except.map, hsame.roots, hsame.warnings, hsame.compile_eq mode address]

/-- What loads keep: no loose ends, and no name twice. -/
structure Proper (set : SchemaSet) : Prop where
  closed : set.Closed
  distinct : set.Distinct

theorem lasts_proper : Lasts Proper where
  initial := ⟨lasts_closed.initial, lasts_distinct.initial⟩
  enterDocument set document h :=
    ⟨lasts_closed.enterDocument set document h.closed,
      lasts_distinct.enterDocument set document h.distinct⟩
  read set origin element h horigin :=
    ⟨lasts_closed.read set origin element h.closed horigin,
      lasts_distinct.read set origin element h.distinct horigin⟩

end SchemaSet

/-- The element declares an element. -/
def isElementTag (element : Xml.Element) : Bool := element.name.localName = "element"

/-- Elements at the top of a document that may change places. -/
structure Independent (targetNamespace : Option String) (one other : Xml.Element) : Prop where
  apart : ∀ key ∈ Reading.declared? targetNamespace one,
    ∀ key' ∈ Reading.declared? targetNamespace other, key ≠ key'
  free : ¬ (isElementTag one = true ∧ isElementTag other = true)

/-- Wherever the one list can be read, the other can be read in its place. -/
def Interchangeable (origin : Origin) (one other : List Xml.Element) : Prop :=
  ∀ set : SchemaSet, set.Proper → origin.document < set.documents.length →
    (set.readAll origin one).1 = .ok () →
      (set.readAll origin other).1 = .ok () ∧
        (set.readAll origin one).2.SameForms (set.readAll origin other).2

namespace Interchangeable

variable {origin : Origin} {one other third : List Xml.Element}

theorem refl (elements : List Xml.Element) : Interchangeable origin elements elements :=
  fun _ _ _ hok => ⟨hok, .refl _⟩

theorem trans (h : Interchangeable origin one other) (hnext : Interchangeable origin other third) :
    Interchangeable origin one third := by
  intro set hset horigin hok
  obtain ⟨hread, hforms⟩ := h set hset horigin hok
  obtain ⟨hread', hforms'⟩ := hnext set hset horigin hread
  exact ⟨hread', hforms.trans hforms'⟩

theorem cons (element : Xml.Element) (h : Interchangeable origin one other) :
    Interchangeable origin (element :: one) (element :: other) := by
  intro set hset horigin hok
  have hread := SchemaSet.read_of_readAll hok
  rw [SchemaSet.readAll_cons hread] at hok ⊢
  rw [SchemaSet.readAll_cons hread]
  have hdocuments := set.documents_read origin element
  exact h _ (SchemaSet.lasts_proper.read set origin element hset horigin) (hdocuments ▸ horigin) hok

theorem swap {element element' : Xml.Element}
    (h : Independent origin.targetNamespace element element') (others : List Xml.Element) :
    Interchangeable origin (element :: element' :: others) (element' :: element :: others) := by
  intro set hset horigin hok
  have hfirst := SchemaSet.read_of_readAll hok
  rw [SchemaSet.readAll_cons hfirst] at hok ⊢
  have hsecond := SchemaSet.read_of_readAll hok
  rw [SchemaSet.readAll_cons hsecond] at hok ⊢
  have hfree : ¬ (element.name.localName = "element" ∧ element'.name.localName = "element") := by
    simpa only [isElementTag, decide_eq_true_eq] using h.free
  obtain ⟨hfirst', hsecond', pairs, hrelated⟩ :=
    SchemaSet.read_swapped hset.closed hset.distinct h.apart hfree hfirst hsecond
  obtain ⟨hok', pairs', hrelated'⟩ := hrelated.readAll hok
  rw [SchemaSet.readAll_cons hfirst', SchemaSet.readAll_cons hsecond']
  exact ⟨hok', hrelated'.sameForms⟩

/-- An element moves past the ones that it may change places with. -/
theorem move {element : Xml.Element} {before : List Xml.Element}
    (h : ∀ passed ∈ before, Independent origin.targetNamespace element passed)
    (after : List Xml.Element) :
    Interchangeable origin (element :: (before ++ after)) (before ++ element :: after) := by
  induction before with
  | nil => exact refl _
  | cons passed before ih =>
    obtain ⟨hpassed, hbefore⟩ := List.forall_mem_cons.mp h
    exact (swap hpassed (before ++ after)).trans (cons passed (ih hbefore))

end Interchangeable

/-- Where the first entry stands in another order: of its own kind there is none before it. -/
theorem exists_append_of_filter_eq {α : Type} {kind : α → Bool} {a : α} {as bs : List α}
    (hperm : (a :: as).Perm bs) (hfilter : (a :: as).filter kind = bs.filter kind) :
    ∃ before after, bs = before ++ a :: after ∧ as.Perm (before ++ after) ∧
      as.filter kind = (before ++ after).filter kind ∧
      ∀ b ∈ before, ¬ (kind a = true ∧ kind b = true) := by
  have hrest : ∀ before after, bs = before ++ a :: after → as.Perm (before ++ after) := by
    rintro before after rfl
    exact (hperm.trans List.perm_middle).cons_inv
  by_cases ha : kind a = true
  · rw [List.filter_cons_of_pos ha] at hfilter
    obtain ⟨before, after, hbs, hbefore, -, hafter⟩ := List.filter_eq_cons_iff.mp hfilter.symm
    refine ⟨before, after, hbs, hrest before after hbs, ?_, fun b hb h => hbefore b hb h.2⟩
    rw [List.filter_append, List.filter_eq_nil_iff.mpr hbefore, List.nil_append, hafter]
  · obtain ⟨before, after, hbs⟩ := List.append_of_mem (hperm.subset List.mem_cons_self)
    refine ⟨before, after, hbs, hrest before after hbs, ?_, fun _ _ h => ha h.1⟩
    rw [List.filter_cons_of_neg ha, hbs, List.filter_append, List.filter_cons_of_neg ha] at hfilter
    rw [hfilter, List.filter_append]

/-- Components that declare nothing twice may be read in any order that keeps the elements in
theirs. -/
theorem interchangeable_of_perm {origin : Origin} {one other : List Xml.Element}
    (hperm : one.Perm other) (hfilter : one.filter isElementTag = other.filter isElementTag)
    (honce : (one.filterMap (Reading.declared? origin.targetNamespace)).Nodup) :
    Interchangeable origin one other := by
  induction one generalizing other with
  | nil => exact hperm.nil_eq ▸ .refl _
  | cons element others ih =>
    obtain ⟨before, after, rfl, hothers, hkept, hpassed⟩ := exists_append_of_filter_eq hperm hfilter
    obtain ⟨hapart, honce⟩ := List.pairwise_cons.mp (List.pairwise_filterMap.mp honce)
    have hrest := ih hothers hkept (List.pairwise_filterMap.mpr honce)
    refine (Interchangeable.cons element hrest).trans (.move (fun passed hmem => ?_) after)
    have hmem' : passed ∈ others := hothers.mem_iff.mpr (List.mem_append_left _ hmem)
    exact ⟨fun key hkey key' hkey' => hapart passed hmem' key hkey key' hkey', hpassed passed hmem⟩

/-- Schema documents that declare the same at the top in another order. What stands before stays in
place, the imports among it, and the elements keep their order. -/
structure Reordered (schema schema' : Xml.Element) : Prop where
  name : schema'.name = schema.name
  attributes : schema'.attributes = schema.attributes
  scope : schema'.scope = schema.scope
  children : ∃ front components components', schema.children = front ++ components ∧
    schema'.children = front ++ components' ∧ components.Perm components' ∧
    components.filter isElementTag = components'.filter isElementTag ∧
    ∀ component ∈ components, Import.isImportTag component.name.localName = false

/-- No two components at the top of the document have one kind and name. -/
def DeclaresOnce (schema : Xml.Element) : Prop :=
  (schema.children.filterMap
    (Reading.declared? (schema.attribute? "targetNamespace"))).Nodup

namespace Loading

variable {load : SchemaSource → Loading DocumentId} {schema schema' : Xml.Element}
  {location : String} {origin : Origin}

theorem attribute?_congr (h : schema'.attributes = schema.attributes) (name : String) :
    schema'.attribute? name = schema.attribute? name := by
  rw [Xml.Element.attribute?, Xml.Element.attribute?, Xml.Element.attributeNamed?, h]
  rfl

theorem documentOf_congr (hattributes : schema'.attributes = schema.attributes)
    (hscope : schema'.scope = schema.scope) (location : String) :
    documentOf location schema' = documentOf location schema := by
  have hattribute := attribute?_congr hattributes
  simp only [documentOf, NamespaceRegistry.ofElement, hattribute, hscope]

theorem topElements_append (front others : List Xml.Element) :
    topElements load schema location origin (front ++ others) =
      topElements load schema location origin front >>= fun _ =>
        topElements load schema location origin others := by
  induction front with
  | nil => rfl
  | cons element front ih => rw [List.cons_append, topElements, topElements, ih, bind_assoc]

/-- Of the document, a reference to another one only needs the attributes. -/
theorem topElements_congr (h : schema'.attributes = schema.attributes)
    (elements : List Xml.Element) :
    topElements load schema' location origin elements =
      topElements load schema location origin elements := by
  have hattribute := attribute?_congr h
  have htop : topElement load schema' location origin = topElement load schema location origin := by
    funext element
    simp only [topElement, followImport, Import.ofElement, hattribute]
  induction elements with
  | nil => rfl
  | cons element others ih => rw [topElements, topElements, htop, ih]

/-- If the first load succeeds, the second one answers the same, and then the forms are the same. -/
def Alike (left right : Except SchemaError DocumentId × Loader) : Prop :=
  ∀ id, left.1 = .ok id → right.1 = .ok id ∧ left.2.set.SameForms right.2.set

theorem Alike.refl (outcome : Except SchemaError DocumentId × Loader) : Alike outcome outcome :=
  fun _ hok => ⟨hok, .refl _⟩

/-- What follows the same step is alike if it is so wherever the step leads to. -/
theorem Alike.after {step : Loading Unit} {next next' : Loading DocumentId} {loader : Loader}
    (h : Alike (next.run.run (step.run.run loader).2) (next'.run.run (step.run.run loader).2)) :
    Alike ((step >>= fun _ => next).run.run loader) ((step >>= fun _ => next').run.run loader) := by
  rw [ExceptT.run_bind, StateT.run_bind, ExceptT.run_bind, StateT.run_bind]
  rcases hrun : step.run.run loader with ⟨error | done, reached⟩
  · exact .refl _
  · rw [hrun] at h
    exact h

theorem run_bind_pure {step : Loading Unit} {loader loader' : Loader}
    {result : Except SchemaError Unit} (h : step.run.run loader = (result, loader'))
    (id : DocumentId) : (step >>= fun _ => pure id : Loading DocumentId).run.run loader =
      (result.map fun _ => id, loader') := by
  rw [ExceptT.run_bind, StateT.run_bind, h]
  cases result <;> rfl

/-- The end of a document in another order. -/
theorem alike_of_interchangeable {components components' : List Xml.Element} {loader : Loader}
    (h : Interchangeable origin components components')
    (htags : ∀ component ∈ components, Import.isImportTag component.name.localName = false)
    (htags' : ∀ component ∈ components', Import.isImportTag component.name.localName = false)
    (hset : loader.set.Proper) (horigin : origin.document < loader.set.documents.length)
    (id : DocumentId) :
    Alike ((topElements load schema location origin components >>= fun _ =>
        pure id : Loading DocumentId).run.run loader)
      ((topElements load schema location origin components' >>= fun _ =>
        pure id : Loading DocumentId).run.run loader) := by
  obtain ⟨warnings, hrun⟩ := run_topElements load schema location origin htags loader
  obtain ⟨warnings', hrun'⟩ := run_topElements load schema location origin htags' loader
  rw [run_bind_pure hrun, run_bind_pure hrun']
  intro answer hok
  cases hread : (loader.set.readAll origin components).1 with
  | error error =>
    rw [hread] at hok
    cases hok
  | ok done =>
    obtain ⟨hread', hforms⟩ := h loader.set hset horigin hread
    rw [hread] at hok
    refine ⟨?_, hforms⟩
    rw [hread']
    exact hok

/-- A document and the same one in another order are loaded alike, whatever is loaded already. -/
theorem alike_of_reordered {loader : Loader} (hset : loader.set.Proper)
    {source source' : SchemaSource} (hlocation : source'.location = source.location)
    (hread : Xml.read? loader.allowsDoctype source.text = some schema)
    (hread' : Xml.read? loader.allowsDoctype source'.text = some schema')
    (hreordered : Reordered schema schema') (honce : DeclaresOnce schema) (depth : Nat) :
    Alike ((document (depth + 1) source).run.run loader)
      ((document (depth + 1) source').run.run loader) := by
  obtain ⟨hname, hattributes, hscope, front, components, components', hchildren, hchildren',
    hperm, hkept, htags⟩ := hreordered
  cases hnew : loader.loaded.lookup source.location with
  | some known =>
    rw [run_document_of_loaded hnew, run_document_of_loaded (hlocation ▸ hnew)]
    exact .refl _
  | none =>
    rw [run_document hnew hread, run_document (hlocation ▸ hnew) hread', hname, hlocation,
      hchildren, hchildren', topElements_congr hattributes, documentOf_congr hattributes hscope,
      attribute?_congr hattributes, topElements_append, topElements_append, bind_assoc, bind_assoc]
    split
    · have honce : (components.filterMap
          (Reading.declared? (schema.attribute? "targetNamespace"))).Nodup := by
        unfold DeclaresOnce at honce
        rw [hchildren, List.filterMap_append] at honce
        exact honce.of_append_right
      have htags' : ∀ component ∈ components',
          Import.isImportTag component.name.localName = false :=
        fun component hcomponent => htags component (hperm.mem_iff.mpr hcomponent)
      let origin : Origin := ⟨loader.set.documents.length, schema.attribute? "targetNamespace",
        (documentOf source.location schema).qualifiesElements⟩
      -- what stands before the components is read alike, and leaves a schema as loads leave it
      have hfront := (preserves_topElements SchemaSet.lasts_proper
        ((carries_holding SchemaSet.lasts_proper).keeps_document depth _) schema source.location
        (show origin.document < loader.set.documents.length + 1 from Nat.lt_succ_self _) front _
        (holding_entering SchemaSet.lasts_proper hset (documentOf source.location schema))).1
      have hexchange : Interchangeable origin components components' :=
        interchangeable_of_perm hperm hkept honce
      exact .after (alike_of_interchangeable hexchange htags htags' hfront.holds hfront.documents _)
    · exact .refl _

end Loading

/-- A document that declares nothing twice can be loaded with its components in another order, and
whatever root is asked for, the forms are the same then, and so are the logs. -/
theorem load_reordered {loader : Loader} (h : loader.Loaded) {source source' : SchemaSource}
    {schema schema' : Xml.Element} {id : DocumentId}
    (hlocation : source'.location = source.location)
    (hread : Xml.read? loader.allowsDoctype source.text = some schema)
    (hread' : Xml.read? loader.allowsDoctype source'.text = some schema')
    (hreordered : Reordered schema schema') (honce : DeclaresOnce schema)
    (hload : (loader.load source).1 = .ok id) :
    (loader.load source').1 = .ok id ∧
      (loader.load source).2.set.SameForms (loader.load source').2.set :=
  Loading.alike_of_reordered (h.lasting SchemaSet.lasts_proper) hlocation hread hread' hreordered
    honce _ id hload

/-- A list of numbers under a name, and a global element of that type. -/
def numbersAndTheirType (isTypeFirst : Bool) : SchemaSource :=
  let element := "<x:element name='a' type='t'/>"
  let type := "<x:simpleType name='t'><x:list itemType='x:int'/></x:simpleType>"
  ⟨"numbers", "<x:schema xmlns:x='http://www.w3.org/2001/XMLSchema'>" ++
    (if isTypeFirst then type ++ element else element ++ type) ++ "</x:schema>"⟩

/-- The document tree of these sources. -/
def numbersTree (isTypeFirst : Bool) : Xml.Element :=
  let tag (name : String) (attributes : List (String × String)) (children : List Xml.Element) :
      Xml.Element :=
    ⟨schemaName name, attributes.map fun (name, value) => ⟨⟨none, name⟩, value⟩,
      [⟨some "x", "http://www.w3.org/2001/XMLSchema"⟩], "", children⟩
  let element := tag "element" [("name", "a"), ("type", "t")] []
  let type := tag "simpleType" [("name", "t")] [tag "list" [("itemType", "x:int")] []]
  tag "schema" [] (if isTypeFirst then [type, element] else [element, type])

theorem load_reordered_numbers :
    (Loader.new [] false).Loaded ∧
    Xml.read? false (numbersAndTheirType false).text = some (numbersTree false) ∧
    Xml.read? false (numbersAndTheirType true).text = some (numbersTree true) ∧
    Reordered (numbersTree false) (numbersTree true) ∧ DeclaresOnce (numbersTree false) ∧
    ((Loader.new [] false).load (numbersAndTheirType false)).1 = .ok 0 ∧
    ((Loader.new [] false).load (numbersAndTheirType true)).1 = .ok 0 ∧
    ((Loader.new [] false).load (numbersAndTheirType false)).2.set.SameForms
      ((Loader.new [] false).load (numbersAndTheirType true)).2.set := by
  have hrun : Xml.read? false (numbersAndTheirType false).text = some (numbersTree false) ∧
      Xml.read? false (numbersAndTheirType true).text = some (numbersTree true) ∧
      ((Loader.new [] false).load (numbersAndTheirType false)).1 = .ok 0 := by
    decide +kernel
  have honce : DeclaresOnce (numbersTree false) := by
    unfold DeclaresOnce
    decide +kernel
  have hreordered : Reordered (numbersTree false) (numbersTree true) :=
    ⟨rfl, rfl, rfl, [], (numbersTree false).children, (numbersTree true).children, rfl, rfl,
      .swap _ _ _, rfl, by decide⟩
  have hloaded := Loader.Loaded.new [] false
  exact ⟨hloaded, hrun.1, hrun.2.1, hreordered, honce, hrun.2.2,
    load_reordered hloaded rfl hrun.1 hrun.2.1 hreordered honce hrun.2.2⟩

end SchemaForms
