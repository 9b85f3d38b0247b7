import SchemaForms.Proofs.Schema.Lasting

/-!
Schemas without loose ends. However documents were loaded, and wherever a load ended: an identifier
that a schema holds is one that was handed out, and a type of the language that it names was
entered. What reads components is read alike into two tables, so it is read alike into one and the
same table twice. Hence whatever it refers to is in the table.
-/

namespace SchemaForms

namespace Component

def links : Component → List Link
  | .type _ id => [.type (.anonymous id)]
  | .element declaration => declaration.links
  | .attr declaration => declaration.links
  | .attributeGroup group => group.links
  | .modelGroup group => group.links
  | .nothing => []

theorem Matches.covers {matching : Matching} {left right : Component}
    (h : left.Matches matching right) : ∀ link ∈ left.links, matching.Covers link := by
  cases h with
  | type href => exact List.forall_mem_singleton.mpr ⟨_, href⟩
  | element h => exact h.covers
  | attr h => exact h.covers
  | attributeGroup h => exact h.covers
  | modelGroup h => exact h.covers
  | nothing => exact fun _ hlink => nomatch hlink

end Component

namespace SchemaSet

/-- What the components that have a name of their own kind hold on to. -/
def declaredLinks (set : SchemaSet) : List Link :=
  set.elements.flatMap (·.2.links) ++ set.attributes.flatMap (·.2.links) ++
    set.attributeGroups.flatMap (·.2.links) ++ set.modelGroups.flatMap (·.2.links)

/-- All that the components of a schema hold on to, at whatever depth. -/
def links (set : SchemaSet) : List Link :=
  set.types.definitions.flatMap TypeDefinition.links ++ set.declaredLinks

/-- Identifiers are in range, and names of the language are known. Other names may be unknown. -/
def Resolves (set : SchemaSet) : Link → Prop
  | .type (.anonymous id) => id.index < set.types.definitions.length
  | .type (.named name) => name.isBuiltin → (set.types.namedType? name).isSome
  | .document id => id < set.documents.length

structure Closed (set : SchemaSet) : Prop where
  named : ∀ name id, set.types.namedType? name = some id →
    id.index < set.types.definitions.length
  links : ∀ link ∈ set.links, set.Resolves link

variable {set later : SchemaSet}

theorem forall_mem_links {P : Link → Prop} : (∀ link ∈ set.links, P link) ↔
    (∀ definition ∈ set.types.definitions, ∀ link ∈ definition.links, P link) ∧
    ∀ link ∈ set.declaredLinks, P link := by
  simp only [links, List.forall_mem_append, List.forall_mem_flatMap]

theorem forall_mem_declaredLinks {P : Link → Prop} : (∀ link ∈ set.declaredLinks, P link) ↔
    (∀ entry ∈ set.elements, ∀ link ∈ entry.2.links, P link) ∧
    (∀ entry ∈ set.attributes, ∀ link ∈ entry.2.links, P link) ∧
    (∀ entry ∈ set.attributeGroups, ∀ link ∈ entry.2.links, P link) ∧
    ∀ entry ∈ set.modelGroups, ∀ link ∈ entry.2.links, P link := by
  simp only [declaredLinks, List.forall_mem_append, List.forall_mem_flatMap, and_assoc]

/-- The schema has everything that the other one has to refer to. -/
structure Keeps (set later : SchemaSet) : Prop where
  definitions : set.types.definitions.length ≤ later.types.definitions.length
  documents : set.documents.length ≤ later.documents.length
  named : ∀ name, (set.types.namedType? name).isSome → (later.types.namedType? name).isSome

theorem Keeps.resolves (h : set.Keeps later) {link : Link} (hlink : set.Resolves link) :
    later.Resolves link := by
  match link, hlink with
  | .type (.anonymous id), hlink => exact Nat.lt_of_lt_of_le hlink h.definitions
  | .type (.named name), hlink => exact fun hbuiltin => h.named name (hlink hbuiltin)
  | .document id, hlink => exact Nat.lt_of_lt_of_le hlink h.documents

theorem closed_initial : SchemaSet.initial.Closed := by
  refine ⟨fun name id h => ?_, fun _ hlink => nomatch hlink⟩
  have hempty : ∀ other, (⟨[], []⟩ : TypeTable).namedType? other = none := fun _ => rfl
  have hgrows := (TypeTable.grows_intern ⟨[], []⟩ (schemaName "language")).trans
    (TypeTable.grows_intern _ (schemaName "anyType"))
  rcases hgrows.namedType?_cases h with hbefore | ⟨-, hafter⟩
  · rw [hempty] at hbefore
    cases hbefore
  · exact (List.getElem?_eq_some_iff.mp hafter).1

section Reading

variable {origin : Origin}

/-- Reading leaves the schema closed, and what was read holds on to what is there. -/
theorem Closed.of_reading (h : set.Closed) (horigin : origin.document < set.documents.length)
    {reading : Reading Component} (hreading : Reading.Uniform origin Component.Matches reading) :
    Closed { set with types := (reading.run.run set.types).2 } ∧
      ∀ component, (reading.run.run set.types).1 = .ok component → ∀ link ∈ component.links,
        Resolves { set with types := (reading.run.run set.types).2 } link := by
  -- Both tables of the world are that of the schema, and there are no pairs yet.
  let world : World := ⟨set.types, set.types, fun _ _ => False, (· < set.documents.length)⟩
  have hworld : world.Sound := ⟨fun h => h.elim, fun h => h.elim⟩
  obtain ⟨after, hextends, hsound, hleft, -, hagree⟩ := hreading world horigin hworld
  rw [show (reading.run.run set.types).2 = after.left from hleft]
  obtain ⟨names, hgrows, -⟩ := hextends.grows
  have hkeeps : set.Keeps { set with types := after.left } := by
    refine ⟨hgrows.definitions.length_le, Nat.le_refl _, fun name hname => ?_⟩
    obtain ⟨id, hid⟩ := Option.isSome_iff_exists.mp hname
    show (after.left.namedType? name).isSome
    rw [hgrows.kept hid, Option.isSome_some]
  have hcovered : ∀ link, after.matching.Covers link →
      Resolves { set with types := after.left } link := by
    intro link hlink
    match link, hlink with
    | .type (.anonymous id), ⟨_, .anonymous hpair⟩ => exact (hsound.lt hpair).1
    | .type (.named name), ⟨_, .named hnamed⟩ => exact fun hbuiltin => (hnamed hbuiltin).1
    | .document id, hdocument =>
      have hheld : after.documents id := hdocument
      rw [hextends.documents] at hheld
      exact hheld
  obtain ⟨htypes, hdeclared⟩ := forall_mem_links.mp h.links
  refine ⟨⟨fun name id hid => ?_, forall_mem_links.mpr ⟨?_, ?_⟩⟩, fun component hok => ?_⟩
  · rcases hgrows.namedType?_cases hid with hbefore | ⟨-, hbuiltin⟩
    · exact Nat.lt_of_lt_of_le (h.named name id hbefore) hkeeps.definitions
    · exact (List.getElem?_eq_some_iff.mp hbuiltin).1
  · intro definition hdefinition link hlink
    obtain ⟨index, hindex⟩ := List.mem_iff_getElem?.mp hdefinition
    by_cases hold : set.types.definitions.length ≤ index
    · rcases hextends.covered hold hindex with ⟨name, rfl⟩ | ⟨other, hpair⟩
      · exact nomatch hlink
      · obtain ⟨found, found', hfound, -, hmatches⟩ := hsound.defined hpair
        obtain rfl := Option.some.inj (hindex.symm.trans hfound)
        exact hcovered link (hmatches.covers link hlink)
    · have hheld := hgrows.definition (List.getElem?_eq_getElem (Nat.lt_of_not_le hold))
      obtain rfl := Option.some.inj (hindex.symm.trans hheld)
      exact hkeeps.resolves (htypes _ (List.getElem_mem _) link hlink)
  · exact fun link hlink => hkeeps.resolves (hdeclared link hlink)
  · have hresult : Agree (Component.Matches after.matching)
        (reading.run.run set.types).1 (reading.run.run set.types).1 := hagree
    rw [hok] at hresult
    cases hresult with
    | ok hmatches => exact fun link hlink => hcovered link (hmatches.covers link hlink)

end Reading

theorem Closed.enter (h : set.Closed) {component : Component}
    (hcomponent : ∀ link ∈ component.links, set.Resolves link) : (set.enter component).Closed := by
  obtain ⟨htypes, hdeclared⟩ := forall_mem_links.mp h.links
  obtain ⟨helements, hattributes, hattributeGroups, hmodelGroups⟩ :=
    forall_mem_declaredLinks.mp hdeclared
  cases component with
  | type name id =>
    have hid : id.index < set.types.definitions.length := hcomponent _ (List.mem_singleton_self _)
    have hkeeps : set.Keeps { set with types := set.types.call name id } := by
      refine ⟨Nat.le_refl _, Nat.le_refl _, fun other hother => ?_⟩
      show ((set.types.call name id).namedType? other).isSome
      rw [TypeTable.namedType?_call]
      split
      · rfl
      · exact hother
    refine ⟨fun other found hfound => ?_, fun link hlink => hkeeps.resolves (h.links link hlink)⟩
    have hcalled : (set.types.call name id).namedType? other = some found := hfound
    rw [TypeTable.namedType?_call] at hcalled
    split at hcalled
    · exact Option.some.inj hcalled ▸ hid
    · exact h.named other found hcalled
  | element declaration =>
    rw [SchemaSet.enter, addElement_eq]
    refine ⟨h.named, forall_mem_links.mpr ⟨htypes, forall_mem_declaredLinks.mpr ?_⟩⟩
    exact ⟨Keyed.forall_mem_put helements hcomponent, hattributes, hattributeGroups, hmodelGroups⟩
  | attr declaration =>
    refine ⟨h.named, forall_mem_links.mpr ⟨htypes, forall_mem_declaredLinks.mpr ?_⟩⟩
    exact ⟨helements, Keyed.forall_mem_put hattributes hcomponent, hattributeGroups, hmodelGroups⟩
  | attributeGroup group =>
    refine ⟨h.named, forall_mem_links.mpr ⟨htypes, forall_mem_declaredLinks.mpr ?_⟩⟩
    exact ⟨helements, hattributes, Keyed.forall_mem_put hattributeGroups hcomponent, hmodelGroups⟩
  | modelGroup group =>
    refine ⟨h.named, forall_mem_links.mpr ⟨htypes, forall_mem_declaredLinks.mpr ?_⟩⟩
    exact ⟨helements, hattributes, hattributeGroups, Keyed.forall_mem_put hmodelGroups hcomponent⟩
  | nothing => exact h

/-- Whatever is read at the top of a document, and also when the reading fails. -/
theorem Closed.read (h : set.Closed) {origin : Origin}
    (horigin : origin.document < set.documents.length) (element : Xml.Element) :
    (set.read origin element).2.Closed := by
  have hreading := h.of_reading horigin (Reading.uniform_component element)
  unfold SchemaSet.read enterRead
  rcases hrun : (Reading.component origin element).run.run set.types with ⟨error | component, types⟩
  · rw [hrun] at hreading
    exact hreading.1
  · rw [hrun] at hreading
    exact hreading.1.enter (hreading.2 component rfl)

theorem lasts_closed : Lasts Closed where
  initial := closed_initial
  enterDocument set document h := by
    have hkeeps : set.Keeps { set with documents := set.documents ++ [document] } :=
      ⟨Nat.le_refl _, by simp, fun _ h => h⟩
    exact ⟨h.named, fun link hlink => hkeeps.resolves (h.links link hlink)⟩
  read _ _ element h horigin := h.read horigin element

end SchemaSet

variable {loader : Loader}

/-- After any number of loads, successful or not, the schema is closed. So whatever is looked up
by an identifier that it holds is there. -/
theorem loaded_closed (h : loader.Loaded) : loader.set.Closed ∧
    (∀ reference id, .type reference ∈ loader.set.links →
      loader.set.types.resolve? reference = some id →
        loader.set.types.definitions[id.index]? = some (loader.set.types.definition id)) ∧
    ∀ id, .document id ∈ loader.set.links →
      loader.set.documents[id]? = some (loader.set.document id) := by
  have hclosed := h.lasting SchemaSet.lasts_closed
  refine ⟨hclosed, fun reference id hlink hresolve => ?_, fun id hlink => ?_⟩
  · have hlt : id.index < loader.set.types.definitions.length := by
      cases reference with
      | named name => exact hclosed.named name id hresolve
      | anonymous held =>
        obtain rfl := Option.some.inj hresolve
        exact hclosed.links _ hlink
    simp [TypeTable.definition, List.getD, List.getElem?_eq_getElem hlt]
  · have hlt : id < loader.set.documents.length := hclosed.links _ hlink
    simp [SchemaSet.document, List.getD, List.getElem?_eq_getElem hlt]

/-- A document that is given up after an element of which the type has no name. -/
def brokenLoad : Except SchemaError DocumentId × Loader :=
  (Loader.new [] false).load ⟨"broken", "<schema xmlns='http://www.w3.org/2001/XMLSchema'>" ++
    "<element name='a'><simpleType><list itemType='int'/></simpleType></element>" ++
    "<element/></schema>"⟩

theorem loaded_closed_brokenLoad : brokenLoad.2.Loaded ∧ brokenLoad.1.toOption = none ∧
    .type (.anonymous ⟨3⟩) ∈ brokenLoad.2.set.links ∧ brokenLoad.2.set.Closed := by
  have hloaded : brokenLoad.2.Loaded := .load (.new [] false) _
  have hload : brokenLoad.1.toOption = none ∧
      .type (.anonymous ⟨3⟩) ∈ brokenLoad.2.set.links := by
    decide +kernel
  exact ⟨hloaded, hload.1, hload.2, (loaded_closed hloaded).1⟩

end SchemaForms
