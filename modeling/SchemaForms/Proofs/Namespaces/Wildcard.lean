import SchemaForms.Proofs.Form.Selecting
import SchemaForms.Proofs.Namespaces.Spelling
import SchemaForms.Proofs.Schema.Loading

/-!
The name that stands for any element. It is the name of the wildcard in the schema language, spelled
with a prefix of the first document, and it only stands for any element where that prefix is read
as the schema language. A document that binds the schema language by default alone has no prefix
for it; then the usual one is written, which is bound to something else or to nothing.
-/

namespace SchemaForms

/-- The address of an element: there are segments, and none is of an attribute. -/
def Address.IsElementPath (address : Address) : Prop :=
  address.segments ≠ [] ∧ ∀ segment ∈ address.segments, segment.isAttribute = false

namespace SchemaSet

/-- The wildcard selects all children of the elements that an address selects. -/
def WildcardSelectsAll (set : SchemaSet) (namespaces : InstanceNamespaces) : Prop :=
  ∀ (root : Xml.Element) (place : Address), place.IsElementPath →
    let record : Instance := ⟨root, namespaces⟩
    let children := (record.elements place).flatMap Xml.Element.children
    record.elements (place.child set.wildcardName) = children ∧
      record.count (place.child set.wildcardName) = children.length

end SchemaSet

/-- The prefix that is written for the schema language is read as the schema language: a prefix is
bound to it, or it is bound by default and the usual prefix, which nothing else is bound to, is the
one that stands for the default namespace. -/
inductive SpellsSchemaLanguage (registry : NamespaceRegistry) (defaultPrefix : String) : Prop
  | own {qualifier : String} (hfound : registry.prefixFor? schemaNamespace = some qualifier)
      (hne : qualifier ≠ "") (hxml : qualifier ≠ "xml")
  | usual (hfound : registry.prefixFor? schemaNamespace = some "") (hdefault : defaultPrefix = "xs")
      (hfree : registry.namespaceFor? "xs" = none)

theorem SchemaDocument.schemaPrefix_ne_empty (document : SchemaDocument) :
    document.schemaPrefix ≠ "" := by
  unfold schemaPrefix
  cases hfound : (document.namespaces.prefixFor? schemaNamespace).filter (· ≠ "") with
  | none => simp
  | some qualifier => simpa using (Option.filter_eq_some_iff.mp hfound).2

namespace SchemaSet

variable {set : SchemaSet} {first : SchemaDocument}

/-- Whatever was loaded, the wildcard has a prefix. -/
theorem wildcardName_eq (set : SchemaSet) : ∃ qualifier : String,
    set.wildcardName = ⟨some qualifier, "any"⟩ := by
  unfold wildcardName PrefixedName.make
  cases set.documents.head? with
  | none => exact ⟨"xs", rfl⟩
  | some first =>
    refine ⟨first.schemaPrefix, ?_⟩
    simp [first.schemaPrefix_ne_empty]

theorem wildcardName_of_head? (hfirst : set.documents.head? = some first) :
    set.wildcardName = ⟨some first.schemaPrefix, "any"⟩ := by
  simp [wildcardName, PrefixedName.make, hfirst, first.schemaPrefix_ne_empty]

end SchemaSet

namespace InstanceNamespaces

variable {registry : NamespaceRegistry} {defaultPrefix : String}

/-- A name of the wildcard stands for any element exactly if its prefix is read as the schema
language: an element that is not called any is matched by nothing else. -/
theorem matches_any_iff (qualifier : String) :
    (∀ element, (enabled registry defaultPrefix).matchesElement ⟨some qualifier, "any"⟩ element =
        true) ↔
      (enabled registry defaultPrefix).namespaceFor? (some qualifier) = some schemaNamespace := by
  constructor
  · intro hall
    by_contra hother
    have hmatch := (matchesElement_iff hother).mp (hall (.plain "x" "" []))
    have hsame := congrArg ExpandedName.localName hmatch
    simp [Xml.Element.plain] at hsame
  · intro hread element
    simp [matchesElement, hread]

/-- The usual prefix is read as the schema language where that is bound by default only, exactly if
the prefix stands for the default namespace and is free. -/
theorem namespaceFor?_usual_iff (hdistinct : registry.Distinct)
    (hfound : ∀ qualifier, registry.prefixFor? schemaNamespace = some qualifier → qualifier = "") :
    (enabled registry defaultPrefix).namespaceFor? (some "xs") = some schemaNamespace ↔
      SpellsSchemaLanguage registry defaultPrefix := by
  have hunbound : registry.namespaceFor? "xs" ≠ some schemaNamespace := by
    intro hbound
    have hmem := (NamespaceRegistry.namespaceFor?_eq_some_iff hdistinct (by decide)).mp hbound
    obtain ⟨qualifier, hqualifier⟩ := NamespaceRegistry.exists_prefixFor? (Or.inr ⟨"xs", hmem⟩)
    obtain rfl := hfound qualifier hqualifier
    have hempty := NamespaceRegistry.eq_empty_of_prefixFor? (by decide) hqualifier hmem
    exact absurd hempty (by decide)
  constructor
  · intro hread
    by_cases hdefault : "xs" = defaultPrefix
    · subst hdefault
      rw [namespaceFor?_default] at hread
      rcases Option.or_eq_some_iff.mp hread with hbound | ⟨hfree, hdefault⟩
      · exact absurd hbound hunbound
      · have hmem := (NamespaceRegistry.namespaceFor?_eq_some_iff hdistinct (by decide)).mp hdefault
        obtain ⟨qualifier, hqualifier⟩ := NamespaceRegistry.exists_prefixFor? (Or.inr ⟨"", hmem⟩)
        obtain rfl := hfound qualifier hqualifier
        exact .usual hqualifier rfl hfree
    · simp only [namespaceFor?, hdefault, if_false] at hread
      exact absurd hread hunbound
  · intro hspells
    cases hspells with
    | own hqualifier hne => exact absurd (hfound _ hqualifier) hne
    | usual hqualifier hdefault hfree =>
      subst hdefault
      rw [namespaceFor?_default, hfree, Option.none_or]
      have hmem := NamespaceRegistry.mem_of_prefixFor? (by decide) hqualifier
      exact (NamespaceRegistry.namespaceFor?_eq_some_iff hdistinct (by decide)).mpr hmem

theorem namespaceFor?_schemaPrefix_iff {document : SchemaDocument}
    (hdistinct : document.namespaces.Distinct) :
    (enabled document.namespaces defaultPrefix).namespaceFor? (some document.schemaPrefix) =
        some schemaNamespace ↔
      SpellsSchemaLanguage document.namespaces defaultPrefix := by
  by_cases hown : ∃ qualifier, document.namespaces.prefixFor? schemaNamespace = some qualifier ∧
      qualifier ≠ ""
  · obtain ⟨qualifier, hfound, hne⟩ := hown
    have hwritten : document.schemaPrefix = qualifier := by
      rw [SchemaDocument.schemaPrefix, hfound, Option.filter_some_pos (by simpa using hne),
        Option.getD_some]
    rw [hwritten, namespaceFor?_own_iff hdistinct (by decide) hfound]
    constructor
    · exact fun hxml => .own hfound hne hxml
    · intro hspells
      cases hspells with
      | own hother _ hxml => exact Option.some.inj (hother.symm.trans hfound) ▸ hxml
      | usual hother => exact absurd (Option.some.inj (hfound.symm.trans hother)) hne
  · have hdefault : ∀ qualifier,
        document.namespaces.prefixFor? schemaNamespace = some qualifier → qualifier = "" := by
      intro qualifier hfound
      by_contra hne
      exact hown ⟨qualifier, hfound, hne⟩
    have hwritten : document.schemaPrefix = "xs" := by
      unfold SchemaDocument.schemaPrefix
      cases hfound : document.namespaces.prefixFor? schemaNamespace with
      | none => rfl
      | some qualifier =>
        rw [hdefault qualifier hfound, Option.filter_some_neg (by simp), Option.getD_none]
    rw [hwritten]
    exact namespaceFor?_usual_iff hdistinct hdefault

end InstanceNamespaces

namespace Instance

variable {record : Instance} {place : Address} {name : PrefixedName}

theorem elements_child (hplace : place.IsElementPath) :
    record.elements (place.child name) =
      (record.elements place).flatMap (record.childrenNamed name) := by
  obtain ⟨hne, helements⟩ := hplace
  obtain ⟨first, others, hsegments⟩ := List.exists_cons_of_ne_nil hne
  rw [hsegments, List.forall_mem_cons] at helements
  simp only [elements, Address.child, hsegments, List.cons_append]
  split
  · rw [descend_concat helements.2]
    rfl
  · simp

theorem count_child (place : Address) :
    record.count (place.child name) = (record.elements (place.child name)).length := by
  simp [count]

end Instance

namespace SchemaSet

variable {set : SchemaSet} {namespaces : InstanceNamespaces}

theorem wildcardSelectsAll_of_matches
    (h : ∀ element, namespaces.matchesElement set.wildcardName element = true) :
    set.WildcardSelectsAll namespaces := by
  intro root place hplace
  have hall : Instance.childrenNamed ⟨root, namespaces⟩ set.wildcardName =
      Xml.Element.children := by
    funext element
    exact List.filter_eq_self.mpr fun child _ => h child
  dsimp only
  rw [Instance.count_child, Instance.elements_child hplace, hall]
  exact ⟨rfl, rfl⟩

/-- A wildcard that selects all children matches every element, since there is a document that holds
the element below its root. -/
theorem matches_of_wildcardSelectsAll {registry : NamespaceRegistry} {defaultPrefix : String}
    (h : set.WildcardSelectsAll (.enabled registry defaultPrefix)) (element : Xml.Element) :
    (InstanceNamespaces.enabled registry defaultPrefix).matchesElement set.wildcardName element =
      true := by
  let root : Xml.Element := .plain "r" "" [element]
  let place : Address := .root (.unprefixed "r")
  let record : Instance := ⟨root, .enabled registry defaultPrefix⟩
  have hplace : place.IsElementPath :=
    ⟨List.cons_ne_nil _ _, by simp [place, Address.root, Segment.isAttribute]⟩
  have hroot : record.elements place = [root] := by
    simp [record, place, root, Instance.elements, Address.root, Instance.descend, Xml.Element.plain,
      InstanceNamespaces.matchesElement, InstanceNamespaces.namespaceFor?, Segment.name,
      PrefixedName.unprefixed]
  have hselected := (h root place hplace).1
  change record.elements _ = (record.elements place).flatMap _ at hselected
  rw [Instance.elements_child hplace, hroot] at hselected
  have hchild : element ∈ record.childrenNamed set.wildcardName root := by
    have hmem : element ∈ [root].flatMap (record.childrenNamed set.wildcardName) := by
      rw [hselected]
      simp [root, Xml.Element.plain]
    simpa using hmem
  exact (List.mem_filter.mp hchild).2

theorem matches_disabled (set : SchemaSet) (element : Xml.Element) :
    InstanceNamespaces.disabled.matchesElement set.wildcardName element = true := by
  obtain ⟨qualifier, hname⟩ := set.wildcardName_eq
  simp [InstanceNamespaces.matchesElement, hname]

end SchemaSet

/-- The registry that a document is entered with binds no prefix twice. -/
theorem Loader.Loaded.distinct {loader : Loader} (h : loader.Loaded) {document : SchemaDocument}
    (hdocument : document ∈ loader.set.documents) : document.namespaces.Distinct := by
  obtain ⟨source, root, -, rfl⟩ := h.sound.wereRead document hdocument
  exact NamespaceRegistry.distinct_ofList _

theorem Loader.Loaded.matches_wildcard_iff {loader : Loader} (hloaded : loader.Loaded)
    {first : SchemaDocument} (hfirst : loader.set.documents.head? = some first)
    (defaultPrefix : String) :
    (∀ element, (InstanceNamespaces.enabled first.namespaces defaultPrefix).matchesElement
        loader.set.wildcardName element = true) ↔
      SpellsSchemaLanguage first.namespaces defaultPrefix := by
  have hdistinct := hloaded.distinct (List.mem_of_mem_head? hfirst)
  rw [SchemaSet.wildcardName_of_head? hfirst, InstanceNamespaces.matches_any_iff,
    InstanceNamespaces.namespaceFor?_schemaPrefix_iff hdistinct]

/-- Whatever was loaded, under the namespaces of the first document the wildcard matches every
element, and selects all children of what an address selects, exactly if the document's prefix for
the schema language is read as the schema language. Without namespaces it always does. -/
theorem wildcard_matches_all_iff {loader : Loader} (hloaded : loader.Loaded)
    {first : SchemaDocument} (hfirst : loader.set.documents.head? = some first)
    (defaultPrefix : String) :
    let namespaces := InstanceNamespaces.enabled first.namespaces defaultPrefix
    ((∀ element, namespaces.matchesElement loader.set.wildcardName element = true) ↔
        SpellsSchemaLanguage first.namespaces defaultPrefix) ∧
      (loader.set.WildcardSelectsAll namespaces ↔
        SpellsSchemaLanguage first.namespaces defaultPrefix) ∧
      (∀ element, InstanceNamespaces.disabled.matchesElement loader.set.wildcardName element =
        true) ∧
      loader.set.WildcardSelectsAll .disabled := by
  intro namespaces
  have hmatches := hloaded.matches_wildcard_iff hfirst defaultPrefix
  refine ⟨hmatches, ⟨fun hselects => ?_, fun hspells => ?_⟩, loader.set.matches_disabled,
    SchemaSet.wildcardSelectsAll_of_matches loader.set.matches_disabled⟩
  · exact hmatches.mp (SchemaSet.matches_of_wildcardSelectsAll hselects)
  · exact SchemaSet.wildcardSelectsAll_of_matches (hmatches.mpr hspells)

/-- A schema document without declarations. -/
def emptySchema (tag declarations : String) : SchemaSource where
  location := "main.xsd"
  text := "<" ++ tag ++ declarations ++ "/>"

/-- The schema language is bound to a prefix, as documents mostly do, and the wildcard selects
all. -/
theorem wildcard_matches_all_prefixed :
    let loader := ((Loader.new [] false).load
      (emptySchema "x:schema" " xmlns:x=\"http://www.w3.org/2001/XMLSchema\"")).2
    ∃ first, loader.set.documents.head? = some first ∧
      (∀ element, (InstanceNamespaces.enabled first.namespaces "ns").matchesElement
        loader.set.wildcardName element = true) ∧
      loader.set.WildcardSelectsAll (.enabled first.namespaces "ns") := by
  intro loader
  have hloaded : loader.Loaded := .load (.new [] false) _
  have hnamespaces : (loader.set.documents.head?.map SchemaDocument.namespaces) =
      some ⟨[("x", schemaNamespace)]⟩ := by
    decide +kernel
  obtain ⟨first, hfirst, hbound⟩ := Option.map_eq_some_iff.mp hnamespaces
  have hspells : SpellsSchemaLanguage first.namespaces "ns" := by
    have hfound : first.namespaces.prefixFor? schemaNamespace = some "x" := by
      rw [hbound]
      decide
    exact .own hfound (by decide) (by decide)
  obtain ⟨hmatches, hselects, -, -⟩ := wildcard_matches_all_iff hloaded hfirst "ns"
  exact ⟨first, hfirst, hmatches.mpr hspells, hselects.mpr hspells⟩

/-- The schema language is bound by default only: the prefix of the wildcard means nothing, and the
wildcard does not match. -/
theorem wildcard_unmatched :
    let loader := ((Loader.new [] false).load
      (emptySchema "schema" " xmlns=\"http://www.w3.org/2001/XMLSchema\"")).2
    loader.Loaded ∧ ∃ first, loader.set.documents.head? = some first ∧
      ¬ (∀ element, (InstanceNamespaces.enabled first.namespaces "ns").matchesElement
        loader.set.wildcardName element = true) ∧
      ¬ loader.set.WildcardSelectsAll (.enabled first.namespaces "ns") := by
  intro loader
  have hloaded : loader.Loaded := .load (.new [] false) _
  have hnamespaces : (loader.set.documents.head?.map SchemaDocument.namespaces) =
      some ⟨[("", schemaNamespace)]⟩ := by
    decide +kernel
  obtain ⟨first, hfirst, hbound⟩ := Option.map_eq_some_iff.mp hnamespaces
  have hfound : first.namespaces.prefixFor? schemaNamespace = some "" := by
    rw [hbound]
    decide
  have hunmatched : ¬ (∀ element, (InstanceNamespaces.enabled first.namespaces "ns").matchesElement
      loader.set.wildcardName element = true) := by
    rw [hloaded.matches_wildcard_iff hfirst]
    intro hspells
    cases hspells with
    | own hother hne => exact hne (Option.some.inj (hother.symm.trans hfound))
    | usual _ hdefault => exact absurd hdefault (by decide)
  exact ⟨hloaded, first, hfirst, hunmatched, fun hselects =>
    hunmatched (SchemaSet.matches_of_wildcardSelectsAll hselects)⟩

end SchemaForms
