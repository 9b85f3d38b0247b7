import SchemaForms.Form.Bind
import SchemaForms.Proofs.Compile.Rendering
import SchemaForms.Proofs.Schema.Tables
import Mathlib.Data.List.Nodup
import Mathlib.Tactic.Common

/-!
Spelling the names of documents. A name is spelled with the first prefix that is bound to its
namespace, and what is spelled is read back by looking the prefix up. The two look-ups run in
opposite directions over one registry, in which no prefix is bound twice. They undo each other for
all namespaces that have a prefix of their own. A namespace that is only bound by default borrows
the prefix chosen for it, and is read back exactly if nothing else is bound to that prefix.
-/

namespace SchemaForms

namespace NamespaceRegistry

/-- No prefix is bound twice. -/
def Distinct (registry : NamespaceRegistry) : Prop := (registry.bindings.map Prod.fst).Nodup

/-- Some prefix is bound to the namespace. The prefix xml always is. -/
def Knows (registry : NamespaceRegistry) (uri : String) : Prop :=
  uri = Xml.xmlNamespace ∨ ∃ qualifier, (qualifier, uri) ∈ registry.bindings

variable {registry : NamespaceRegistry} {uri qualifier : String}

theorem Distinct.register (h : registry.Distinct) (qualifier uri : String) :
    (registry.register qualifier uri).Distinct :=
  Keyed.nodup_keys_put h

theorem distinct_ofList (bindings : List (String × String)) : (ofList bindings).Distinct := by
  have hfold : ∀ registry : NamespaceRegistry, registry.Distinct →
      (bindings.foldl (fun registry binding => registry.register binding.1 binding.2)
        registry).Distinct := by
    induction bindings with
    | nil => exact fun _ h => h
    | cons binding others ih => exact fun _ h => ih _ (h.register _ _)
  exact hfold .empty List.nodup_nil

/-- The prefixes bound to a namespace, in order. -/
def prefixesOf (registry : NamespaceRegistry) (uri : String) : List String :=
  (registry.bindings.filter (·.2 = uri)).map Prod.fst

theorem mem_prefixesOf : qualifier ∈ registry.prefixesOf uri ↔
    (qualifier, uri) ∈ registry.bindings := by
  simp [prefixesOf]

theorem prefixFor?_eq (hxml : uri ≠ Xml.xmlNamespace) : registry.prefixFor? uri =
    ((registry.prefixesOf uri).find? (· ≠ "")).or (registry.prefixesOf uri).head? := by
  rw [prefixFor?, if_neg hxml, prefixesOf]

/-- The prefix that is found is bound to the namespace. -/
theorem mem_of_prefixFor? (hxml : uri ≠ Xml.xmlNamespace)
    (h : registry.prefixFor? uri = some qualifier) : (qualifier, uri) ∈ registry.bindings := by
  rw [prefixFor?_eq hxml] at h
  apply mem_prefixesOf.mp
  rcases Option.or_eq_some_iff.mp h with hfound | ⟨-, hhead⟩
  · exact List.mem_of_find?_eq_some hfound
  · exact List.mem_of_mem_head? hhead

/-- The empty prefix is only found when the namespace has no other. -/
theorem eq_empty_of_prefixFor? (hxml : uri ≠ Xml.xmlNamespace)
    (h : registry.prefixFor? uri = some "") (hmem : (qualifier, uri) ∈ registry.bindings) :
    qualifier = "" := by
  rw [prefixFor?_eq hxml] at h
  rcases Option.or_eq_some_iff.mp h with hfound | ⟨hnone, -⟩
  · simpa using List.find?_some hfound
  · by_contra hne
    have hother := List.find?_eq_none.mp hnone qualifier (mem_prefixesOf.mpr hmem)
    simp [hne] at hother

theorem exists_prefixFor? (hknown : registry.Knows uri) :
    ∃ qualifier, registry.prefixFor? uri = some qualifier := by
  by_cases hxml : uri = Xml.xmlNamespace
  · exact ⟨"xml", by rw [prefixFor?, if_pos hxml]⟩
  · obtain ⟨qualifier, hmem⟩ := hknown.resolve_left hxml
    have hne : registry.prefixesOf uri ≠ [] := List.ne_nil_of_mem (mem_prefixesOf.mpr hmem)
    rw [prefixFor?_eq hxml, ← Option.isSome_iff_exists, Option.isSome_or]
    simp [List.isSome_head?, hne]

theorem namespaceFor?_eq_some_iff (h : registry.Distinct) (hxml : qualifier ≠ "xml") :
    registry.namespaceFor? qualifier = some uri ↔ (qualifier, uri) ∈ registry.bindings := by
  rw [namespaceFor?, if_neg hxml]
  exact Keyed.lookup_eq_some_iff_mem h

end NamespaceRegistry

/-- A namespace is spelled so that it is not taken for another one: it is that of the reserved
prefix, or a prefix of its own is found first, or it is only bound by default and the prefix that it
borrows is bound to nothing. -/
inductive SpelledApart (registry : NamespaceRegistry) (defaultPrefix uri : String) : Prop
  | reserved (hxml : uri = Xml.xmlNamespace)
  | own {qualifier : String} (hfound : registry.prefixFor? uri = some qualifier)
      (hne : qualifier ≠ "") (hxml : qualifier ≠ "xml")
  | borrowed (hfound : registry.prefixFor? uri = some "") (hne : defaultPrefix ≠ "")
      (hfree : registry.namespaceFor? defaultPrefix = none)

namespace InstanceNamespaces

variable {registry : NamespaceRegistry} {defaultPrefix uri qualifier : String}

theorem prefixFor?_xml (namespaces : InstanceNamespaces) :
    namespaces.prefixFor? Xml.xmlNamespace = some "xml" := by
  simp [prefixFor?]

theorem prefixFor?_enabled (hxml : uri ≠ Xml.xmlNamespace) :
    (enabled registry defaultPrefix).prefixFor? uri = (registry.prefixFor? uri).map
      fun qualifier => if qualifier = "" then defaultPrefix else qualifier := by
  rw [prefixFor?, if_neg hxml]

theorem namespaceFor?_eq_some (h : registry.namespaceFor? qualifier = some uri) :
    (enabled registry defaultPrefix).namespaceFor? (some qualifier) = some uri := by
  simp only [namespaceFor?, h, Option.some_or, ite_self]

/-- The default prefix is read as the namespace that is bound to it, before the default one. -/
theorem namespaceFor?_default :
    (enabled registry defaultPrefix).namespaceFor? (some defaultPrefix) =
      (registry.namespaceFor? defaultPrefix).or registry.defaultNamespace? := by
  simp only [namespaceFor?, if_true]

theorem qualifier_prefixedName (namespaces : InstanceNamespaces) (uri localName : String) :
    (namespaces.prefixedName ⟨some uri, localName⟩).qualifier =
      (namespaces.prefixFor? uri).filter (· ≠ "") :=
  rfl

section ReadBack

variable (hdistinct : registry.Distinct)

include hdistinct

/-- A borrowed prefix is read back exactly if the registry has nothing for it. -/
theorem namespaceFor?_borrowed_iff (hxml : uri ≠ Xml.xmlNamespace)
    (hfound : registry.prefixFor? uri = some "") (hne : defaultPrefix ≠ "") :
    (enabled registry defaultPrefix).namespaceFor? (some defaultPrefix) = some uri ↔
      registry.namespaceFor? defaultPrefix = none := by
  have hmem := NamespaceRegistry.mem_of_prefixFor? hxml hfound
  have hdefault : registry.defaultNamespace? = some uri :=
    (NamespaceRegistry.namespaceFor?_eq_some_iff hdistinct (by decide)).mpr hmem
  rw [namespaceFor?_default, hdefault]
  cases hbound : registry.namespaceFor? defaultPrefix with
  | none => simp
  | some other =>
    simp only [Option.some_or, Option.some.injEq, reduceCtorEq, iff_false]
    rintro rfl
    by_cases hreserved : defaultPrefix = "xml"
    · subst hreserved
      rw [NamespaceRegistry.namespaceFor?, if_pos rfl] at hbound
      exact hxml (Option.some.inj hbound).symm
    · have hother := (NamespaceRegistry.namespaceFor?_eq_some_iff hdistinct hreserved).mp hbound
      exact hne (NamespaceRegistry.eq_empty_of_prefixFor? hxml hfound hother)

/-- A prefix of its own is read back unless it is the reserved one. -/
theorem namespaceFor?_own_iff (hxml : uri ≠ Xml.xmlNamespace)
    (hfound : registry.prefixFor? uri = some qualifier) :
    (enabled registry defaultPrefix).namespaceFor? (some qualifier) = some uri ↔
      qualifier ≠ "xml" := by
  constructor
  · rintro hread rfl
    have hreserved : registry.namespaceFor? "xml" = some Xml.xmlNamespace := by
      rw [NamespaceRegistry.namespaceFor?, if_pos rfl]
    rw [namespaceFor?_eq_some hreserved] at hread
    exact hxml (Option.some.inj hread).symm
  · intro hreserved
    have hmem := NamespaceRegistry.mem_of_prefixFor? hxml hfound
    exact namespaceFor?_eq_some
      ((NamespaceRegistry.namespaceFor?_eq_some_iff hdistinct hreserved).mpr hmem)

/-- What a name is spelled with is read as its namespace exactly if it is spelled apart. -/
theorem namespaceFor?_qualifier_iff (hknown : registry.Knows uri) (localName : String) :
    (enabled registry defaultPrefix).namespaceFor?
      ((enabled registry defaultPrefix).prefixedName ⟨some uri, localName⟩).qualifier = some uri ↔
        SpelledApart registry defaultPrefix uri := by
  rw [qualifier_prefixedName]
  by_cases hxml : uri = Xml.xmlNamespace
  · subst hxml
    rw [prefixFor?_xml]
    exact iff_of_true (namespaceFor?_eq_some (by rw [NamespaceRegistry.namespaceFor?, if_pos rfl]))
      (.reserved rfl)
  obtain ⟨qualifier, hfound⟩ := NamespaceRegistry.exists_prefixFor? hknown
  rw [prefixFor?_enabled hxml, hfound, Option.map_some]
  by_cases hempty : qualifier = ""
  · subst hempty
    rw [if_pos rfl]
    by_cases hne : defaultPrefix = ""
    · subst hne
      rw [Option.filter_some_neg (by simp)]
      refine iff_of_false (by simp [namespaceFor?]) fun hapart => ?_
      cases hapart with
      | reserved h => exact hxml h
      | own hother hne => exact hne (Option.some.inj (hother.symm.trans hfound))
      | borrowed _ hne => exact hne rfl
    · rw [Option.filter_some_pos (by simpa using hne),
        namespaceFor?_borrowed_iff hdistinct hxml hfound hne]
      constructor
      · exact fun hfree => .borrowed hfound hne hfree
      · intro hapart
        cases hapart with
        | reserved h => exact absurd h hxml
        | own hother hne => exact absurd (Option.some.inj (hother.symm.trans hfound)) hne
        | borrowed _ _ hfree => exact hfree
  · rw [if_neg hempty, Option.filter_some_pos (by simpa using hempty),
      namespaceFor?_own_iff hdistinct hxml hfound]
    constructor
    · exact fun hreserved => .own hfound hempty hreserved
    · intro hapart
      cases hapart with
      | reserved h => exact absurd h hxml
      | own hother _ hreserved =>
        obtain rfl := Option.some.inj (hother.symm.trans hfound)
        exact hreserved
      | borrowed hother => exact absurd (Option.some.inj (hfound.symm.trans hother)) hempty

/-- The look-ups themselves undo each other also where the empty prefix is chosen to be borrowed. -/
theorem namespaceFor?_prefixFor?_iff (hknown : registry.Knows uri) :
    (enabled registry defaultPrefix).namespaceFor?
      ((enabled registry defaultPrefix).prefixFor? uri) = some uri ↔
        SpelledApart registry defaultPrefix uri ∨
          uri ≠ Xml.xmlNamespace ∧ registry.prefixFor? uri = some "" ∧ defaultPrefix = "" := by
  by_cases hboth : uri ≠ Xml.xmlNamespace ∧ registry.prefixFor? uri = some "" ∧ defaultPrefix = ""
  · obtain ⟨hxml, hfound, rfl⟩ := hboth
    rw [prefixFor?_enabled hxml, hfound, Option.map_some, if_pos rfl]
    have hmem := NamespaceRegistry.mem_of_prefixFor? hxml hfound
    refine iff_of_true (namespaceFor?_eq_some ?_) (Or.inr ⟨hxml, rfl, rfl⟩)
    exact (NamespaceRegistry.namespaceFor?_eq_some_iff hdistinct (by decide)).mpr hmem
  · have hqualifier : (enabled registry defaultPrefix).prefixFor? uri =
        ((enabled registry defaultPrefix).prefixedName ⟨some uri, ""⟩).qualifier := by
      rw [qualifier_prefixedName]
      by_cases hxml : uri = Xml.xmlNamespace
      · subst hxml
        rw [prefixFor?_xml]
        rfl
      obtain ⟨qualifier, hfound⟩ := NamespaceRegistry.exists_prefixFor? hknown
      rw [prefixFor?_enabled hxml, hfound, Option.map_some]
      by_cases hempty : qualifier = ""
      · subst hempty
        have hne : defaultPrefix ≠ "" := fun hdefault => hboth ⟨hxml, hfound, hdefault⟩
        rw [if_pos rfl, Option.filter_some_pos (by simpa using hne)]
      · rw [if_neg hempty, Option.filter_some_pos (by simpa using hempty)]
    rw [hqualifier, namespaceFor?_qualifier_iff hdistinct hknown]
    exact (or_iff_left hboth).symm

end ReadBack

/-- Outside of the schema language a name matches the elements of the namespace that it is read
as. -/
theorem matchesElement_iff {name : PrefixedName} {element : Xml.Element}
    (h : (enabled registry defaultPrefix).namespaceFor? name.qualifier ≠ some schemaNamespace) :
    (enabled registry defaultPrefix).matchesElement name element = true ↔ element.name =
      ⟨(enabled registry defaultPrefix).namespaceFor? name.qualifier, name.localName⟩ := by
  simp [matchesElement, h]

/-- The spelled name stands for the elements of its name and for no others exactly if it is read
back. If it is not, there is an element of another name that it stands for. -/
theorem matches_prefixedName_iff (hschema : uri ≠ schemaNamespace) (localName : String) :
    (∀ element, (enabled registry defaultPrefix).matchesElement
      ((enabled registry defaultPrefix).prefixedName ⟨some uri, localName⟩) element = true ↔
        element.name = ⟨some uri, localName⟩) ↔
      (enabled registry defaultPrefix).namespaceFor?
        ((enabled registry defaultPrefix).prefixedName ⟨some uri, localName⟩).qualifier =
          some uri := by
  constructor
  · intro hmatches
    let read := (enabled registry defaultPrefix).namespaceFor?
      ((enabled registry defaultPrefix).prefixedName ⟨some uri, localName⟩).qualifier
    let misread : Xml.Element := ⟨⟨read, localName⟩, [], [], "", []⟩
    have hmisread : misread.name = ⟨some uri, localName⟩ :=
      (hmatches misread).mp (by simp [matchesElement, misread, read, prefixedName,
        PrefixedName.make])
    exact congrArg ExpandedName.namespaceName hmisread
  · intro hread element
    rw [matchesElement_iff (by simpa [hread] using hschema), hread]
    rfl

end InstanceNamespaces

/-- The document element of the name that a template begins with is not refused. -/
theorem SchemaIndex.bind_isOk {index : SchemaIndex} {mode : Mode} {address : Address}
    {compilation : Compilation} {element : Xml.Element} {name : PrefixedName}
    (hcompile : index.compile mode address = .ok compilation)
    (hfirst : address.segments.head?.map Segment.name = some name)
    (hmatches : index.namespaces.matchesElement name element = true) :
    ∃ form, compilation.template.bind ⟨element, index.namespaces⟩ = .ok form := by
  obtain ⟨-, hroot, -⟩ := SchemaIndex.renders_of_compile hcompile
  obtain ⟨segment, hsegment, rfl⟩ := Option.map_eq_some_iff.mp hfirst
  have hmatchesRoot : compilation.template.matchesRoot ⟨element, index.namespaces⟩ = true := by
    rw [Template.matchesRoot, hroot, hsegment]
    exact hmatches
  exact ⟨_, by rw [Template.bind, if_pos hmatchesRoot]⟩

/-- Registries are made by binding prefixes one after the other, and a registry may bind several
prefixes to one namespace. The two look-ups undo each other exactly for the namespaces that are
spelled apart, and then filling a template refuses no document that begins with its root. -/
theorem spelling_undone_iff (bindings : List (String × String))
    (defaultPrefix uri localName : String)
    (hknown : (NamespaceRegistry.ofList bindings).Knows uri) (hschema : uri ≠ schemaNamespace) :
    let registry := NamespaceRegistry.ofList bindings
    let namespaces := InstanceNamespaces.enabled registry defaultPrefix
    let name : ExpandedName := ⟨some uri, localName⟩
    ((∀ element, namespaces.matchesElement (namespaces.prefixedName name) element = true ↔
        element.name = name) ↔ SpelledApart registry defaultPrefix uri) ∧
      (namespaces.namespaceFor? (namespaces.prefixFor? uri) = some uri ↔
        SpelledApart registry defaultPrefix uri ∨
          uri ≠ Xml.xmlNamespace ∧ registry.prefixFor? uri = some "" ∧ defaultPrefix = "") ∧
      (SpelledApart registry defaultPrefix uri →
        ∀ (index : SchemaIndex) mode address compilation element,
          index.namespaces = namespaces → index.compile mode address = .ok compilation →
            address.segments.head?.map Segment.name = some (namespaces.prefixedName name) →
              element.name = name →
                ∃ form, compilation.template.bind ⟨element, index.namespaces⟩ = .ok form) := by
  intro registry namespaces name
  have hdistinct : registry.Distinct := NamespaceRegistry.distinct_ofList bindings
  have hmatches : (∀ element, namespaces.matchesElement (namespaces.prefixedName name) element =
      true ↔ element.name = name) ↔ SpelledApart registry defaultPrefix uri :=
    (InstanceNamespaces.matches_prefixedName_iff hschema localName).trans
      (InstanceNamespaces.namespaceFor?_qualifier_iff hdistinct hknown localName)
  refine ⟨hmatches, InstanceNamespaces.namespaceFor?_prefixFor?_iff hdistinct hknown, ?_⟩
  intro hapart index mode address compilation element hnamespaces hcompile hfirst helement
  have helementMatches : index.namespaces.matchesElement (namespaces.prefixedName name) element =
      true := by
    rw [hnamespaces]
    exact (hmatches.mpr hapart element).mpr helement
  exact SchemaIndex.bind_isOk hcompile hfirst helementMatches

/-- A default namespace beside one that is bound to two prefixes. -/
def borrowingBindings : List (String × String) := [("", "urn:a"), ("p", "urn:b"), ("q", "urn:b")]

/-- The default namespace borrows the prefix p, which is bound to another namespace: it is read as
that one, and a document that begins with the root of a template is refused. -/
theorem borrowed_prefix_misread :
    let registry := NamespaceRegistry.ofList borrowingBindings
    let namespaces := InstanceNamespaces.enabled registry "p"
    let element : Xml.Element := ⟨⟨some "urn:a", "r"⟩, [], [], "", []⟩
    registry.Knows "urn:a" ∧ namespaces.namespaceFor? (namespaces.prefixFor? "urn:a") =
        some "urn:b" ∧
      namespaces.matchesElement (namespaces.prefixedName element.name) element = false ∧
      Template.bind ⟨.root (namespaces.prefixedName element.name), .edit, []⟩
        ⟨element, namespaces⟩ = .error ⟨"/p:r", "r"⟩ :=
  ⟨Or.inr ⟨"", by decide⟩, by decide, by decide, rfl⟩

theorem spelling_undone_iff_freeBorrowed :
    let registry := NamespaceRegistry.ofList borrowingBindings
    let namespaces := InstanceNamespaces.enabled registry "rec"
    (registry.Knows "urn:a" ∧ "urn:a" ≠ schemaNamespace) ∧
      SpelledApart registry "rec" "urn:a" ∧
      ∀ element, namespaces.matchesElement (namespaces.prefixedName ⟨some "urn:a", "r"⟩) element =
        true ↔ element.name = ⟨some "urn:a", "r"⟩ := by
  intro registry namespaces
  have hknown : registry.Knows "urn:a" := Or.inr ⟨"", by decide⟩
  have hapart : SpelledApart registry "rec" "urn:a" :=
    .borrowed (by decide) (by decide) (by decide)
  exact ⟨⟨hknown, by decide⟩, hapart,
    (spelling_undone_iff borrowingBindings "rec" "urn:a" "r" hknown (by decide)).1.mpr hapart⟩

end SchemaForms
