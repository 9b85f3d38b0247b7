import SchemaForms.Index.Naming
import SchemaForms.Proofs.Namespaces.Spelling
import SchemaForms.Proofs.Schema.Loading

/-!
The two resolutions of a reference. The loader resolves a reference where it is written, with the
namespaces in scope there. The name that stands for it in addresses is found by resolving the
spelling once more, with the namespaces at the top of the document, unless no prefix is written.
Under all namespaces of instances both lead to the same name exactly if the prefix is bound on top
to the namespace that it has at the reference, and ends at the only colon. A prefix that is declared
further inside is unknown on top, or worse, bound there to another namespace.
-/

namespace SchemaForms

theorem Text.exists_cutFirst {separator : Char} {cs : List Char} (h : separator ∈ cs) :
    ∃ before after, Text.cutFirst separator cs = some (before, after) := by
  induction cs with
  | nil => exact nomatch h
  | cons c cs ih =>
    by_cases hc : c = separator
    · exact ⟨[], cs, by simp [Text.cutFirst, hc]⟩
    · obtain ⟨before, after, hcut⟩ := ih ((List.mem_cons.mp h).resolve_left (Ne.symm hc))
      exact ⟨c :: before, after, by simp [Text.cutFirst, hc, hcut]⟩

theorem Text.exists_cutLast {separator : Char} {cs : List Char} (h : separator ∈ cs) :
    ∃ before after, Text.cutLast separator cs = some (before, after) := by
  induction cs with
  | nil => exact nomatch h
  | cons c cs ih =>
    cases hcut : Text.cutLast separator cs with
    | some parts => exact ⟨c :: parts.1, parts.2, by simp [Text.cutLast, hcut]⟩
    | none =>
      have hc : c = separator := by
        by_contra hne
        obtain ⟨before, after, hfound⟩ := ih ((List.mem_cons.mp h).resolve_left (Ne.symm hne))
        rw [hcut] at hfound
        exact nomatch hfound
      exact ⟨[], cs, by simp [Text.cutLast, hcut, hc]⟩

/-- A reference with a prefix always has a namespace. -/
theorem ExpandedName.exists_namespace_of_resolve {written : String} {element : Xml.Element}
    {name : ExpandedName} (hcolon : ':' ∈ written.toList)
    (h : ExpandedName.resolve written element = .ok name) :
    ∃ uri, name.namespaceName = some uri := by
  obtain ⟨before, after, hcut⟩ := Text.exists_cutLast hcolon
  simp only [ExpandedName.resolve, hcut] at h
  split at h
  · rename_i uri _
    obtain rfl := Except.ok.inj h
    exact ⟨uri, rfl⟩
  · exact nomatch h

namespace InstanceNamespaces

variable {uri other localName otherLocal : String}

theorem prefixedName_disabled (hxml : uri ≠ Xml.xmlNamespace) (localName : String) :
    disabled.prefixedName ⟨some uri, localName⟩ = ⟨none, localName⟩ := by
  simp [prefixedName, PrefixedName.make, prefixFor?, hxml]

theorem prefixedName_reserved (namespaces : InstanceNamespaces) (localName : String) :
    namespaces.prefixedName ⟨some Xml.xmlNamespace, localName⟩ = ⟨some "xml", localName⟩ := by
  simp [prefixedName, PrefixedName.make, prefixFor?]

/-- One namespace has a prefix. -/
def only (uri : String) : InstanceNamespaces := .enabled (.ofList [("p", uri)]) ""

theorem prefixedName_only (hxml : other ≠ Xml.xmlNamespace) (localName : String) :
    (only uri).prefixedName ⟨some other, localName⟩ =
      ⟨if uri = other then some "p" else none, localName⟩ := by
  by_cases h : uri = other <;>
    simp [prefixedName, PrefixedName.make, only, prefixFor?, hxml, NamespaceRegistry.prefixFor?,
      NamespaceRegistry.ofList, NamespaceRegistry.register, NamespaceRegistry.empty, Keyed.put, h]

/-- Only names of the reserved namespace are spelled alike under all namespaces. -/
theorem eq_reserved_of_forall {name : PrefixedName}
    (h : ∀ namespaces : InstanceNamespaces, name = namespaces.prefixedName ⟨some uri, localName⟩) :
    name = ⟨some "xml", localName⟩ := by
  by_cases hxml : uri = Xml.xmlNamespace
  · rw [h .disabled, hxml, prefixedName_reserved]
  · have hnone := h .disabled
    have hsome := h (only uri)
    rw [prefixedName_disabled hxml] at hnone
    rw [prefixedName_only hxml, if_pos rfl, hnone] at hsome
    exact nomatch congrArg PrefixedName.qualifier hsome

/-- Names that are spelled like one another under all namespaces are the same. -/
theorem prefixedName_injective (h : ∀ namespaces : InstanceNamespaces,
    namespaces.prefixedName ⟨some uri, localName⟩ =
      namespaces.prefixedName ⟨some other, otherLocal⟩) :
    uri = other ∧ localName = otherLocal := by
  refine ⟨?_, congrArg PrefixedName.localName (h .disabled)⟩
  by_cases hxml : uri = Xml.xmlNamespace
  · by_contra hne
    have hother : other ≠ Xml.xmlNamespace := fun heq => hne (hxml.trans heq.symm)
    have hspelled := h .disabled
    rw [hxml, prefixedName_reserved, prefixedName_disabled hother] at hspelled
    exact nomatch congrArg PrefixedName.qualifier hspelled
  · by_contra hne
    have hspelled := congrArg PrefixedName.qualifier (h (only uri))
    by_cases hother : other = Xml.xmlNamespace
    · rw [hother, prefixedName_reserved, prefixedName_only hxml, if_pos rfl] at hspelled
      exact absurd hspelled (by simp)
    · rw [prefixedName_only hxml, prefixedName_only hother, if_pos rfl, if_neg hne] at hspelled
      exact nomatch hspelled

end InstanceNamespaces

/-- A written name means a name here: its first colon ends a prefix that is bound to the namespace,
and what follows is the local part. -/
def NamespaceRegistry.Means (scope : NamespaceRegistry) (written : String) (name : ExpandedName) :
    Prop :=
  ∃ before, Text.cutFirst ':' written.toList = some (before, name.localName.toList) ∧
    scope.namespaceFor? (String.ofList before) = name.namespaceName

/-- What a spelling with a prefix is resolved to is the spelling of the name, whatever namespaces
there are, exactly if the spelling means the name. -/
theorem InstanceNamespaces.resolve_iff_means {written uri : String} {scope : NamespaceRegistry}
    {name : ExpandedName} (hcolon : ':' ∈ written.toList) (huri : name.namespaceName = some uri)
    (hbuiltin : name.isBuiltin = false) :
    (∀ namespaces : InstanceNamespaces,
      namespaces.resolve written scope = .ok (namespaces.prefixedName name)) ↔
        scope.Means written name := by
  obtain ⟨before, after, hcut⟩ := Text.exists_cutFirst hcolon
  obtain ⟨namespaceName, localName⟩ := name
  obtain rfl : namespaceName = some uri := huri
  constructor
  · intro h
    simp only [resolve, hcut] at h
    cases hbound : scope.namespaceFor? (String.ofList before) with
    | none =>
      rw [hbound] at h
      cases h .disabled
    | some found =>
      simp only [hbound, Except.ok.injEq] at h
      by_cases hfound : (ExpandedName.ofNamespace found (String.ofList after)).isBuiltin = true
      · -- The spelling is kept as it is, so the prefix is the reserved one, and that is not bound
        -- to the namespace of the schema language.
        simp only [if_pos hfound] at h
        have hreserved := eq_reserved_of_forall h
        have hqualifier : String.ofList before = "xml" := by
          have hparsed := congrArg PrefixedName.qualifier hreserved
          simp only [PrefixedName.parse, hcut, PrefixedName.make] at hparsed
          exact (Option.filter_eq_some_iff.mp hparsed).1 |> Option.some.inj
        rw [hqualifier, NamespaceRegistry.namespaceFor?, if_pos rfl] at hbound
        obtain rfl := Option.some.inj hbound
        exact absurd hfound (by simp [ExpandedName.isBuiltin, ExpandedName.ofNamespace]; decide)
      · simp only [if_neg hfound] at h
        obtain ⟨rfl, rfl⟩ := prefixedName_injective h
        exact ⟨before, by rw [hcut, String.toList_ofList], hbound⟩
  · rintro ⟨before, hcut, hbound⟩ namespaces
    simp only [resolve, hcut, hbound, String.ofList_toList]
    have hname : (ExpandedName.ofNamespace uri localName).isBuiltin = false := hbuiltin
    rw [hname]
    rfl

namespace SchemaSet

/-- The references to elements: what they mean, how they are written and in which document. -/
def elementReferences (set : SchemaSet) : List (ExpandedName × String × DocumentId) :=
  set.constructs.filterMap fun
    | .element (.globally name written document) _ => some (name, written, document)
    | _ => none

/-- The references to attributes, in types and groups or at the top of a document. -/
def attributeReferences (set : SchemaSet) : List AttributeDeclaration :=
  (set.constructs.filterMap (fun
    | .attributeUse use => some use
    | _ => none) ++ set.attributes.map Prod.snd).filter (·.isReference)

variable {R : ExpandedName → String → DocumentId → Prop} {set : SchemaSet}

theorem AllRefer.elementReferences (h : set.AllRefer R) {name : ExpandedName} {written : String}
    {document : DocumentId} (hmem : (name, written, document) ∈ set.elementReferences) :
    R name written document := by
  obtain ⟨construct, hconstruct, hreference⟩ := List.mem_filterMap.mp hmem
  have hrefers := h.constructs construct hconstruct
  split at hreference
  · obtain ⟨rfl, rfl, rfl⟩ := by simpa using hreference
    exact hrefers
  · exact nomatch hreference

theorem AllRefer.attributeReferences (h : set.AllRefer R) {use : AttributeDeclaration}
    (hmem : use ∈ set.attributeReferences) : R use.name use.written use.document := by
  obtain ⟨hmem, href⟩ := List.mem_filter.mp hmem
  rcases List.mem_append.mp hmem with hinside | hglobal
  · obtain ⟨construct, hconstruct, huse⟩ := List.mem_filterMap.mp hinside
    have hrefers := h.constructs construct hconstruct
    split at huse
    · obtain rfl := Option.some.inj huse
      exact hrefers href
    · exact nomatch huse
  · obtain ⟨entry, hentry, rfl⟩ := List.mem_map.mp hglobal
    exact h.attributes entry hentry href

end SchemaSet

theorem Loader.Reads.exists_namespace {loader : Loader} {name : ExpandedName} {written : String}
    {document : DocumentId} (h : loader.Reads name written document)
    (hcolon : ':' ∈ written.toList) : ∃ uri, name.namespaceName = some uri := by
  obtain ⟨source, root, -, -, element, value, -, -, -, hresolve⟩ := h
  exact ExpandedName.exists_namespace_of_resolve hcolon hresolve

/-- Whatever was loaded, every reference was resolved in the document that it stands in, at the
element that it is written at. Outside of the schema language, it is named in addresses by what it
was resolved to, under all namespaces of instances, exactly if it has no prefix or the namespaces at
the top of the document give it that meaning too. The attributes that are referred to without prefix
are not qualified. -/
theorem resolutions_agree_iff {loader : Loader} (hloaded : loader.Loaded) :
    (∀ name written document, (name, written, document) ∈ loader.set.elementReferences →
      loader.Reads name written document ∧
        (name.isBuiltin = false →
          ((∀ namespaces, loader.set.elementName namespaces (.globally name written document) =
              .ok (namespaces.prefixedName name)) ↔
            (':' ∈ written.toList →
              (loader.set.document document).namespaces.Means written name)))) ∧
      ∀ use ∈ loader.set.attributeReferences,
        loader.Reads use.name use.written use.document ∧
          (use.name.isBuiltin = false → ':' ∈ use.written.toList →
            ((∀ namespaces, loader.set.attributeName namespaces use =
                .ok (namespaces.prefixedName use.name)) ↔
              (loader.set.document use.document).namespaces.Means use.written use.name)) := by
  have hrefers := hloaded.allRefer
  constructor
  · intro name written document hmem
    have hreads := hrefers.elementReferences hmem
    refine ⟨hreads, fun hbuiltin => ?_⟩
    by_cases hcolon : ':' ∈ written.toList
    · obtain ⟨uri, huri⟩ := hreads.exists_namespace hcolon
      simp only [SchemaSet.elementName, hbuiltin, Bool.false_eq_true, if_false,
        List.contains_iff_mem.mpr hcolon, if_true]
      rw [InstanceNamespaces.resolve_iff_means hcolon huri hbuiltin]
      exact ⟨fun hmeans _ => hmeans, fun h => h hcolon⟩
    · refine iff_of_true (fun namespaces => ?_) fun h => absurd h hcolon
      simp [SchemaSet.elementName, hbuiltin, hcolon]
  · intro use hmem
    have hreads := hrefers.attributeReferences hmem
    refine ⟨hreads, fun hbuiltin hcolon => ?_⟩
    obtain ⟨uri, huri⟩ := hreads.exists_namespace hcolon
    simp only [SchemaSet.attributeName, List.contains_iff_mem.mpr hcolon, if_true]
    exact InstanceNamespaces.resolve_iff_means hcolon huri hbuiltin

/-- A group with a reference to an element, and declarations at the top of the document and at the
reference. -/
def referringSchema (top inside : String) : SchemaSource where
  location := "main.xsd"
  text := "<s:schema xmlns:s=\"http://www.w3.org/2001/XMLSchema\"" ++ top ++
    " targetNamespace=\"a\"><s:element name=\"x\"/><s:group name=\"g\"><s:all><s:element" ++
    inside ++ " ref=\"p:x\"/></s:all></s:group></s:schema>"

/-- The prefix is declared at the reference only, or else means another namespace on top. The
loader finds the element, but the reference has no name, or that of another element. -/
theorem resolutions_differ :
    let name : ExpandedName := ⟨some "a", "x"⟩
    let inner := ((Loader.new [] false).load (referringSchema "" " xmlns:p=\"a\"")).2.set
    let shadowed := ((Loader.new [] false).load
      (referringSchema " xmlns:p=\"b\"" " xmlns:p=\"a\"")).2.set
    let namespaces : InstanceNamespaces := .enabled (.ofList [("m", "a"), ("n", "b")]) "ns"
    (inner.element? name).isSome = true ∧ (name, "p:x", 0) ∈ inner.elementReferences ∧
      inner.elementName .disabled (.globally name "p:x" 0) = .error (.unresolvedPrefix "p") ∧
      (name, "p:x", 0) ∈ shadowed.elementReferences ∧
      shadowed.elementName namespaces (.globally name "p:x" 0) = .ok ⟨some "n", "x"⟩ ∧
      namespaces.prefixedName name = ⟨some "m", "x"⟩ := by
  decide +kernel

theorem resolutions_agree_iff_declaredOnTop :
    let name : ExpandedName := ⟨some "a", "x"⟩
    let loader := ((Loader.new [] false).load (referringSchema " xmlns:p=\"a\"" "")).2
    loader.Loaded ∧ (name, "p:x", 0) ∈ loader.set.elementReferences ∧
      ∀ namespaces, loader.set.elementName namespaces (.globally name "p:x" 0) =
        .ok (namespaces.prefixedName name) := by
  intro name loader
  have hloaded : loader.Loaded := .load (.new [] false) _
  have hread : (name, "p:x", 0) ∈ loader.set.elementReferences ∧
      (loader.set.document 0).namespaces.namespaceFor? "p" = some "a" := by
    decide +kernel
  have hagree := ((resolutions_agree_iff hloaded).1 name "p:x" 0 hread.1).2 (by decide)
  exact ⟨hloaded, hread.1, hagree.mpr fun _ => ⟨['p'], by decide, hread.2⟩⟩

end SchemaForms
