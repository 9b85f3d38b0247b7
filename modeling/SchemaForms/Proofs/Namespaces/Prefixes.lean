import SchemaForms.Index.Naming
import SchemaForms.Proofs.Namespaces.Spelling
import SchemaForms.Proofs.Xml.EmptyDefault

/-!
Registries that differ in the default namespace only. Their non-empty prefixes stand for the same
namespaces and are listed in the same order, so a document has the same prefix for the schema
language in both. What is written with a colon means the same in both, unless it begins with it.
-/

namespace SchemaForms

theorem Keyed.filter_put {α β : Type} [DecidableEq α] (keeps : α → Bool) (key : α) (value : β)
    (entries : List (α × β)) : (put key value entries).filter (keeps ·.1) =
      if keeps key then put key value (entries.filter (keeps ·.1))
      else entries.filter (keeps ·.1) := by
  induction entries with
  | nil => cases hkeeps : keeps key <;> simp [put, hkeeps]
  | cons entry others ih =>
    obtain ⟨held, old⟩ := entry
    by_cases hheld : held = key
    · subst hheld
      cases hkeeps : keeps held <;> simp [put, hkeeps]
    · rw [put, if_neg hheld, List.filter_cons, List.filter_cons, ih]
      cases hkeeps : keeps key <;> cases hkept : keeps held <;> simp [put, hheld]

theorem Keyed.lookup_filter {α β : Type} [DecidableEq α] (keeps : α → Bool) {key : α}
    (h : keeps key = true) (entries : List (α × β)) :
    (entries.filter (keeps ·.1)).lookup key = entries.lookup key := by
  induction entries with
  | nil => rfl
  | cons entry others ih =>
    obtain ⟨held, value⟩ := entry
    by_cases hheld : key = held
    · subst hheld
      simp [h]
    · have hne : (key == held) = false := by simpa using hheld
      rw [List.filter_cons, List.lookup_cons, hne]
      split
      · rw [List.lookup_cons, hne]
        exact ih
      · exact ih

namespace NamespaceRegistry

/-- The bindings of the prefixes that are not empty. -/
def prefixed (registry : NamespaceRegistry) : List (String × String) :=
  registry.bindings.filter (·.1 ≠ "")

variable {registry registry' : NamespaceRegistry}

theorem prefixed_ofList (bindings : List (String × String)) :
    (ofList bindings).prefixed = (ofList (bindings.filter (·.1 ≠ ""))).prefixed := by
  induction bindings using List.reverseRecOn with
  | nil => rfl
  | append_singleton bindings binding ih =>
    obtain ⟨qualifier, uri⟩ := binding
    have hput := fun registry : NamespaceRegistry =>
      Keyed.filter_put (· ≠ "") qualifier uri registry.bindings
    have hregister : ∀ steps, ofList (steps ++ [(qualifier, uri)]) =
        (ofList steps).register qualifier uri := fun steps => List.foldl_concat ..
    unfold prefixed at ih ⊢
    rw [List.filter_append, hregister, register, hput, ih]
    by_cases hempty : qualifier = ""
    · simp [hempty]
    · rw [List.filter_cons_of_pos (by simpa using hempty), List.filter_nil, hregister, register,
        hput]

/-- Only the default namespace is another one where scopes differ in nothing else. -/
theorem prefixed_ofElement {element element' : Xml.Element}
    (h : Xml.prefixedOnly element'.scope = Xml.prefixedOnly element.scope) :
    (ofElement element').prefixed = (ofElement element).prefixed := by
  have hscope : ∀ scope : List Xml.NamespaceBinding,
      (scope.map fun binding => (binding.qualifier.getD "", binding.uri)).filter (·.1 ≠ "") =
        ((Xml.prefixedOnly scope).map fun binding =>
          (binding.qualifier.getD "", binding.uri)).filter (·.1 ≠ "") := by
    intro scope
    rw [Xml.prefixedOnly, List.filter_map, List.filter_map, List.filter_filter]
    congr 1
    refine List.filter_congr fun binding _ => ?_
    cases hqualifier : binding.qualifier <;> simp [hqualifier]
  rw [ofElement, ofElement, prefixed_ofList, hscope, h, ← hscope, ← prefixed_ofList]

variable (h : registry'.prefixed = registry.prefixed)

include h

theorem namespaceFor?_eq {qualifier : String} (hne : qualifier ≠ "") :
    registry'.namespaceFor? qualifier = registry.namespaceFor? qualifier := by
  have hlookup : ∀ bindings : List (String × String),
      (bindings.filter (·.1 ≠ "")).lookup qualifier = bindings.lookup qualifier :=
    Keyed.lookup_filter (· ≠ "") (by simpa using hne)
  unfold namespaceFor?
  rw [← hlookup registry'.bindings, ← hlookup registry.bindings]
  exact congrArg (fun bindings => if qualifier = "xml" then _ else bindings.lookup qualifier) h

theorem find?_prefixesOf_eq (uri : String) :
    (registry'.prefixesOf uri).find? (· ≠ "") = (registry.prefixesOf uri).find? (· ≠ "") := by
  have hfind : ∀ registry : NamespaceRegistry, (registry.prefixesOf uri).find? (· ≠ "") =
      (registry.prefixed.find? (·.2 = uri)).map Prod.fst := by
    intro registry
    rw [prefixesOf, prefixed, List.find?_map, List.find?_filter, List.find?_filter]
    congr 2
    funext binding
    simp [and_comm]
  rw [hfind, hfind, h]

end NamespaceRegistry

/-- A document has a prefix for the schema language if it binds one that is not empty. -/
theorem SchemaDocument.schemaPrefix_eq {document document' : SchemaDocument}
    (h : document'.namespaces.prefixed = document.namespaces.prefixed) :
    document'.schemaPrefix = document.schemaPrefix := by
  have hfound : ∀ registry : NamespaceRegistry,
      (registry.prefixFor? schemaNamespace).filter (· ≠ "") =
        (registry.prefixesOf schemaNamespace).find? (· ≠ "") := by
    intro registry
    rw [NamespaceRegistry.prefixFor?_eq (by decide)]
    cases hnone : (registry.prefixesOf schemaNamespace).find? (· ≠ "") with
    | some qualifier =>
      have hne : qualifier ≠ "" := by simpa using List.find?_some hnone
      simp [hne]
    | none =>
      -- all its prefixes are empty then
      rw [Option.none_or, Option.filter_eq_none_iff]
      intro qualifier hhead
      exact List.find?_eq_none.mp hnone qualifier (List.mem_of_mem_head? hhead)
  rw [schemaPrefix, schemaPrefix, hfound, hfound, NamespaceRegistry.find?_prefixesOf_eq h]

/-- A name that does not begin with a colon is resolved without the default namespace. -/
theorem InstanceNamespaces.resolve_eq {registry registry' : NamespaceRegistry}
    (h : registry'.prefixed = registry.prefixed) (namespaces : InstanceNamespaces)
    {written : String} (hcolon : written.toList.head? ≠ some ':') :
    namespaces.resolve written registry' = namespaces.resolve written registry := by
  unfold resolve
  split
  · rfl
  · rename_i before after hcut
    have hne : String.ofList before ≠ "" := by
      intro hempty
      rw [String.ofList_eq_empty_iff] at hempty
      rw [(Text.cutFirst_eq hcut).1, hempty] at hcolon
      exact hcolon rfl
    rw [NamespaceRegistry.namespaceFor?_eq h hne]

end SchemaForms
