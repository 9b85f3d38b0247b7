import SchemaForms.Proofs.Duplicates
import SchemaForms.Proofs.Namespaces.Spelling

/-!
Filling a registry one binding after the other. A prefix keeps the place of its first binding and
the namespace of its last one, so which prefix a namespace is spelled with depends on everything
that was bound before. The first non-empty prefix of the namespace is chosen, and the empty one only
where the namespace has no other.
-/

namespace SchemaForms

namespace NamespaceRegistry

variable {registry : NamespaceRegistry} {uri qualifier : String}

theorem bindings_ofList (steps : List (String × String)) :
    (ofList steps).bindings = Keyed.putAll steps [] := by
  induction steps using List.reverseRecOn with
  | nil => rfl
  | append_singleton steps step ih =>
    rw [Keyed.putAll_concat, ← ih, ofList, List.foldl_concat, ← ofList]
    rfl

/-- The prefix is not empty and bound to the namespace, and of the prefixes that are listed before
it only the empty one may be bound to that namespace too. -/
def IsFirstPrefix (registry : NamespaceRegistry) (uri qualifier : String) : Prop :=
  qualifier ≠ "" ∧ ∃ before after, registry.bindings = before ++ (qualifier, uri) :: after ∧
    ∀ binding ∈ before, binding.2 = uri → binding.1 = ""

/-- The first of the non-empty prefixes of a namespace is the first one in the registry. -/
theorem isFirstPrefix_of_find?
    (h : (registry.prefixesOf uri).find? (· ≠ "") = some qualifier) :
    registry.IsFirstPrefix uri qualifier := by
  rw [prefixesOf, List.find?_map, List.find?_filter, Option.map_eq_some_iff] at h
  obtain ⟨⟨found, bound⟩, hfind, rfl⟩ := h
  obtain ⟨hfound, before, after, hbindings, hbefore⟩ := List.find?_eq_some_iff_append.mp hfind
  simp only [Function.comp_apply, Bool.decide_and, Bool.and_eq_true,
    decide_eq_true_eq] at hfound
  obtain ⟨rfl, hne⟩ := hfound
  refine ⟨hne, before, after, hbindings, fun binding hbinding huri => ?_⟩
  simpa [huri] using hbefore binding hbinding

theorem isFirstPrefix_of_prefixFor? (hxml : uri ≠ Xml.xmlNamespace)
    (h : registry.prefixFor? uri = some qualifier) {other : String}
    (hbound : (other, uri) ∈ registry.bindings) (hother : other ≠ "") :
    registry.IsFirstPrefix uri qualifier := by
  rw [prefixFor?_eq hxml] at h
  rcases Option.or_eq_some_iff.mp h with hfound | ⟨hnone, -⟩
  · exact isFirstPrefix_of_find? hfound
  · have hempty := List.find?_eq_none.mp hnone other (mem_prefixesOf.mpr hbound)
    simp [hother] at hempty

/-- Every prefix has one place, that of its first binding, and one namespace, that of its last. A
namespace other than the reserved one is spelled if some prefix is bound to it. The prefix is read
back as the namespace, it is the first non-empty one, and it is empty only if nothing but the
default is bound to the namespace. -/
theorem registrations_kept (steps : List (String × String))
    (hxml : ∀ step ∈ steps, step.1 ≠ "xml") :
    let registry := ofList steps
    let prefixes := registry.bindings.map Prod.fst
    (prefixes = (steps.map Prod.fst).eraseDups ∧ prefixes.Nodup ∧
        ∀ qualifier uri, (qualifier, uri) ∈ registry.bindings ↔
          steps.reverse.lookup qualifier = some uri) ∧
      ∀ uri, uri ≠ Xml.xmlNamespace →
        ((∃ qualifier, registry.prefixFor? uri = some qualifier) ↔
          ∃ qualifier, (qualifier, uri) ∈ registry.bindings) ∧
        ∀ qualifier, registry.prefixFor? uri = some qualifier →
          registry.namespaceFor? qualifier = some uri ∧
            ((∃ other, (other, uri) ∈ registry.bindings ∧ other ≠ "") →
              registry.IsFirstPrefix uri qualifier) ∧
            (qualifier = "" → ("", uri) ∈ registry.bindings ∧
              ∀ other, (other, uri) ∈ registry.bindings → other = "") := by
  intro registry prefixes
  have hdistinct : registry.Distinct := distinct_ofList steps
  have hprefixes : prefixes = (steps.map Prod.fst).eraseDups := by
    have hkeys := Keyed.keys_putAll steps
    rwa [← bindings_ofList] at hkeys
  have hlast (qualifier uri : String) : (qualifier, uri) ∈ registry.bindings ↔
      steps.reverse.lookup qualifier = some uri := by
    rw [← Keyed.lookup_eq_some_iff_mem hdistinct, bindings_ofList, Keyed.lookup_putAll,
      List.lookup_nil, Option.or_none]
  refine ⟨⟨hprefixes, hdistinct, hlast⟩, fun uri huri => ⟨⟨?_, ?_⟩, fun qualifier hfound => ?_⟩⟩
  · rintro ⟨qualifier, hfound⟩
    exact ⟨qualifier, mem_of_prefixFor? huri hfound⟩
  · exact fun hbound => exists_prefixFor? (Or.inr hbound)
  have hbound : (qualifier, uri) ∈ registry.bindings := mem_of_prefixFor? huri hfound
  have hreserved : qualifier ≠ "xml" := by
    rintro rfl
    have hstep : "xml" ∈ steps.map Prod.fst := by
      rw [← List.mem_eraseDups, ← hprefixes]
      exact List.mem_map_of_mem hbound
    obtain ⟨step, hmem, heq⟩ := List.mem_map.mp hstep
    exact hxml step hmem heq
  refine ⟨(namespaceFor?_eq_some_iff hdistinct hreserved).mpr hbound, ?_, ?_⟩
  · rintro ⟨other, hother, hne⟩
    exact isFirstPrefix_of_prefixFor? huri hfound hother hne
  · rintro rfl
    exact ⟨hbound, fun other hother => eq_empty_of_prefixFor? huri hfound hother⟩

/-- The prefix p is bound twice: it keeps its place before q and takes the namespace of q, so that
namespace is spelled with p from then on. -/
theorem registrations_kept_rebound :
    let steps := [("", "urn:a"), ("p", "urn:a"), ("q", "urn:b"), ("p", "urn:b")]
    (∀ step ∈ steps, step.1 ≠ "xml") ∧
      (ofList steps).prefixFor? "urn:b" = some "p" ∧ (ofList steps).IsFirstPrefix "urn:b" "p" ∧
      (ofList steps).namespaceFor? "p" = some "urn:b" ∧
      (ofList steps).prefixFor? "urn:a" = some "" := by
  intro steps
  have hxml : ∀ step ∈ steps, step.1 ≠ "xml" := by decide
  have hfound : (ofList steps).prefixFor? "urn:b" = some "p" := by decide
  obtain ⟨hread, hfirst, -⟩ := ((registrations_kept steps hxml).2 "urn:b" (by decide)).2 "p" hfound
  exact ⟨hxml, hfound, hfirst ⟨"q", by decide, by decide⟩, hread, by decide⟩

end NamespaceRegistry

end SchemaForms
