import SchemaForms.Proofs.Compile.Rendering
import SchemaForms.Proofs.Index.Listing

/-!
Inlined content and the nodes of the index. The content of bases and groups belongs to the element
that it is inlined in, and a template looks its nodes up there. The walk opens a base or a group
only where it is not inside it already, and it stays inside across the elements in between. So a
construct that is inlined has a node if nothing on its way is open, and it may be left without one
where an element is described inside a type or a group that its own content opens again.
-/

namespace SchemaForms

open Index

/-- Some template is made with a warning that the address is not in the index. -/
def SchemaIndex.CallsUnknown (index : SchemaIndex) (address : Address) : Prop :=
  ∃ mode start compilation, index.compile mode start = .ok compilation ∧
    ∃ entry ∈ compilation.log, ∃ missing,
      entry.note = .skipped (.unknownAddress missing) ∧ missing.schemaAddress = address

theorem SchemaIndex.not_callsUnknown {index : SchemaIndex} {address : Address}
    (h : (index.node? address).isSome) : ¬ index.CallsUnknown address := by
  rintro ⟨mode, start, compilation, hcompile, entry, hentry, missing, hnote, rfl⟩
  obtain ⟨-, -, -, hlog⟩ := renders_of_compile hcompile
  have hmissing := hlog entry hentry _ hnote missing rfl
  rw [nodeOf?] at hmissing
  simp [hmissing] at h

/-- What an inlined construct names is indexed exactly if the element offers it, and then no
template misses it. Nothing on the way to the construct being open is enough. -/
structure SchemaIndex.Describes (index : SchemaIndex) (visits : List Visit) (within : Visit)
    (entered : Path) (address : Address) : Prop where
  iff_offers : (index.node? address).isSome ↔ Offers index.scope visits within address
  of_admits : within.inner.Admits entered → (index.node? address).isSome
  not_missed : (index.node? address).isSome → ¬ index.CallsUnknown address

theorem SchemaIndex.Lists.describes {index : SchemaIndex} {roots : List ExpandedName}
    {visits : List Visit} (h : index.Lists roots visits) {node : SchemaNode}
    (hnode : node ∈ index.nodes) (helement : node.kind = .element)
    (hexpanded : node.isRecursive = false) :
    ∃ within ∈ visits, within.node = node.bare ∧ ∀ complex construct entered found address,
      (index.set.types.definition node.type).complex? = some complex →
      construct ∈ complex.content →
      index.set.Inlines ⟨none, construct⟩ entered found →
      Names index.scope node.address found.construct address →
        index.Describes visits within entered address := by
  obtain ⟨within, hwithin, hbare⟩ := h.exists_visit hnode
  refine ⟨within, hwithin, hbare, ?_⟩
  intro complex construct entered found address hcomplex hconstruct hinlines hnames
  have hne := (h.history.sound within hwithin).ne_nil
  have hholds : within.inner.Admits entered →
      within.Holds index.scope (entered.append within.inner) found := by
    intro hadmits
    refine ⟨?_, ?_, complex, construct, entered, ?_, hconstruct, hinlines, hadmits, rfl⟩
    · rw [hbare]
      exact helement
    · rw [hbare]
      exact hexpanded
    · rw [hbare]
      exact hcomplex
  have hwithinNames : Names index.scope within.node.address found.construct address := by
    rw [hbare]
    exact hnames
  have hiff := h.isSome_node?_iff_offers hwithin (hwithinNames.parent? hne)
  exact ⟨hiff, fun hadmits => hiff.mpr (.content (hholds hadmits) hwithinNames), not_callsUnknown⟩

section Bases

/-- A construct is part of the content of a base, found from an extension of the base. -/
def SchemaSet.Inherits (set : SchemaSet) (base : TypeRef) (entered : Path) (found : Placed) :
    Prop :=
  ∃ first middle inner, (first, middle) ∈ set.inherited .extension base ∧
    set.Inlines middle inner found ∧ entered = inner.append first

/-- The content that an extension inherits is indexed below the element exactly as far as the
element offers it. -/
theorem inherited_indexed_iff {set : SchemaSet} {namespaces : InstanceNamespaces}
    {roots : List ExpandedName} {index : SchemaIndex}
    (hbuild : SchemaIndex.build set namespaces roots = .ok index) :
    ∃ visits, index.Lists roots visits ∧ ∀ node ∈ index.nodes, node.kind = .element →
      node.isRecursive = false → ∃ within ∈ visits, within.node = node.bare ∧
        ∀ complex base children entered found address,
          (set.types.definition node.type).complex? = some complex →
          .complexContent .extension base children ∈ complex.content →
          set.Inherits base entered found →
          Names ⟨set, namespaces⟩ node.address found.construct address →
            index.Describes visits within entered address := by
  obtain ⟨rfl, rfl, visits, hlists⟩ := SchemaIndex.exists_lists hbuild
  refine ⟨visits, hlists, fun node hnode helement hexpanded => ?_⟩
  obtain ⟨within, hwithin, hbare, hdescribes⟩ := hlists.describes hnode helement hexpanded
  refine ⟨within, hwithin, hbare, ?_⟩
  intro complex base children entered found address hcomplex hderivation hinherits hnames
  obtain ⟨first, middle, inner, hmem, hinner, rfl⟩ := hinherits
  have hinlines : index.set.Inlines ⟨none, .complexContent .extension base children⟩
      (inner.append first) found := .opened (List.mem_append_left _ hmem) hinner
  exact hdescribes complex _ _ found address hcomplex hderivation hinlines hnames

/-- A type that extends its base is used for an element in the content of the base. -/
def extendedInside : SchemaSet :=
  .declaring [.builtin (schemaName "string"),
    .containing [.compositor .sequence .once
      [.particle "x" (.anonymous ⟨0⟩) .once, .particle "e" (.anonymous ⟨2⟩) ⟨0, .count 1⟩]],
    .containing [.complexContent .extension (.anonymous ⟨1⟩)
      [.compositor .sequence .once [.particle "y" (.anonymous ⟨0⟩) .once]]]]
    [.unqualified "r" (.anonymous ⟨1⟩), .unqualified "q" (.anonymous ⟨2⟩)]

def extendedInsideIndex : SchemaIndex :=
  (SchemaIndex.build extendedInside .disabled [⟨none, "r"⟩, ⟨none, "q"⟩]).toOption.getD default

theorem inherits_extendedInside :
    extendedInside.Inherits (.anonymous ⟨1⟩) (.ofType ⟨1⟩)
      ⟨some ⟨.sequence, .once, false⟩, .particle "x" (.anonymous ⟨0⟩) .once⟩ :=
  ⟨_, _, _, List.mem_cons_self, .opened List.mem_cons_self (.itself _), rfl⟩

/-- Below an element of the derived type inside the base, what the base declares has no node. -/
theorem inherited_not_indexed :
    SchemaIndex.build extendedInside .disabled [⟨none, "r"⟩, ⟨none, "q"⟩] =
        .ok extendedInsideIndex ∧
      extendedInsideIndex.warnings = [] ∧
      ∃ node ∈ extendedInsideIndex.nodes, node.kind = .element ∧ node.isRecursive = false ∧
        ∃ complex base children entered found address,
          (extendedInside.types.definition node.type).complex? = some complex ∧
          .complexContent .extension base children ∈ complex.content ∧
          extendedInside.Inherits base entered found ∧
          Names ⟨extendedInside, .disabled⟩ node.address found.construct address ∧
          extendedInsideIndex.node? address = none ∧
          extendedInsideIndex.CallsUnknown address := by
  have hbuild : SchemaIndex.build extendedInside .disabled [⟨none, "r"⟩, ⟨none, "q"⟩] =
      .ok extendedInsideIndex := rfl
  let parent : Address := (Address.root (.unprefixed "r")).child (.unprefixed "e")
  let missing : Address := parent.child (.unprefixed "x")
  have hfound : (extendedInsideIndex.node? parent).isSome := by decide
  let node := (extendedInsideIndex.node? parent).get hfound
  have hnode : node ∈ extendedInsideIndex.nodes :=
    List.mem_of_find?_eq_some (Option.some_get hfound).symm
  have hmissing : extendedInsideIndex.node? missing = none := by decide
  have hunknown : extendedInsideIndex.CallsUnknown missing := by
    refine ⟨.display, parent, _, SchemaIndex.compile_of_ended (by decide) (by decide),
      ⟨missing, .skipped (.unknownAddress missing)⟩, ?_, missing, rfl, rfl⟩
    decide
  exact ⟨hbuild, by decide, node, hnode, rfl, rfl, _, _, _, _, _, missing, rfl,
    List.mem_cons_self, inherits_extendedInside, .element rfl rfl rfl, hmissing, hunknown⟩

theorem inherited_indexed_iff_extendedInside :
    SchemaIndex.build extendedInside .disabled [⟨none, "r"⟩, ⟨none, "q"⟩] =
        .ok extendedInsideIndex ∧
      ∃ visits, extendedInsideIndex.Lists [⟨none, "r"⟩, ⟨none, "q"⟩] visits ∧
        ∃ within ∈ visits, within.node.address = .root (.unprefixed "q") ∧
          extendedInsideIndex.Describes visits within (.ofType ⟨1⟩)
            ((Address.root (.unprefixed "q")).child (.unprefixed "x")) := by
  have hbuild : SchemaIndex.build extendedInside .disabled [⟨none, "r"⟩, ⟨none, "q"⟩] =
      .ok extendedInsideIndex := rfl
  obtain ⟨visits, hlists, hdescribes⟩ := inherited_indexed_iff hbuild
  have hfound : (extendedInsideIndex.node? (.root (.unprefixed "q"))).isSome := by decide
  let node := (extendedInsideIndex.node? (.root (.unprefixed "q"))).get hfound
  have hnode : node ∈ extendedInsideIndex.nodes :=
    List.mem_of_find?_eq_some (Option.some_get hfound).symm
  obtain ⟨within, hwithin, hbare, hinherited⟩ := hdescribes node hnode rfl rfl
  have haddress : within.node.address = .root (.unprefixed "q") := by
    rw [hbare]
    rfl
  refine ⟨hbuild, visits, hlists, within, hwithin, haddress, ?_⟩
  exact hinherited _ _ _ _ _ _ rfl List.mem_cons_self inherits_extendedInside
    (.element rfl rfl rfl)

end Bases

section Groups

/-- A construct is part of a group, or of a group that is nested in it, found from a reference. -/
def SchemaSet.Contributes (set : SchemaSet) (reference : Placed) (entered : Path)
    (found : Placed) : Prop :=
  ((∃ name occurs, reference.construct = .group name occurs) ∨
    ∃ name, reference.construct = .attributeGroup name) ∧ set.Inlines reference entered found

/-- What the groups in the content of an element contribute is indexed below the element exactly as
far as the element offers it. -/
theorem contributed_indexed_iff {set : SchemaSet} {namespaces : InstanceNamespaces}
    {roots : List ExpandedName} {index : SchemaIndex}
    (hbuild : SchemaIndex.build set namespaces roots = .ok index) :
    ∃ visits, index.Lists roots visits ∧ ∀ node ∈ index.nodes, node.kind = .element →
      node.isRecursive = false → ∃ within ∈ visits, within.node = node.bare ∧
        ∀ complex construct outer reference inner found address,
          (set.types.definition node.type).complex? = some complex →
          construct ∈ complex.content →
          set.Inlines ⟨none, construct⟩ outer reference →
          set.Contributes reference inner found →
          Names ⟨set, namespaces⟩ node.address found.construct address →
            index.Describes visits within (inner.append outer) address := by
  obtain ⟨rfl, rfl, visits, hlists⟩ := SchemaIndex.exists_lists hbuild
  refine ⟨visits, hlists, fun node hnode helement hexpanded => ?_⟩
  obtain ⟨within, hwithin, hbare, hdescribes⟩ := hlists.describes hnode helement hexpanded
  refine ⟨within, hwithin, hbare, ?_⟩
  intro complex construct outer reference inner found address hcomplex hconstruct houter
    hcontributes hnames
  have hinlines := houter.trans hcontributes.2
  exact hdescribes complex construct _ found address hcomplex hconstruct hinlines hnames

/-- An element in a group has a type that uses the group and an attribute group of the same name. -/
def groupInside : SchemaSet :=
  { SchemaSet.declaring [.builtin (schemaName "string"),
      .containing [.group ⟨none, "g"⟩ .once],
      .containing [.attributeGroup ⟨none, "g"⟩, .group ⟨none, "g"⟩ .once]]
      [.unqualified "r" (.anonymous ⟨1⟩)] with
    attributeGroups := [(⟨none, "g"⟩, ⟨⟨none, "g"⟩, 0,
      [.attributeUse ⟨⟨none, "a"⟩, "a", 0, false, .anonymous ⟨0⟩, false⟩]⟩)]
    modelGroups := [(⟨none, "g"⟩, ⟨⟨none, "g"⟩, 0, .sequence, .once,
      [.particle "x" (.anonymous ⟨0⟩) .once, .particle "e" (.anonymous ⟨2⟩) ⟨0, .count 1⟩]⟩)] }

def groupInsideIndex : SchemaIndex :=
  (SchemaIndex.build groupInside .disabled [⟨none, "r"⟩]).toOption.getD default

theorem contributes_groupInside (context : Option CompositorContext) :
    groupInside.Contributes ⟨context, .group ⟨none, "g"⟩ .once⟩ (.ofGroup ⟨none, "g"⟩)
      ⟨some ⟨.sequence, .once, false⟩, .particle "x" (.anonymous ⟨0⟩) .once⟩ :=
  ⟨Or.inl ⟨_, _, rfl⟩, SchemaSet.inlines_of_opened List.mem_cons_self⟩

/-- Below the element inside the group neither the members of the group nor the attributes of the
other group have nodes. -/
theorem contributed_not_indexed :
    SchemaIndex.build groupInside .disabled [⟨none, "r"⟩] = .ok groupInsideIndex ∧
      groupInsideIndex.warnings = [] ∧
      ∃ node ∈ groupInsideIndex.nodes, node.kind = .element ∧ node.isRecursive = false ∧
        ∃ complex members attributes member use entered first second,
          (groupInside.types.definition node.type).complex? = some complex ∧
          members ∈ complex.content ∧ attributes ∈ complex.content ∧
          groupInside.Contributes ⟨none, members⟩ entered member ∧
          groupInside.Contributes ⟨none, attributes⟩ entered use ∧
          Names ⟨groupInside, .disabled⟩ node.address member.construct first ∧
          Names ⟨groupInside, .disabled⟩ node.address use.construct second ∧
          groupInsideIndex.node? first = none ∧ groupInsideIndex.CallsUnknown first ∧
          groupInsideIndex.node? second = none ∧ groupInsideIndex.CallsUnknown second := by
  have hbuild : SchemaIndex.build groupInside .disabled [⟨none, "r"⟩] = .ok groupInsideIndex := rfl
  let parent : Address := (Address.root (.unprefixed "r")).child (.unprefixed "e")
  let first : Address := parent.child (.unprefixed "x")
  let second : Address := parent.attr (.unprefixed "a")
  have hfound : (groupInsideIndex.node? parent).isSome := by decide
  let node := (groupInsideIndex.node? parent).get hfound
  have hnode : node ∈ groupInsideIndex.nodes :=
    List.mem_of_find?_eq_some (Option.some_get hfound).symm
  have huse : groupInside.Contributes ⟨none, .attributeGroup ⟨none, "g"⟩⟩
      (.ofGroup ⟨none, "g"⟩) _ := ⟨Or.inr ⟨_, rfl⟩, SchemaSet.inlines_of_opened List.mem_cons_self⟩
  have hcompile : groupInsideIndex.compile .display parent = .ok _ :=
    SchemaIndex.compile_of_ended (by decide) (by decide)
  have hfirst : groupInsideIndex.CallsUnknown first := by
    refine ⟨.display, parent, _, hcompile, ⟨first, .skipped (.unknownAddress first)⟩, ?_, first,
      rfl, rfl⟩
    decide
  have hsecond : groupInsideIndex.CallsUnknown second := by
    refine ⟨.display, parent, _, hcompile, ⟨second, .skipped (.unknownAddress second)⟩, ?_, second,
      rfl, rfl⟩
    decide
  exact ⟨hbuild, by decide, node, hnode, rfl, rfl, _, _, _, _, _, _, first, second, rfl,
    List.mem_cons_of_mem _ List.mem_cons_self, List.mem_cons_self, contributes_groupInside none,
    huse, .element rfl rfl rfl, .attributeUse rfl rfl, by decide, hfirst, by decide, hsecond⟩

theorem contributed_indexed_iff_groupInside :
    SchemaIndex.build groupInside .disabled [⟨none, "r"⟩] = .ok groupInsideIndex ∧
      ∃ visits, groupInsideIndex.Lists [⟨none, "r"⟩] visits ∧
        ∃ within ∈ visits, within.node.address = .root (.unprefixed "r") ∧
          groupInsideIndex.Describes visits within (.ofGroup ⟨none, "g"⟩)
            ((Address.root (.unprefixed "r")).child (.unprefixed "x")) := by
  have hbuild : SchemaIndex.build groupInside .disabled [⟨none, "r"⟩] = .ok groupInsideIndex := rfl
  obtain ⟨visits, hlists, hdescribes⟩ := contributed_indexed_iff hbuild
  have hfound : (groupInsideIndex.node? (.root (.unprefixed "r"))).isSome := by decide
  let node := (groupInsideIndex.node? (.root (.unprefixed "r"))).get hfound
  have hnode : node ∈ groupInsideIndex.nodes :=
    List.mem_of_find?_eq_some (Option.some_get hfound).symm
  obtain ⟨within, hwithin, hbare, hcontributed⟩ := hdescribes node hnode rfl rfl
  have haddress : within.node.address = .root (.unprefixed "r") := by
    rw [hbare]
    rfl
  refine ⟨hbuild, visits, hlists, within, hwithin, haddress, ?_⟩
  exact hcontributed _ _ ⟨[], []⟩ _ _ _ _ rfl List.mem_cons_self (.itself _)
    (contributes_groupInside none) (.element rfl rfl rfl)

end Groups

end SchemaForms
