import SchemaForms.Compile.Shape
import SchemaForms.Proofs.Index.Layers

/-!
Elements that are declared where they stand. The members of substitution groups are found by the
name of the head alone, so a local declaration is taken for the global element of its name: other
elements stand in for it, and are described beside it, exactly if declared elements are registered
as members under that name. Only without them is it shown by its own type.
-/

namespace SchemaForms

open Index

/-- No element that is declared is a member of the substitution group of the name. -/
def SchemaSet.StandsAlone (set : SchemaSet) (name : ExpandedName) : Prop :=
  ∀ member ∈ set.substitutionMembers name, set.element? member = none

/-- The node is the one that a walk describes when it comes to a local declaration in the content of
an element. -/
structure SchemaIndex.IndexesLocal (index : SchemaIndex) (node : SchemaNode)
    (declaration : ElementDeclaration) : Prop where
  indexed : index.nodeOf? node.address = some node
  described : ∃ above ∈ index.nodes, ∃ outer path context occurs name type,
    (Visit.mk above.bare outer).Holds index.scope path
        ⟨context, .element (.locally declaration) occurs⟩ ∧
      index.elementName (.locally declaration) = .ok name ∧
      index.set.types.resolve? declaration.type = some type ∧
      node.bare = elementNode index.scope path (above.address.child name) declaration type occurs
        context

namespace Index

variable {scope : Scope} {declaration : ElementDeclaration}

theorem standIns_eq_nil_iff {head : ExpandedName} :
    standIns scope head = [] ↔ scope.set.StandsAlone head := by
  simp [standIns, SchemaSet.StandsAlone]

theorem memberNames_eq_nil_iff :
    memberNames scope declaration = [] ↔ scope.set.StandsAlone declaration.name := by
  rw [← standIns_eq_nil_iff]
  unfold memberNames
  cases hothers : standIns scope declaration.name with
  | nil => simp
  | cons first others => cases declaration.isAbstract <;> simp

end Index

namespace SchemaIndex

variable {index : SchemaIndex} {roots : List ExpandedName} {visits : List Visit}

namespace Lists

/-- Every node is found at its own address. -/
theorem nodeOf?_address (h : index.Lists roots visits) {node : SchemaNode}
    (hnode : node ∈ index.nodes) : index.nodeOf? node.address = some node := by
  obtain ⟨visit, hvisit, hbare⟩ := h.exists_visit hnode
  have haddress : visit.node.address = node.address := by rw [hbare]; rfl
  have hschema := (h.history.sound visit hvisit).schemaAddress
  obtain ⟨found, hfound, -⟩ := h.exists_node? hvisit
  rw [haddress] at hschema hfound
  have hsame : found.address = node.address := by simpa using List.find?_some hfound
  have haddresses : index.nodes.map SchemaNode.address = addresses visits := by
    have hnodes := congrArg (List.map SchemaNode.address) h.nodes
    rwa [List.map_map, List.map_map] at hnodes
  have hnodup : (index.nodes.map SchemaNode.address).Nodup :=
    haddresses ▸ h.history.addresses_nodup
  obtain rfl :=
    List.inj_on_of_nodup_map hnodup (List.mem_of_find?_eq_some hfound) hnode hsame
  rw [nodeOf?, hschema, hfound]

/-- Every element that is indexed is declared where it stands or is a global one. -/
theorem local_or_global (h : index.Lists roots visits) {node : SchemaNode}
    (hnode : node ∈ index.nodes) (helement : node.kind = .element) :
    (∃ declaration, index.IndexesLocal node declaration) ∨
      ∃ name declaration, index.set.element? name = some declaration ∧
        node.name = declaration.name ∧ node.members = memberNames index.scope declaration := by
  obtain ⟨visit, hvisit, hbare⟩ := h.exists_visit hnode
  have hnamed : visit.node.name = node.name := by rw [hbare]; rfl
  have hmembers : visit.node.members = node.members := by rw [hbare]; rfl
  have hkind : visit.node.kind = .element := by rw [hbare]; exact helement
  cases h.history.follows_of_mem visit hvisit with
  | root hroot hdeclaration htype =>
    exact Or.inr ⟨_, _, hdeclaration, hnamed.symm, hmembers.symm⟩
  | @element within path context reference occurs name declaration type hwithin hholds hname
      hdeclaration htype =>
    cases reference with
    | locally own =>
      obtain rfl := Option.some.inj hdeclaration
      obtain ⟨above, habove, hbareAbove⟩ := h.exists_node? hwithin
      refine Or.inl ⟨own, h.nodeOf?_address hnode, above, List.mem_of_find?_eq_some habove,
        within.path, path, context, occurs, name, type, ?_, hname, htype, ?_⟩
      · rwa [hbareAbove]
      · have haddress : above.address = within.node.address := by rw [← hbareAbove]; rfl
        rw [← hbare, haddress]
    | globally global written document =>
      exact Or.inr ⟨_, _, hdeclaration, hnamed.symm, hmembers.symm⟩
  | attributeUse => exact absurd hkind (by simp [attributeNode])
  | wildcard => exact absurd hkind (by simp [wildcardNode])
  | standIn hhead _ hparent hmember htype =>
    obtain ⟨name, -, hmember⟩ := List.mem_filterMap.mp hmember
    obtain ⟨declaration, hdeclaration, heq⟩ := Option.map_eq_some_iff.mp hmember
    obtain ⟨rfl, rfl⟩ := Prod.mk.inj heq
    exact Or.inr ⟨_, _, hdeclaration, hnamed.symm, hmembers.symm⟩

end Lists

namespace IndexesLocal

variable {node : SchemaNode} {declaration : ElementDeclaration}

theorem node_eq (h : index.IndexesLocal node declaration) :
    node.kind = .element ∧ node.name = declaration.name ∧
      node.isAbstract = declaration.isAbstract ∧
        node.members = memberNames index.scope declaration := by
  obtain ⟨above, -, outer, path, context, occurs, name, type, -, -, -, hbare⟩ := h.described
  exact ⟨congrArg SchemaNode.kind hbare, congrArg SchemaNode.name hbare,
    congrArg SchemaNode.isAbstract hbare, congrArg SchemaNode.members hbare⟩

theorem members_eq_nil_iff (h : index.IndexesLocal node declaration) :
    node.members = [] ↔ index.set.StandsAlone declaration.name := by
  rw [h.node_eq.2.2.2]
  exact memberNames_eq_nil_iff

theorem isSubstitutionHead_eq_false_iff (h : index.IndexesLocal node declaration) :
    node.isSubstitutionHead = false ↔
      declaration.isAbstract = false ∧ index.set.StandsAlone declaration.name := by
  obtain ⟨hkind, -, hisAbstract, -⟩ := h.node_eq
  rw [← h.members_eq_nil_iff, ← hisAbstract]
  simp [SchemaNode.isSubstitutionHead, SchemaNode.isElement, hkind]

end IndexesLocal

/-- Wherever an element is declared, it has members exactly if declared elements are registered
under its name. -/
theorem Lists.members_eq_nil_iff (h : index.Lists roots visits) {node : SchemaNode}
    (hnode : node ∈ index.nodes) (helement : node.kind = .element) :
    node.members = [] ↔ index.set.StandsAlone node.name := by
  rcases h.local_or_global hnode helement with
    ⟨declaration, hlocal⟩ | ⟨name, declaration, -, hname, hmembers⟩
  · rw [hlocal.node_eq.2.1]
    exact hlocal.members_eq_nil_iff
  · rw [hname, hmembers]
    exact memberNames_eq_nil_iff

/-- A local declaration is treated as the global element of its name would be: it has no members and
is no head exactly if it is not abstract and no declared element is registered under its name. It is
shown by its own type where it is no head, and the elements that stand in for it are described
beside it. -/
theorem local_element_head_iff {set : SchemaSet} {namespaces : InstanceNamespaces}
    {node : SchemaNode} {declaration : ElementDeclaration}
    (hbuild : build set namespaces roots = .ok index)
    (hlocal : index.IndexesLocal node declaration) :
    (node.members = [] ↔ set.StandsAlone declaration.name) ∧
      (node.isSubstitutionHead = false ↔
        declaration.isAbstract = false ∧ set.StandsAlone declaration.name) ∧
      (∀ mode root, ∃ classification,
        (Compile.Scope.mk index mode root).classify node.address = .ok classification ∧
          classification.shape = .ofNode set.types node node.type ∧
          (classification.isHead = true ↔ node.isRecursive = false ∧
            ¬ (declaration.isAbstract = false ∧ set.StandsAlone declaration.name))) ∧
      ∀ parent name member type, node.address.parent? = some parent →
        (name, member) ∈ standIns ⟨set, namespaces⟩ declaration.name →
          set.types.resolve? member.type = some type →
            (index.node? (parent.child name)).isSome := by
  obtain ⟨rfl, rfl, visits, hlists⟩ := exists_lists hbuild
  obtain ⟨hkind, hname, -⟩ := hlocal.node_eq
  refine ⟨hlocal.members_eq_nil_iff, hlocal.isSubstitutionHead_eq_false_iff, ?_, ?_⟩
  · intro mode root
    have hnode : (Compile.Scope.mk index mode root).node node.address = .ok node := by
      simp [Compile.Scope.node, hlocal.indexed]
    refine ⟨_, by rw [Compile.Scope.classify, hnode]; rfl, rfl, ?_⟩
    rw [← hlocal.isSubstitutionHead_eq_false_iff]
    simp
  · intro parent name member type hparent hmember htype
    obtain ⟨visit, hvisit, hbare, -⟩ := hlists.exists_visit_of_node? hlocal.indexed
    have hnode : visit.node.kind = .element ∧ visit.node.name = declaration.name ∧
        visit.node.address = node.address := by
      rw [hbare]
      exact ⟨hkind, hname, rfl⟩
    obtain ⟨hvisitKind, hvisitName, haddress⟩ := hnode
    rw [← haddress] at hparent
    rw [← hvisitName] at hmember
    rw [hlists.isSome_node?_iff]
    exact (hlists.complete visit hvisit).standIns hvisitKind parent name member type hparent
      hmember htype

end SchemaIndex

/-- An element holds two local declarations, of which one has the name of a global element that
another one may stand in for. -/
def sharedName : SchemaSet :=
  { SchemaSet.declaring [.builtin (schemaName "string"),
      .containing [.compositor .sequence .once
        [.particle "h" (.anonymous ⟨0⟩) .once, .particle "x" (.anonymous ⟨0⟩) .once]]]
      [.unqualified "r" (.anonymous ⟨1⟩), .unqualified "h" (.anonymous ⟨0⟩),
        { ElementDeclaration.unqualified "m" (.anonymous ⟨0⟩) with
          substitutionGroup := some ⟨none, "h"⟩ }] with
    members := [(⟨none, "h"⟩, [⟨none, "m"⟩])] }

def sharedNameIndex : SchemaIndex :=
  (SchemaIndex.build sharedName .disabled [⟨none, "r"⟩]).toOption.getD default

/-- The node below the document element. -/
def sharedNameNode (name : String) : SchemaNode :=
  (sharedNameIndex.node? ((Address.root (.unprefixed "r")).child (.unprefixed name))).getD default

theorem indexesLocal_sharedName {name : String} (h : name = "h" ∨ name = "x") :
    sharedNameIndex.IndexesLocal (sharedNameNode name) (.unqualified name (.anonymous ⟨0⟩)) := by
  have hroot : (sharedNameIndex.node? (Address.root (.unprefixed "r"))).isSome := by decide
  let above := (sharedNameIndex.node? (Address.root (.unprefixed "r"))).get hroot
  have habove : above ∈ sharedNameIndex.nodes :=
    List.mem_of_find?_eq_some (Option.some_get hroot).symm
  have hholds : (Visit.mk above.bare ⟨[], []⟩).Holds sharedNameIndex.scope ⟨[⟨1⟩], []⟩
      ⟨some ⟨.sequence, .once, false⟩, .particle name (.anonymous ⟨0⟩) .once⟩ := by
    refine ⟨rfl, rfl, _, _, ⟨[], []⟩, rfl, List.mem_cons_self, ?_, ⟨by simp, by simp, by simp,
      by simp⟩, rfl⟩
    apply SchemaSet.inlines_of_opened
    rcases h with rfl | rfl
    · exact List.mem_cons_self
    · exact List.mem_cons_of_mem _ List.mem_cons_self
  rcases h with rfl | rfl
  · exact ⟨rfl, above, habove, _, _, _, _, .unprefixed "h", ⟨0⟩, hholds, rfl, rfl, rfl⟩
  · exact ⟨rfl, above, habove, _, _, _, _, .unprefixed "x", ⟨0⟩, hholds, rfl, rfl, rfl⟩

/-- A local element whose name no member is registered under is shown by its own type. -/
theorem local_element_head_iff_alone :
    SchemaIndex.build sharedName .disabled [⟨none, "r"⟩] = .ok sharedNameIndex ∧
      sharedNameIndex.IndexesLocal (sharedNameNode "x") (.unqualified "x" (.anonymous ⟨0⟩)) ∧
      sharedName.StandsAlone ⟨none, "x"⟩ ∧ (sharedNameNode "x").members = [] ∧
      (sharedNameNode "x").isSubstitutionHead = false := by
  have hbuild : SchemaIndex.build sharedName .disabled [⟨none, "r"⟩] = .ok sharedNameIndex := rfl
  have hlocal := indexesLocal_sharedName (Or.inr rfl)
  have halone : sharedName.StandsAlone ⟨none, "x"⟩ := fun _ hmember => nomatch hmember
  obtain ⟨hmembers, hhead, -⟩ := SchemaIndex.local_element_head_iff hbuild hlocal
  exact ⟨hbuild, hlocal, halone, hmembers.mpr halone, hhead.mpr ⟨rfl, halone⟩⟩

/-- A local element that has the name of a global one is a head with the members of that one. -/
theorem local_element_with_members :
    SchemaIndex.build sharedName .disabled [⟨none, "r"⟩] = .ok sharedNameIndex ∧
      sharedNameIndex.IndexesLocal (sharedNameNode "h") (.unqualified "h" (.anonymous ⟨0⟩)) ∧
      (sharedNameNode "h").members = [.unprefixed "h", .unprefixed "m"] ∧
      (sharedNameNode "h").isSubstitutionHead = true ∧
      (sharedNameIndex.node?
        ((Address.root (.unprefixed "r")).child (.unprefixed "m"))).isSome := by
  have hbuild : SchemaIndex.build sharedName .disabled [⟨none, "r"⟩] = .ok sharedNameIndex := rfl
  exact ⟨hbuild, indexesLocal_sharedName (Or.inl rfl), by decide, by decide, by decide⟩

end SchemaForms
