import SchemaForms.Proofs.Index.Listing

/-!
What every index has in common that is built from a schema, whatever the schema refers to in
circles. The walk ends by itself, since types and groups are entered once and elements described
once. The elements above a node are described and walked, and their types are all different, because
the walk that comes to the node is inside all of them. So a type that comes back below itself makes
a recursive node, and below that there is nothing.
-/

namespace SchemaForms

open Index

/-- The elements on the way to an address, without the address itself. -/
def Address.Above (upper lower : Address) : Prop :=
  upper.segments ≠ [] ∧ upper.segments <+: lower.segments ∧ upper ≠ lower

theorem Address.Above.exists_parent {upper lower : Address} (h : upper.Above lower) :
    ∃ parent, lower.parent? = some parent ∧ (upper = parent ∨ upper.Above parent) := by
  obtain ⟨hne, hfront, hother⟩ := h
  have hlonger : upper.segments.length < lower.segments.length := by
    refine Nat.lt_of_le_of_ne hfront.length_le fun hlength => hother ?_
    cases upper
    cases lower
    exact congrArg Address.mk (hfront.eq_of_length hlength)
  have hpos : 0 < upper.segments.length := List.length_pos_iff.mpr hne
  have hdepth : 1 < lower.segments.length := Nat.lt_of_le_of_lt hpos hlonger
  obtain ⟨parent, hparent⟩ := Address.exists_parent hdepth
  obtain ⟨-, leaf, hsegments⟩ := Address.segments_of_parent? hparent
  refine ⟨parent, hparent, ?_⟩
  rw [hsegments, List.prefix_concat_iff] at hfront
  rcases hfront with hsame | hbefore
  · rw [hsegments, hsame] at hlonger
    exact absurd hlonger (Nat.lt_irrefl _)
  · exact or_iff_not_imp_left.mpr fun hnew => ⟨hne, hbefore, hnew⟩

theorem Address.above_of_parent? {address parent : Address} (h : address.parent? = some parent) :
    parent.Above address := by
  obtain ⟨hne, leaf, hsegments⟩ := Address.segments_of_parent? h
  refine ⟨hne, by simp [hsegments], ?_⟩
  rintro rfl
  simp at hsegments

/-- An element whose content is walked. -/
structure SchemaNode.IsOpened (set : SchemaSet) (node : SchemaNode) : Prop where
  element : node.kind = .element
  expanded : node.isRecursive = false
  complex : (set.types.definition node.type).isComplex = true

namespace Index

variable {scope : Scope} {roots : List ExpandedName} {visits : List Visit}

theorem Visit.Holds.isOpened {visit : Visit} {path : Path} {placed : Placed}
    (h : visit.Holds scope path placed) : visit.node.IsOpened scope.set := by
  obtain ⟨complex, -, -, hcomplex, -⟩ := h.content
  exact ⟨h.element, h.expanded, isComplex_of_complex? hcomplex⟩

/-- The walk stays inside the types that it was inside of at an element. -/
theorem Visit.Holds.types_suffix {visit : Visit} {path : Path} {placed : Placed}
    (h : visit.Holds scope path placed) : visit.inner.types <:+ path.types := by
  obtain ⟨-, -, entered, -, -, -, -, rfl⟩ := h.content
  exact List.suffix_append _ _

/-- An element that is open, with all types that the walk is inside of in its content. -/
structure Visit.Encloses (scope : Scope) (above visit : Visit) : Prop where
  isOpened : above.node.IsOpened scope.set
  types : above.inner.types <:+ visit.path.types

namespace History

/-- Whatever is visited below the roots is inside the element right above it. A stand-in is where
its head is. -/
theorem exists_parent (h : History scope roots visits) : ∀ visit ∈ visits, ∀ parent,
    visit.node.address.parent? = some parent →
      ∃ above ∈ visits, above.node.address = parent ∧ above.Encloses scope visit := by
  induction h with
  | start => simp
  | @visit visits last hvisits hfollows hnew ih =>
    intro visit hvisit parent hparent
    have holder : ∀ {other : Visit}, other ∈ visits → other.node.address.parent? = some parent →
        other.path = visit.path → ∃ above ∈ visits ++ [last], above.node.address = parent ∧
          above.Encloses scope visit := by
      intro other hother hbeside hpath
      obtain ⟨above, habove, haddress, hencloses⟩ := ih other hother parent hbeside
      exact ⟨above, List.mem_append_left _ habove, haddress, hencloses.isOpened,
        hpath ▸ hencloses.types⟩
    have hwithin : ∀ {within : Visit} {path : Path} {placed : Placed} {address : Address},
        within ∈ visits → within.Holds scope path placed → RightBelow within.node.address address →
          address.parent? = some parent → path = visit.path →
            ∃ above ∈ visits ++ [last], above.node.address = parent ∧
              above.Encloses scope visit := by
      rintro within path placed _ hwithin hholds ⟨name, rfl | rfl⟩ hbelow rfl
      · have hne := (hvisits.sound within hwithin).ne_nil
        rw [Address.parent?_child _ _ hne] at hbelow
        exact ⟨within, List.mem_append_left _ hwithin, Option.some.inj hbelow, hholds.isOpened,
          hholds.types_suffix⟩
      · have hne := (hvisits.sound within hwithin).ne_nil
        rw [Address.parent?_attr _ _ hne] at hbelow
        exact ⟨within, List.mem_append_left _ hwithin, Option.some.inj hbelow, hholds.isOpened,
          hholds.types_suffix⟩
    rcases List.mem_append.mp hvisit with hold | hlast
    · exact holder hold hparent rfl
    · obtain rfl := List.mem_singleton.mp hlast
      cases hfollows with
      | root => simp [elementNode, Address.parent?, Address.isRoot, Address.root] at hparent
      | element hmem hholds => exact hwithin hmem hholds (rightBelow_child _ _) hparent rfl
      | attributeUse hmem hholds => exact hwithin hmem hholds (rightBelow_attr _ _) hparent rfl
      | wildcard hmem hholds => exact hwithin hmem hholds (rightBelow_child _ _) hparent rfl
      | standIn hhead helement hbeside =>
        obtain ⟨hne, -⟩ := Address.segments_of_parent? hbeside
        have hsame := (Address.parent?_child _ _ hne).symm.trans hparent
        exact holder hhead (hbeside.trans hsame) rfl

/-- Whatever is visited is inside all the elements above it. -/
theorem exists_above (h : History scope roots visits) {upper : Address} {visit : Visit}
    (hvisit : visit ∈ visits) (habove : upper.Above visit.node.address) :
    ∃ above ∈ visits, above.node.address = upper ∧ above.Encloses scope visit := by
  induction hdepth : visit.node.address.depth generalizing visit with
  | zero =>
    obtain ⟨parent, hparent, -⟩ := habove.exists_parent
    obtain ⟨-, leaf, hsegments⟩ := Address.segments_of_parent? hparent
    simp [Address.depth, hsegments] at hdepth
  | succ depth ih =>
    obtain ⟨parent, hparent, hupper⟩ := habove.exists_parent
    obtain ⟨middle, hmiddle, rfl, hencloses⟩ := h.exists_parent visit hvisit parent hparent
    rcases hupper with rfl | hupper
    · exact ⟨middle, hmiddle, rfl, hencloses⟩
    · obtain ⟨-, leaf, hsegments⟩ := Address.segments_of_parent? hparent
      have hless : middle.node.address.depth = depth := by
        simp only [Address.depth, hsegments, List.length_append, List.length_singleton] at hdepth ⊢
        omega
      obtain ⟨above, hmem, haddress, houter⟩ := ih hmiddle hupper hless
      refine ⟨above, hmem, haddress, houter.isOpened, ?_⟩
      exact (houter.types.trans (List.suffix_cons _ _)).trans hencloses.types

end History

theorem Visit.Encloses.mem_types {above visit : Visit} (h : above.Encloses scope visit) :
    above.node.type ∈ visit.path.types :=
  h.types.subset (List.mem_append_left _ (List.mem_singleton_self _))

/-- An element that is open was not inside of its own type. -/
theorem Visit.Sound.type_not_mem {visit : Visit} (h : visit.Sound scope.set)
    (hopened : visit.node.IsOpened scope.set) : visit.node.type ∉ visit.path.types := by
  have hrecursive := h.isRecursive hopened.element
  simpa [hopened.expanded, hopened.complex] using hrecursive

end Index

/-- The nodes of an index stand in layers: above a node are elements of different complex types that
are opened, and nothing is below a recursive node. -/
structure SchemaIndex.Layered (index : SchemaIndex) : Prop where
  parent : ∀ address parent, (index.node? address).isSome → address.parent? = some parent →
    ∃ above, index.node? parent = some above ∧ above.IsOpened index.set
  distinct : ∀ address outer inner, (index.node? address).isSome → outer.Above inner →
    inner.Above address → ∃ upper lower, index.node? outer = some upper ∧
      index.node? inner = some lower ∧ upper.IsOpened index.set ∧ lower.IsOpened index.set ∧
        upper.type ≠ lower.type
  repeated : ∀ address node outer upper, index.node? address = some node → node.kind = .element →
    (index.set.types.definition node.type).isComplex = true → outer.Above address →
      index.node? outer = some upper → upper.type = node.type → node.isRecursive = true
  recursive : ∀ address node, index.node? address = some node → node.isRecursive = true →
    node.children = [] ∧ ∀ lower, address.Above lower → index.node? lower = none

namespace SchemaIndex

variable {index : SchemaIndex} {roots : List ExpandedName} {visits : List Visit}

namespace Lists

theorem exists_node? (h : index.Lists roots visits) {visit : Visit} (hvisit : visit ∈ visits) :
    ∃ node, index.node? visit.node.address = some node ∧ node.bare = visit.node := by
  have hsome := (h.isSome_node?_iff visit.node.address).mpr (List.mem_map.mpr ⟨visit, hvisit, rfl⟩)
  obtain ⟨node, hnode⟩ := Option.isSome_iff_exists.mp hsome
  obtain ⟨found, hfound, hbare⟩ := h.exists_visit (List.mem_of_find?_eq_some hnode)
  have haddress : node.address = visit.node.address := by simpa using List.find?_some hnode
  have hsame := h.history.eq_of_address_eq hfound hvisit (by rw [hbare]; exact haddress)
  exact ⟨node, hnode, hsame ▸ hbare.symm⟩

theorem exists_visit_of_node? (h : index.Lists roots visits) {address : Address}
    {node : SchemaNode} (hnode : index.node? address = some node) :
    ∃ visit ∈ visits, visit.node = node.bare ∧ visit.node.address = address := by
  obtain ⟨visit, hvisit, hbare⟩ := h.exists_visit (List.mem_of_find?_eq_some hnode)
  have haddress : node.address = address := by simpa using List.find?_some hnode
  exact ⟨visit, hvisit, hbare, by rw [hbare]; exact haddress⟩

/-- All addresses above an indexed one are indexed, as elements that are open there. -/
theorem exists_enclosing (h : index.Lists roots visits) {upper : Address} {visit : Visit}
    (hvisit : visit ∈ visits) (habove : upper.Above visit.node.address) :
    ∃ above ∈ visits, above.node.address = upper ∧ above.Encloses index.scope visit ∧
      ∃ node, index.node? upper = some node ∧ node.bare = above.node ∧
        node.IsOpened index.set := by
  obtain ⟨above, hmem, rfl, hencloses⟩ := h.history.exists_above hvisit habove
  obtain ⟨node, hnode, hbare⟩ := h.exists_node? hmem
  have hopened := hencloses.isOpened
  rw [← hbare] at hopened
  exact ⟨above, hmem, rfl, hencloses, node, hnode, hbare, hopened.element, hopened.expanded,
    hopened.complex⟩

theorem exists_visit_of_isSome (h : index.Lists roots visits) {address : Address}
    (hsome : (index.node? address).isSome) : ∃ visit ∈ visits, visit.node.address = address :=
  List.mem_map.mp ((h.isSome_node?_iff address).mp hsome)

theorem exists_parent (h : index.Lists roots visits) {address parent : Address}
    (hsome : (index.node? address).isSome) (hparent : address.parent? = some parent) :
    ∃ above, index.node? parent = some above ∧ above.IsOpened index.set := by
  obtain ⟨visit, hvisit, rfl⟩ := h.exists_visit_of_isSome hsome
  obtain ⟨-, -, -, -, node, hnode, -, hopened⟩ :=
    h.exists_enclosing hvisit (Address.above_of_parent? hparent)
  exact ⟨node, hnode, hopened⟩

/-- The walk comes to the inner element inside of the type of the outer one, and opens it. -/
theorem exists_type_ne (h : index.Lists roots visits) {address outer inner : Address}
    (hsome : (index.node? address).isSome) (houter : outer.Above inner)
    (hinner : inner.Above address) :
    ∃ upper lower, index.node? outer = some upper ∧ index.node? inner = some lower ∧
      upper.IsOpened index.set ∧ lower.IsOpened index.set ∧ upper.type ≠ lower.type := by
  obtain ⟨visit, hvisit, rfl⟩ := h.exists_visit_of_isSome hsome
  obtain ⟨middle, hmiddle, rfl, hencloses, lower, hlower, hbare, hopened⟩ :=
    h.exists_enclosing hvisit hinner
  obtain ⟨above, -, -, haround, upper, hupper, hbareAbove, hopenedAbove⟩ :=
    h.exists_enclosing hmiddle houter
  refine ⟨upper, lower, hupper, hlower, hopenedAbove, hopened, fun hsame => ?_⟩
  have hnew := (h.history.sound middle hmiddle).type_not_mem hencloses.isOpened
  have hinside := haround.mem_types
  rw [← hbare] at hnew
  rw [← hbareAbove] at hinside
  exact hnew (hsame ▸ hinside)

theorem isRecursive_of_type_eq (h : index.Lists roots visits) {address outer : Address}
    {node upper : SchemaNode} (hnode : index.node? address = some node)
    (helement : node.kind = .element)
    (hcomplex : (index.set.types.definition node.type).isComplex = true)
    (houter : outer.Above address) (hupper : index.node? outer = some upper)
    (hsame : upper.type = node.type) : node.isRecursive = true := by
  obtain ⟨visit, hvisit, hbare, rfl⟩ := h.exists_visit_of_node? hnode
  obtain ⟨above, -, -, hencloses, found, hfound, hbareAbove, -⟩ := h.exists_enclosing hvisit houter
  obtain rfl := Option.some.inj (hupper.symm.trans hfound)
  have hinside := hencloses.mem_types
  rw [← hbareAbove] at hinside
  have hown : node.type ∈ visit.path.types := hsame ▸ hinside
  have hrecursive := (h.history.sound visit hvisit).isRecursive (by rw [hbare]; exact helement)
  rw [hbare] at hrecursive
  change node.isRecursive = (_ && decide (node.type ∈ visit.path.types)) at hrecursive
  simpa [SchemaIndex.scope, SchemaNode.bare, hcomplex, hown] using hrecursive

theorem node?_eq_none_of_recursive (h : index.Lists roots visits) {address lower : Address}
    {node : SchemaNode} (hnode : index.node? address = some node)
    (hrecursive : node.isRecursive = true) (hbelow : address.Above lower) :
    index.node? lower = none := by
  by_contra hsome
  obtain ⟨visit, hvisit, rfl⟩ := h.exists_visit_of_isSome (Option.isSome_iff_ne_none.mpr hsome)
  obtain ⟨-, -, -, -, found, hfound, -, hopened⟩ := h.exists_enclosing hvisit hbelow
  obtain rfl := Option.some.inj (hnode.symm.trans hfound)
  simp [hopened.expanded] at hrecursive

end Lists

theorem exists_undeclared_of_mapM {set : SchemaSet} {names : List ExpandedName}
    {error : SchemaError} (h : names.mapM (rootDeclaration set) = .error error) :
    ∃ name ∈ names, set.element? name = none ∧ error = .unknownComponent "element" name := by
  induction names with
  | nil => nomatch h
  | cons first others ih =>
    rw [List.mapM_cons] at h
    cases hfirst : set.element? first with
    | none =>
      simp only [rootDeclaration, hfirst, bind, Except.bind, Except.error.injEq] at h
      exact ⟨first, List.mem_cons_self, hfirst, h.symm⟩
    | some declaration =>
      cases hothers : others.mapM (rootDeclaration set) with
      | ok rest =>
        simp [rootDeclaration, hfirst, hothers, bind, Except.bind, pure, Except.pure] at h
      | error cause =>
        simp only [rootDeclaration, hfirst, hothers, bind, Except.bind, Except.error.injEq] at h
        obtain ⟨name, hname, hfound⟩ := ih (h ▸ hothers)
        exact ⟨name, List.mem_cons_of_mem _ hname, hfound⟩

/-- Whatever a schema refers to in circles, describing the trees below its global elements ends by
itself: unless a root is not declared there is an index, and no bound was reached on the way. -/
theorem build_ends (set : SchemaSet) (namespaces : InstanceNamespaces)
    (roots : List ExpandedName) :
    (∃ name ∈ roots, set.element? name = none ∧
      build set namespaces roots = .error (.unknownComponent "element" name)) ∨
    ∃ index, build set namespaces roots = .ok index ∧
      ∀ warning ∈ index.warnings, ∀ here, warning ≠ .nestedTooDeep here := by
  cases hbuild : build set namespaces roots with
  | ok index =>
    obtain ⟨-, -, visits, hrecords, -⟩ := exists_records hbuild
    exact Or.inr ⟨index, rfl, hrecords.within⟩
  | error error =>
    unfold build at hbuild
    cases hdeclarations : roots.mapM (rootDeclaration set) with
    | ok declarations =>
      rw [hdeclarations] at hbuild
      exact nomatch hbuild
    | error cause =>
      simp only [hdeclarations, bind, Except.bind, Except.error.injEq] at hbuild
      obtain ⟨name, hname, hnone, rfl⟩ := exists_undeclared_of_mapM hdeclarations
      exact Or.inl ⟨name, hname, hnone, by rw [hbuild]⟩

/-- Every index that is built is layered. -/
theorem layered_of_build {set : SchemaSet} {namespaces : InstanceNamespaces}
    {roots : List ExpandedName} {index : SchemaIndex}
    (hbuild : build set namespaces roots = .ok index) : index.Layered := by
  obtain ⟨-, -, visits, hrecords, hlists⟩ := exists_records hbuild
  refine ⟨fun _ _ => hlists.exists_parent, fun _ _ _ => hlists.exists_type_ne,
    fun _ _ _ _ => hlists.isRecursive_of_type_eq, fun address node hnode hrecursive => ?_⟩
  have hfilled := hrecords.filled node (List.mem_of_find?_eq_some hnode)
  exact ⟨hfilled.recursive hrecursive,
    fun _ hbelow => hlists.node?_eq_none_of_recursive hnode hrecursive hbelow⟩

end SchemaIndex

/-- A section holds sections, once directly and once through an extension of its own type. -/
def nestedSections : SchemaSet :=
  .declaring [.builtin (schemaName "string"),
    .containing [.particle "heading" (.anonymous ⟨0⟩) .once,
      .particle "section" (.anonymous ⟨1⟩) ⟨0, .unbounded⟩,
      .particle "appendix" (.anonymous ⟨2⟩) ⟨0, .count 1⟩],
    .containing [.complexContent .extension (.anonymous ⟨1⟩)
      [.particle "note" (.anonymous ⟨0⟩) .once]]]
    [.unqualified "section" (.anonymous ⟨1⟩), .unqualified "appendix" (.anonymous ⟨2⟩)]

def nestedSectionsIndex : SchemaIndex :=
  (SchemaIndex.build nestedSections .disabled [⟨none, "section"⟩, ⟨none, "appendix"⟩]).toOption.getD
    default

/-- A section inside a section is recursive, so nothing is indexed below it. -/
theorem layered_nestedSections :
    SchemaIndex.build nestedSections .disabled [⟨none, "section"⟩, ⟨none, "appendix"⟩] =
        .ok nestedSectionsIndex ∧
      nestedSectionsIndex.Layered ∧
      nestedSectionsIndex.isRecursive
        ((Address.root (.unprefixed "section")).child (.unprefixed "section")) = true ∧
      (nestedSectionsIndex.node? (((Address.root (.unprefixed "section")).child
        (.unprefixed "appendix")).child (.unprefixed "note"))).isSome := by
  have hbuild : SchemaIndex.build nestedSections .disabled
      [⟨none, "section"⟩, ⟨none, "appendix"⟩] = .ok nestedSectionsIndex := rfl
  exact ⟨hbuild, SchemaIndex.layered_of_build hbuild, by decide, by decide⟩

end SchemaForms
