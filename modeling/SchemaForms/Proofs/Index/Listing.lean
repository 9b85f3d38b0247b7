import SchemaForms.Proofs.Index.Completeness
import SchemaForms.Index.Query

/-!
The nodes of an index that was built. They are listed in an order of visits, each of them complete,
so what is indexed directly below an element is exactly what the element offers there: what its
content holds where the walk is inside a path that admits it, and what may stand in for that.
-/

namespace SchemaForms

open Index

def SchemaIndex.scope (index : SchemaIndex) : Index.Scope := ⟨index.set, index.namespaces⟩

/-- The index lists the nodes of complete visits. -/
structure SchemaIndex.Lists (index : SchemaIndex) (roots : List ExpandedName)
    (visits : List Visit) : Prop where
  history : History index.scope roots visits
  nodes : index.nodes.map SchemaNode.bare = visits.map Visit.node
  complete : ∀ visit ∈ visits, visit.Complete index.scope visits

namespace Index

/-- What an element offers directly below its address. -/
inductive Offers (scope : Scope) (visits : List Visit) (within : Visit) : Address → Prop
  | content {path placed address} (hholds : within.Holds scope path placed)
      (hnames : Names scope within.node.address placed.construct address) :
      Offers scope visits within address
  | standIn {head name member type} (hoffered : Offers scope visits within head.node.address)
      (hhead : head ∈ visits) (helement : head.node.kind = .element)
      (hmember : (name, member) ∈ standIns scope head.node.name)
      (htype : scope.set.types.resolve? member.type = some type) :
      Offers scope visits within (within.node.address.child name)

variable {scope : Scope} {roots : List ExpandedName} {visits : List Visit}

theorem Names.parent? {parent address : Address} {construct : Construct}
    (h : Names scope parent construct address) (hne : parent.segments ≠ []) :
    address.parent? = some parent := by
  cases h with
  | element => exact Address.parent?_child _ _ hne
  | attributeUse => exact Address.parent?_attr _ _ hne
  | wildcard => exact Address.parent?_child _ _ hne

theorem Offers.parent? {within : Visit} {address : Address} (h : Offers scope visits within address)
    (hne : within.node.address.segments ≠ []) : address.parent? = some within.node.address := by
  cases h with
  | content hholds hnames => exact hnames.parent? hne
  | standIn => exact Address.parent?_child _ _ hne

theorem Offers.mem_addresses {within : Visit} {address : Address}
    (h : Offers scope visits within address) (hhistory : History scope roots visits)
    (hcomplete : ∀ visit ∈ visits, visit.Complete scope visits) (hwithin : within ∈ visits) :
    address ∈ addresses visits := by
  cases h with
  | content hholds hnames => exact (hcomplete within hwithin).content _ _ _ hholds hnames
  | standIn hoffered hhead helement hmember htype =>
    have hne := (hhistory.sound within hwithin).ne_nil
    exact (hcomplete _ hhead).standIns helement _ _ _ _ (hoffered.parent? hne) hmember htype

/-- Whatever is visited directly below an element is offered by it. -/
theorem History.offers {earlier : List Visit} (h : History scope roots earlier)
    (hall : History scope roots visits) (hearlier : earlier ⊆ visits) {within : Visit}
    (hwithin : within ∈ visits) :
    ∀ visit ∈ earlier, visit.node.address.parent? = some within.node.address →
      Offers scope visits within visit.node.address := by
  have hsame : ∀ {other : Visit} {address : Address}, other ∈ visits →
      address.parent? = some other.node.address →
        address.parent? = some within.node.address → other = within :=
    fun hother hleft hright =>
      hall.eq_of_address_eq hother hwithin (Option.some.inj (hleft.symm.trans hright))
  induction h with
  | start => simp
  | visit hvisits hfollows hnew ih =>
    intro visit hvisit hparent
    have hsubset := (List.append_subset.mp hearlier).1
    rcases List.mem_append.mp hvisit with hold | hlast
    · exact ih hsubset visit hold hparent
    · obtain rfl := List.mem_singleton.mp hlast
      cases hfollows with
      | root => simp [elementNode, Address.parent?, Address.isRoot, Address.root] at hparent
      | element hother hholds hname hdeclaration htype =>
        have hne := (hall.sound _ (hsubset hother)).ne_nil
        obtain rfl := hsame (hsubset hother) (Address.parent?_child _ _ hne) hparent
        exact .content hholds (.element hname hdeclaration htype)
      | attributeUse hother hholds hname htype =>
        have hne := (hall.sound _ (hsubset hother)).ne_nil
        obtain rfl := hsame (hsubset hother) (Address.parent?_attr _ _ hne) hparent
        exact .content hholds (.attributeUse hname htype)
      | wildcard hother hholds htype =>
        have hne := (hall.sound _ (hsubset hother)).ne_nil
        obtain rfl := hsame (hsubset hother) (Address.parent?_child _ _ hne) hparent
        exact .content hholds (.wildcard htype)
      | standIn hhead helement hbeside hmember htype =>
        obtain ⟨hne, -⟩ := Address.segments_of_parent? hbeside
        obtain rfl := Option.some.inj ((Address.parent?_child _ _ hne).symm.trans hparent)
        exact .standIn (ih hsubset _ hhead hbeside) (hsubset hhead) helement hmember htype

end Index

namespace SchemaIndex

variable {index : SchemaIndex} {roots : List ExpandedName} {visits : List Visit}

namespace Lists

theorem isSome_node?_iff (h : index.Lists roots visits) (address : Address) :
    (index.node? address).isSome ↔ address ∈ addresses visits := by
  have hsome : (index.node? address).isSome = decide (address ∈ addresses visits) :=
    isSome_find?_address h.nodes address
  rw [hsome, decide_eq_true_iff]

theorem exists_visit (h : index.Lists roots visits) {node : SchemaNode}
    (hnode : node ∈ index.nodes) : ∃ visit ∈ visits, visit.node = node.bare := by
  have hmem : node.bare ∈ visits.map Visit.node := h.nodes ▸ List.mem_map.mpr ⟨node, hnode, rfl⟩
  exact List.mem_map.mp hmem

/-- What is found for an address stands at its address in the schema and was visited. -/
theorem visit_of_nodeOf? (h : index.Lists roots visits) {address : Address}
    {node : SchemaNode} (hnode : index.nodeOf? address = some node) :
    node.address = address.schemaAddress ∧ ∃ visit ∈ visits, visit.node = node.bare := by
  have haddress : node.address = address.schemaAddress := by
    simpa using List.find?_some hnode
  exact ⟨haddress, h.exists_visit (List.mem_of_find?_eq_some hnode)⟩

/-- What is known of an address that is found: it is of an attribute exactly if its node is. -/
theorem isAttribute_of_nodeOf? (h : index.Lists roots visits) {address : Address}
    {node : SchemaNode} (hnode : index.nodeOf? address = some node) :
    address.segments ≠ [] ∧ address.isAttribute = node.isAttribute ∧
      (node.isAttribute = true → 1 < address.depth) := by
  obtain ⟨haddress, visit, hvisit, hbare⟩ := h.visit_of_nodeOf? hnode
  have hvisited := h.history.sound visit hvisit
  have hne := hvisited.ne_nil
  have hattribute := hvisited.isAttribute
  have hdepth := h.history.one_lt_depth hvisit
  rw [hbare] at hne hattribute hdepth
  change node.address.segments ≠ [] at hne
  change node.address.isAttribute = node.isAttribute at hattribute
  change node.isAttribute = true → 1 < node.address.depth at hdepth
  rw [haddress] at hne hattribute hdepth
  refine ⟨by simpa [Address.schemaAddress] using hne, by simpa using hattribute, ?_⟩
  simpa using hdepth

/-- An address directly below an element is indexed exactly if the element offers it. -/
theorem isSome_node?_iff_offers (h : index.Lists roots visits) {within : Visit}
    (hwithin : within ∈ visits) {address : Address}
    (hparent : address.parent? = some within.node.address) :
    (index.node? address).isSome ↔ Offers index.scope visits within address := by
  rw [h.isSome_node?_iff]
  constructor
  · intro hmem
    obtain ⟨visit, hvisit, rfl⟩ := List.mem_map.mp hmem
    exact h.history.offers h.history (List.Subset.refl _) hwithin visit hvisit hparent
  · exact fun hoffers => hoffers.mem_addresses h.history h.complete hwithin

end Lists

theorem exists_root_of_mapM {set : SchemaSet} {names : List ExpandedName}
    {declarations : List ElementDeclaration}
    (h : names.mapM (rootDeclaration set) = .ok declarations) :
    ∀ declaration ∈ declarations, ∃ name ∈ names, set.element? name = some declaration := by
  induction names generalizing declarations with
  | nil =>
    obtain rfl := Except.ok.inj h
    simp
  | cons first others ih =>
    rw [List.mapM_cons] at h
    cases hfirst : set.element? first with
    | none => simp [rootDeclaration, hfirst, bind, Except.bind] at h
    | some found =>
      cases hothers : others.mapM (rootDeclaration set) with
      | error error => simp [rootDeclaration, hfirst, hothers, bind, Except.bind] at h
      | ok rest =>
        simp only [rootDeclaration, hfirst, hothers, bind, Except.bind] at h
        obtain rfl := Except.ok.inj h
        intro declaration hdeclaration
        rcases List.mem_cons.mp hdeclaration with rfl | hother
        · exact ⟨first, List.mem_cons_self, hfirst⟩
        · obtain ⟨name, hname, hfound⟩ := ih hothers declaration hother
          exact ⟨name, List.mem_cons_of_mem _ hname, hfound⟩

theorem adds_walkRoots (scope : Index.Scope) (visits : List Visit)
    {declarations : List ElementDeclaration}
    (hroots : ∀ declaration ∈ declarations, ∃ name ∈ roots,
      scope.set.element? name = some declaration) :
    Adds scope roots visits (declarations.mapM (walkRoot scope)) fun _ => True := by
  induction declarations generalizing visits with
  | nil => exact .pure trivial
  | cons first others ih =>
    rw [List.mapM_cons]
    have hothers : ∀ declaration ∈ others, ∃ name ∈ roots,
        scope.set.element? name = some declaration :=
      fun declaration hdeclaration => hroots declaration (List.mem_cons_of_mem _ hdeclaration)
    refine .bind (P := fun _ => True) ?_ fun _ more _ =>
      .bind (ih (visits ++ more) hothers) fun _ _ _ => .pure trivial
    obtain ⟨name, hname, hfirst⟩ := hroots first List.mem_cons_self
    refine .bind (describes (reliable_walkConstruct _) _ _ _ _ _ _ _ (fun type htype =>
      .root hname hfirst htype) room_le_walkDepth (Nat.succ_pos _) fun _ hparent => ?_)
      fun _ _ _ => .pure trivial
    simp [Address.parent?, Address.isRoot, Address.root] at hparent

/-- An index that is built lists complete visits, and the walk has recorded them. -/
theorem exists_records {set : SchemaSet} {namespaces : InstanceNamespaces}
    (h : build set namespaces roots = .ok index) :
    index.set = set ∧ index.namespaces = namespaces ∧ ∃ visits,
      Records index.scope roots ⟨index.nodes, index.warnings⟩ visits ∧
        index.Lists roots visits := by
  unfold build at h
  cases hdeclarations : roots.mapM (rootDeclaration set) with
  | error error => simp [hdeclarations, bind, Except.bind] at h
  | ok declarations =>
    simp only [hdeclarations, bind, Except.bind] at h
    obtain rfl := Except.ok.inj h
    refine ⟨rfl, rfl, ?_⟩
    obtain ⟨visits, hrecords, hcomplete, -⟩ := adds_walkRoots ⟨set, namespaces⟩ []
      (exists_root_of_mapM hdeclarations) ⟨[], []⟩ ⟨.start, rfl, by simp, by simp⟩
    exact ⟨visits, hrecords, hrecords.history, hrecords.nodes, hcomplete⟩

theorem exists_lists {set : SchemaSet} {namespaces : InstanceNamespaces}
    (h : build set namespaces roots = .ok index) :
    index.set = set ∧ index.namespaces = namespaces ∧ ∃ visits, index.Lists roots visits := by
  obtain ⟨hset, hnamespaces, visits, -, hlists⟩ := exists_records h
  exact ⟨hset, hnamespaces, visits, hlists⟩

end SchemaIndex

end SchemaForms
