import SchemaForms.Proofs.Form.Ways
import SchemaForms.Proofs.Template.Boxes

/-!
Coming to the nodes of a template. Filling goes into a guard if it lets it pass, and into an
iteration once for each row; what it comes to is in the form. In a template for editing, guards are
only in the way where they ask for something on the way: in one and the same row, filling comes to
every repetition whose parent is there.
-/

namespace SchemaForms

namespace TemplateNode

/-- What keeps filling from going on: the guards that let it pass, and the rows that there are. -/
structure Passing where
  guards : GuardTest → Address → Prop
  rows : Address → Nat → Prop

/-- All guards let pass, but no iteration has a row: what is left stands in one row. -/
def Passing.sameRow : Passing := ⟨fun _ _ => True, fun _ _ => False⟩

end TemplateNode

def Instance.passing (record : Instance) : TemplateNode.Passing :=
  ⟨fun test target => record.holds test target = true,
    fun siblings number => 1 ≤ number ∧ number ≤ record.count siblings⟩

@[simp] theorem Instance.guards_passing {record : Instance} {test : GuardTest} {target : Address} :
    record.passing.guards test target ↔ record.holds test target = true :=
  Iff.rfl

namespace TemplateNode

/-- Filling goes on inside of a node with these positions, where the variable of an iteration stands
for the number of the row. -/
def Enters (passing : Passing) (bindings inner : Bindings) : TemplateNode → Prop
  | guard test target _ => passing.guards test (target.substitute bindings) ∧ inner = bindings
  | iteration siblings var _ _ => ∃ number,
      passing.rows (siblings.substitute bindings) number ∧ inner = bindings.insert var number
  | _ => inner = bindings

/-- Filling the nodes leads to filling some of the nodes inside, with the final positions. -/
inductive Opens (passing : Passing) :
    Bindings → List TemplateNode → Bindings → List TemplateNode → Prop
  | here {bindings nodes} : Opens passing bindings nodes bindings nodes
  | inside {bindings inner final nodes outer part} (h : outer ∈ nodes)
      (henters : outer.Enters passing bindings inner)
      (hinner : Opens passing inner outer.contents final part) :
      Opens passing bindings nodes final part

/-- Filling the nodes comes to a node, with the final positions. -/
def Comes (passing : Passing) (bindings : Bindings) (nodes : List TemplateNode) (final : Bindings)
    (node : TemplateNode) : Prop :=
  ∃ part, Opens passing bindings nodes final part ∧ node ∈ part

variable {passing : Passing} {record : Instance} {bindings inner final last : Bindings}
  {left right nodes part : List TemplateNode} {node outer : TemplateNode}

theorem Comes.here (h : node ∈ nodes) : Comes passing bindings nodes bindings node :=
  ⟨nodes, .here, h⟩

theorem Comes.inside (h : outer ∈ nodes) (henters : outer.Enters passing bindings inner)
    (hinner : Comes passing inner outer.contents final node) :
    Comes passing bindings nodes final node := by
  obtain ⟨part, hpart, hnode⟩ := hinner
  exact ⟨part, .inside h henters hpart, hnode⟩

theorem comes_iff : Comes passing bindings nodes final node ↔
    (node ∈ nodes ∧ final = bindings) ∨
      ∃ outer ∈ nodes, ∃ inner, outer.Enters passing bindings inner ∧
        Comes passing inner outer.contents final node := by
  constructor
  · rintro ⟨part, hpart, hnode⟩
    cases hpart with
    | here => exact Or.inl ⟨hnode, rfl⟩
    | inside h henters hinner => exact Or.inr ⟨_, h, _, henters, _, hinner, hnode⟩
  · rintro (⟨hnode, rfl⟩ | ⟨outer, houter, inner, henters, hinner⟩)
    · exact .here hnode
    · exact .inside houter henters hinner

theorem Comes.mono (h : Comes passing bindings left final node) (hsubset : left ⊆ right) :
    Comes passing bindings right final node := by
  rcases comes_iff.mp h with ⟨hnode, rfl⟩ | ⟨outer, houter, inner, henters, hinner⟩
  · exact .here (hsubset hnode)
  · exact .inside (hsubset houter) henters hinner

theorem comes_append : Comes passing bindings (left ++ right) final node ↔
    Comes passing bindings left final node ∨ Comes passing bindings right final node := by
  constructor
  · intro h
    rcases comes_iff.mp h with ⟨hnode, rfl⟩ | ⟨outer, houter, inner, henters, hinner⟩
    · exact (List.mem_append.mp hnode).imp .here .here
    · exact (List.mem_append.mp houter).imp (.inside · henters hinner) (.inside · henters hinner)
  · rintro (h | h)
    · exact h.mono (List.subset_append_left _ _)
    · exact h.mono (List.subset_append_right _ _)

theorem comes_cons : Comes passing bindings (outer :: right) final node ↔
    Comes passing bindings [outer] final node ∨ Comes passing bindings right final node := by
  rw [← List.singleton_append, comes_append]

theorem comes_singleton : Comes passing bindings [outer] final node ↔
    (node = outer ∧ final = bindings) ∨
      ∃ inner, outer.Enters passing bindings inner ∧
        Comes passing inner outer.contents final node := by
  rw [comes_iff]
  simp

/-- Filling goes on from the nodes that it leads to. -/
theorem Opens.comes (h : Opens passing bindings nodes final part)
    (hnode : Comes passing final part last node) : Comes passing bindings nodes last node := by
  induction h with
  | here => exact hnode
  | inside h henters _ ih => exact .inside h henters (ih hnode)

/-- Filling goes on from a node that it comes to. -/
theorem Comes.into (h : Comes passing bindings nodes inner outer) {entered : Bindings}
    (henters : outer.Enters passing inner entered)
    (hinner : Comes passing entered outer.contents final node) :
    Comes passing bindings nodes final node := by
  obtain ⟨part, hpart, houter⟩ := h
  exact hpart.comes (.inside houter henters hinner)

theorem Opens.throughout {P : TemplateNode → Prop} (h : Opens passing bindings nodes final part)
    (hnodes : Throughout P nodes) : Throughout P part := by
  induction h with
  | here => exact hnodes
  | inside h _ _ ih =>
    obtain ⟨before, after, rfl⟩ := List.append_of_mem h
    exact ih (throughout_cons.mp (throughout_append.mp hnodes).2).2.1

theorem mem_walkAll_of_mem (h : node ∈ nodes) : node ∈ walkAll nodes := by
  obtain ⟨before, after, rfl⟩ := List.append_of_mem h
  rw [walkAll_append, walkAll, walk_eq_cons]
  exact List.mem_append_right _ (List.mem_append_left _ List.mem_cons_self)

theorem Opens.skeleton_subset (h : Opens passing bindings nodes final part) :
    skeleton part ⊆ skeleton nodes := by
  induction h with
  | here => exact List.Subset.refl _
  | inside h _ _ ih =>
    exact List.Subset.trans ih (skeleton_contents_subset (mem_walkAll_of_mem h))

/-- Where nothing repeats, filling comes to nothing that repeats. -/
theorem Comes.not_unrepeated (h : Comes passing bindings nodes final node)
    (hrepeats : ¬ Unrepeated [node]) : ¬ Unrepeated nodes := by
  obtain ⟨part, hpart, hnode⟩ := h
  refine fun hplain => hrepeats fun mark hmark => hplain mark (hpart.skeleton_subset ?_)
  obtain ⟨before, after, rfl⟩ := List.append_of_mem hnode
  rw [skeleton_cons, skeleton_nil, List.append_nil] at hmark
  rw [skeleton_append, skeleton_cons]
  exact List.mem_append_right _ (List.mem_append_left _ hmark)

theorem walkAll_fill_subset (h : node ∈ nodes) :
    FormNode.walkAll (fill record bindings node) ⊆
      FormNode.walkAll (fillAll record bindings nodes) := by
  obtain ⟨before, after, rfl⟩ := List.append_of_mem h
  intro made hmade
  rw [fillAll_append, FormNode.walkAll_append, fillAll, FormNode.walkAll_append]
  exact List.mem_append_right _ (List.mem_append_left _ hmade)

/-- What a node is filled with holds what its contents are filled with. -/
theorem Enters.walk_subset (h : outer.Enters record.passing bindings inner) :
    FormNode.walkAll (fillAll record inner outer.contents) ⊆
      FormNode.walkAll (fill record bindings outer) := by
  have hbelow : ∀ {surrounding made : FormNode},
      made ∈ FormNode.walkAll surrounding.children → made ∈ FormNode.walkAll [surrounding] := by
    intro surrounding made hmade
    rw [FormNode.walkAll, FormNode.walk_eq]
    exact List.mem_append_left _ (List.mem_cons_of_mem _ hmade)
  cases outer with
  | group kind children =>
    obtain rfl := h
    exact fun made hmade => hbelow hmade
  | header label controls =>
    obtain rfl := h
    exact fun made hmade => hbelow hmade
  | field address input label options controls =>
    obtain rfl := h
    exact fun made hmade => hbelow hmade
  | guard test target children =>
    obtain ⟨hpasses, rfl⟩ := h
    rw [fill, if_pos (Instance.guards_passing.mp hpasses)]
    exact List.Subset.refl _
  | iteration siblings var item children =>
    obtain ⟨number, ⟨hpos, hle⟩, rfl⟩ := h
    have hnumber : number ∈ List.range' 1 (record.count (siblings.substitute bindings)) :=
      List.mem_range'_1.mpr ⟨hpos, by omega⟩
    obtain ⟨before, after, hrange⟩ := List.append_of_mem hnumber
    intro made hmade
    rw [fill, hrange, List.map_append, List.map_cons, FormNode.walkAll_append, FormNode.walkAll,
      FormNode.walk_eq]
    exact List.mem_append_right _ (List.mem_append_left _ (List.mem_cons_of_mem _ hmade))
  | toggle label children =>
    obtain rfl := h
    exact fun made hmade => hbelow hmade
  | affordance => exact List.nil_subset _
  | choicePrompt => exact List.nil_subset _
  | recursive => exact List.nil_subset _

/-- What filling comes to is in the form. -/
theorem Comes.walk_subset (h : Comes record.passing bindings nodes final node) :
    FormNode.walkAll (fill record final node) ⊆
      FormNode.walkAll (fillAll record bindings nodes) := by
  obtain ⟨part, hpart, hnode⟩ := h
  induction hpart with
  | here => exact walkAll_fill_subset hnode
  | inside houter henters _ ih =>
    have houter := List.Subset.trans henters.walk_subset (walkAll_fill_subset houter)
    exact List.Subset.trans (ih hnode) houter

end TemplateNode

namespace Compile

open TemplateNode

variable {scope : Scope} {passing : Passing} {bindings final : Bindings} {nodes : List TemplateNode}
  {found : TemplateNode}

theorem guarded_of_root {address : Address} (hroot : address.parent? = none) :
    scope.guarded address nodes = nodes := by
  simp [Scope.guarded, hroot]

theorem guarded_of_edit (hedit : scope.mode = .edit) {address parent : Address}
    (hparent : address.parent? = some parent) :
    scope.guarded address nodes = [.guard .present parent nodes] := by
  simp [Scope.guarded, hparent, Scope.isEdit, hedit]

/-- A repetition where it is shown for editing: wherever the element above is there. -/
def Scope.repeatedBelow (scope : Scope) (parent place : Address) (node : SchemaNode)
    (rows : List TemplateNode) : TemplateNode :=
  .guard .present parent (scope.repeated place node rows)

theorem not_unrepeated_repeatedBelow (parent place : Address) (node : SchemaNode)
    (rows : List TemplateNode) : ¬ Unrepeated [scope.repeatedBelow parent place node rows] := by
  intro hplain
  have hmark := hplain (.iteration place.siblingPath (itemVariable place) (itemAddress place))
  rw [Scope.repeatedBelow, skeleton_guard, skeleton_repeated, skeleton_itemIteration] at hmark
  exact absurd (hmark List.mem_cons_self) (by simp [Mark.isIteration])

section Below

variable {parent place : Address} {node : SchemaNode} {rows : List TemplateNode}

theorem repeatedBelow_ne_group {kind : GroupKind} {children : List TemplateNode} :
    scope.repeatedBelow parent place node rows ≠ .group kind children := by
  simp [Scope.repeatedBelow]

theorem repeatedBelow_ne_iteration {siblings item : Address} {var : String}
    {children : List TemplateNode} :
    scope.repeatedBelow parent place node rows ≠ .iteration siblings var item children := by
  simp [Scope.repeatedBelow]

/-- A guard around rows is not the guard around a whole repetition. -/
theorem repeatedBelow_ne_rows {target address : Address} {items others : List TemplateNode} :
    scope.repeatedBelow parent place node rows ≠
      .guard .present target (itemIteration address items :: others) := by
  simp [Scope.repeatedBelow, Scope.repeated, itemIteration]

end Below

section Content

variable {address : Address} {above : SchemaNode} {row : Option Row}

/-- Around the content of an element there is its header, in which nothing repeats. -/
theorem content_of_comes (hfound : ∀ kind children, found ≠ .group kind children)
    (hrepeats : ¬ Unrepeated [found])
    (h : Comes passing bindings [scope.elementGroup address above row nodes] final found) :
    Comes passing bindings nodes final found := by
  have hheader : ∀ {others : List TemplateNode},
      Comes passing bindings (scope.header address above (row.map Row.var) :: others) final found →
        Comes passing bindings others final found := by
    intro others hcomes
    refine (comes_cons.mp hcomes).resolve_left fun hinside => ?_
    exact hinside.not_unrepeated hrepeats (unrepeated_of_controls (skeleton_header address above _))
  have hgroup : ∀ {kind : GroupKind} {children : List TemplateNode},
      Comes passing bindings [.group kind children] final found →
        Comes passing bindings children final found := by
    intro kind children hcomes
    rcases comes_singleton.mp hcomes with ⟨hself, -⟩ | ⟨inner, henters, hinside⟩
    · exact absurd hself (hfound kind children)
    · obtain rfl := henters
      exact hinside
  unfold Scope.elementGroup at h
  split at h
  · exact hheader (hgroup h)
  · exact hgroup (hheader (hgroup h))

/-- The other way round, the content is inside of the group. -/
theorem comes_elementGroup (h : Comes passing bindings nodes final found) :
    Comes passing bindings [scope.elementGroup address above row nodes] final found := by
  have hgroup : ∀ {kind : GroupKind} {children : List TemplateNode},
      Comes passing bindings children final found →
        Comes passing bindings [.group kind children] final found := fun hcomes =>
    .inside List.mem_cons_self rfl hcomes
  unfold Scope.elementGroup
  split
  · exact hgroup (comes_cons.mpr (Or.inr h))
  · exact hgroup (comes_cons.mpr (Or.inr (hgroup h)))

end Content

/-- A guard around the node, in the same row, asks whether something is there on the way to the
parent. -/
def AsksOnWay (parent : Address) (found : TemplateNode) : TemplateNode → Prop
  | .guard test target children => ∀ bindings final,
      Comes .sameRow bindings children final found →
        test = .present ∧ target.segments ≠ [] ∧ target.segments <+: parent.segments
  | _ => True

/-- Guards around the node ask on the way to the parent, and if the node is in the same row as the
nodes, these are on the way too. -/
structure OnWay (parent : Address) (found : TemplateNode) (way : Prop)
    (nodes : List TemplateNode) : Prop where
  asks : Throughout (AsksOnWay parent found) nodes
  comes : ∀ bindings final, Comes .sameRow bindings nodes final found → way

namespace OnWay

variable {parent : Address} {way wider : Prop} {left right : List TemplateNode}

theorem of_unrepeated (hrepeats : ¬ Unrepeated [found]) (h : Unrepeated nodes) :
    OnWay parent found way nodes := by
  refine ⟨fun node hnode => ?_, fun _ _ hcomes => absurd h (hcomes.not_unrepeated hrepeats)⟩
  cases node with
  | guard test target children =>
    intro bindings final hcomes
    exact absurd (h.contents hnode) (hcomes.not_unrepeated hrepeats)
  | _ => trivial

theorem of_controls (hrepeats : ¬ Unrepeated [found]) (h : skeleton nodes = []) :
    OnWay parent found way nodes :=
  of_unrepeated hrepeats (unrepeated_of_controls h)

theorem imp (h : OnWay parent found way nodes) (hwider : way → wider) :
    OnWay parent found wider nodes :=
  ⟨h.asks, fun bindings final hcomes => hwider (h.comes bindings final hcomes)⟩

theorem append (hleft : OnWay parent found way left) (hright : OnWay parent found way right) :
    OnWay parent found way (left ++ right) :=
  ⟨throughout_append.mpr ⟨hleft.asks, hright.asks⟩, fun bindings final hcomes =>
    (comes_append.mp hcomes).elim (hleft.comes bindings final) (hright.comes bindings final)⟩

theorem group {kind : GroupKind} (hfound : ∀ kind children, found ≠ .group kind children)
    (h : OnWay parent found way nodes) : OnWay parent found way [.group kind nodes] := by
  refine ⟨throughout_cons.mpr ⟨trivial, h.asks, throughout_nil⟩, fun bindings final hcomes => ?_⟩
  rcases comes_singleton.mp hcomes with ⟨hself, -⟩ | ⟨inner, henters, hinside⟩
  · exact absurd hself (hfound kind nodes)
  · obtain rfl := henters
    exact h.comes _ _ hinside

/-- The rows of an iteration are other rows. -/
theorem iteration {siblings item : Address} {var : String}
    (hfound : ∀ siblings var item children, found ≠ .iteration siblings var item children)
    (h : Throughout (AsksOnWay parent found) nodes) :
    OnWay parent found False [.iteration siblings var item nodes] := by
  refine ⟨throughout_cons.mpr ⟨trivial, h, throughout_nil⟩, fun bindings final hcomes => ?_⟩
  rcases comes_singleton.mp hcomes with ⟨hself, -⟩ | ⟨inner, henters, hinside⟩
  · exact hfound _ _ _ _ hself
  · obtain ⟨number, hrow, -⟩ := henters
    exact hrow

/-- A guard that asks on the way stands on the way itself, if the node is not this guard. -/
theorem guard {target : Address} (hself : found = .guard .present target nodes → wider)
    (hne : target.segments ≠ []) (htarget : way → target.segments <+: parent.segments)
    (hwider : way → wider) (h : OnWay parent found way nodes) :
    OnWay parent found wider [.guard .present target nodes] := by
  refine ⟨throughout_cons.mpr ⟨?_, h.asks, throughout_nil⟩, fun bindings final hcomes => ?_⟩
  · exact fun bindings final hcomes => ⟨rfl, hne, htarget (h.comes bindings final hcomes)⟩
  · rcases comes_singleton.mp hcomes with ⟨heq, -⟩ | ⟨inner, ⟨-, rfl⟩, hinside⟩
    · exact hself heq
    · exact hwider (h.comes _ _ hinside)

end OnWay

/-- The place that nodes are made for is on the way to the parent; branches are rows only. -/
def Task.OnWay (parent : Address) : Task → Prop
  | .branches _ => False
  | .shown address => ∀ above, address.parent? = some above →
      above.segments <+: parent.segments
  | task => task.place.segments <+: parent.segments

theorem onWay_elementGroup {parent address : Address} {above : SchemaNode} {row : Option Row}
    {way : Prop} (hfound : ∀ kind children, found ≠ .group kind children)
    (hrepeats : ¬ Unrepeated [found]) (h : OnWay parent found way nodes) :
    OnWay parent found way [scope.elementGroup address above row nodes] := by
  have hheader : ∀ {others : List TemplateNode}, OnWay parent found way others →
      OnWay parent found way (scope.header address above (row.map Row.var) :: others) := by
    intro others hothers
    exact .append (.of_controls hrepeats (skeleton_header address above _)) hothers
  unfold Scope.elementGroup
  split
  · exact .group hfound (hheader h)
  · exact .group hfound (hheader (.group hfound h))

/-- In a template for editing, guards around a repetition in its row ask on the way to its parent.
The one guard that asks for something else, for an element that others stand in for, is around
the rows of these. -/
theorem onWay_of_renders (hedit : scope.mode = .edit) {task : Task} {nodes : List TemplateNode}
    (h : Renders scope task nodes) (hne : task.place.segments ≠ []) {parent place : Address}
    {node : SchemaNode} {rows : List TemplateNode} :
    OnWay parent (scope.repeatedBelow parent place node rows) (task.OnWay parent) nodes := by
  have hrepeats : ¬ Unrepeated [scope.repeatedBelow parent place node rows] :=
    not_unrepeated_repeatedBelow parent place node rows
  have hgroup : ∀ kind children,
      scope.repeatedBelow parent place node rows ≠ .group kind children := fun _ _ =>
    repeatedBelow_ne_group
  have hiteration : ∀ siblings var item children,
      scope.repeatedBelow parent place node rows ≠ .iteration siblings var item children :=
    fun _ _ _ _ => repeatedBelow_ne_iteration
  have hchild : ∀ (here : Address) (name : PrefixedName), (here.child name).segments ≠ [] := by
    simp [Address.child]
  induction h with
  | recursive => exact .of_unrepeated hrepeats (unrepeated_recursive _)
  | scalar => exact .of_unrepeated hrepeats (unrepeated_scalarField _ _ _ _)
  | anything => exact .of_unrepeated hrepeats (unrepeated_anyField _ _ _)
  | element hnode hexpanded hcontent ih => exact onWay_elementGroup hgroup hrepeats (ih hne)
  | textOnly hnode hexpanded htext ih => exact ih hne
  | restricted => exact .of_unrepeated hrepeats unrepeated_nil
  | value hnode hcontent ih =>
    refine .group hgroup (.append ?_ (ih hne))
    exact .of_unrepeated hrepeats (unrepeated_scalarField _ _ _ _)
  | extended htext hcontent ihtext ihcontent =>
    exact .group hgroup (.append (ihtext hne) (ihcontent hne))
  | nothing => exact .of_unrepeated hrepeats unrepeated_nil
  | append hleft hright ihleft ihright => exact .append (ihleft hne) (ihright hne)
  | ownText htext ih => exact ih hne
  | compositor hcontent ih => exact .group hgroup (ih hne)
  | @attributeUse here name nodes hshown ih =>
    exact (ih (by simp [Task.place, Address.attr])).imp fun hway =>
      hway here (Address.parent?_attr here name hne)
  | @child here name nodes hshown ih =>
    exact (ih (hchild here name)).imp fun hway => hway here (Address.parent?_child here name hne)
  | @alternative here name nodes hnode ih =>
    have hparent := Address.parent?_child here name hne
    refine .guard (fun hself => ?_) (hchild here name) id (prefix_of_parent? hparent)
      (ih (hchild here name))
    obtain ⟨-, rfl, -⟩ := TemplateNode.guard.inj hself
    exact prefix_of_parent? hparent (List.prefix_refl _)
  | choices hbranches ih => exact (ih hne).imp False.elim
  | singlePrompt => exact .of_controls hrepeats (skeleton_singlePrompt _ _ _)
  | repeatedPrompt => exact .of_controls hrepeats (skeleton_repeatedPrompt _ _ _)
  | noBranch => exact .of_unrepeated hrepeats unrepeated_nil
  | @branch here name node isCollapsible nodes hnode hname hitem ih =>
    have hrows := (ih (itemAddress_ne_nil (hchild here name))).asks
    exact .guard (absurd · repeatedBelow_ne_rows) (hchild here name) False.elim False.elim
      (.iteration hiteration hrows)
  | moreBranches hleft hright ihleft ihright => exact .append (ihleft hne) (ihright hne)
  | single hclassified hhead hrepeating hoccurrence ih => exact ih hne
  | @repeating address above items hnode hrecursive hplain hrepeating hitem ih =>
    have hrows := (ih (itemAddress_ne_nil hne)).asks
    have hsiblings : address.siblingPath.segments ≠ [] := by
      rw [← List.length_pos_iff] at hne ⊢
      change 0 < address.siblingPath.depth
      rw [Address.depth_siblingPath]
      exact hne
    refine .append (.guard (absurd · repeatedBelow_ne_rows) hsiblings False.elim False.elim
      (.append (.iteration hiteration hrows) ?_)) ?_
    · exact .of_controls hrepeats (skeleton_addSibling _ _)
    · exact .of_controls hrepeats (skeleton_addFirst _ _)
  | @head address above node members hnode hrecursive hhead hparent hmembers ih =>
    refine .append ((ih (Address.segments_of_parent? hparent).1).imp False.elim) ?_
    exact .of_controls hrepeats (skeleton_memberControl address above node)
  | hidden => exact .of_unrepeated hrepeats unrepeated_nil
  | @shown address nodes hnode ih =>
    cases habove : address.parent? with
    | none =>
      rw [guarded_of_root habove]
      exact (ih hne).imp fun _ above hparent => absurd (habove.symm.trans hparent) (by simp)
    | some above =>
      have hway : ∀ {other : Address}, address.parent? = some other →
          above.segments <+: parent.segments → other.segments <+: parent.segments := by
        intro other hother hfront
        exact Option.some.inj (habove.symm.trans hother) ▸ hfront
      rw [guarded_of_edit hedit habove]
      refine .guard (fun hself other hother => ?_) (Address.segments_of_parent? habove).1
        (prefix_of_parent? habove) (fun hplace other hother => hway hother ?_) (ih hne)
      · obtain ⟨-, rfl, -⟩ := TemplateNode.guard.inj hself
        exact hway hother (List.prefix_refl _)
      · exact prefix_of_parent? habove hplace

/-- In one row, filling comes to a repetition whose parent is there. -/
theorem comes_of_sameRow {record : Instance} {parent : Address}
    (hasks : Throughout (AsksOnWay parent found) nodes)
    (helements : ∀ segment ∈ parent.segments, segment.isAttribute = false)
    (hselects : record.elements (parent.substitute bindings) ≠ [])
    (h : Comes .sameRow bindings nodes final found) :
    Comes record.passing bindings nodes bindings found := by
  obtain ⟨part, hpart, hfound⟩ := h
  induction hpart with
  | here => exact .here hfound
  | @inside bindings inner final nodes outer part houter henters hinner ih =>
    obtain ⟨before, after, rfl⟩ := List.append_of_mem houter
    obtain ⟨hself, hcontents, -⟩ := throughout_cons.mp (throughout_append.mp hasks).2
    cases outer with
    | guard test target children =>
      obtain ⟨-, rfl⟩ := henters
      obtain ⟨rfl, hne, hbegins⟩ := hself _ _ ⟨part, hinner, hfound⟩
      have hleads := Address.leadsTo_of_prefix hbegins helements hne
      have hcount := Instance.count_pos_of_leadsTo (Address.leadsTo_substitute hleads _) hselects
      exact .inside houter ⟨Instance.holds_present.mpr hcount, rfl⟩ (ih hcontents hselects hfound)
    | iteration siblings var item children =>
      obtain ⟨number, hrow, -⟩ := henters
      exact hrow.elim
    | _ =>
      obtain rfl := henters
      exact .inside houter rfl (ih hcontents hselects hfound)

end Compile

end SchemaForms
