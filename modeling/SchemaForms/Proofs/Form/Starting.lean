import SchemaForms.Proofs.Form.Closed
import SchemaForms.Proofs.Form.Coming

/-!
Starting a repetition. While a node has no occurrence, the form has a control for the first one:
beside the node, or in the header of the element above, if the node is all that repeats there. Both
are decided from the same entry of the index, but apart from each other, so the header has to be
found first. Every repetition in a template for editing is shown below its parent, and the parent is
a group with a header, unless it is a box; but nothing repeats in a box.
-/

namespace SchemaForms

namespace Address

theorem eq_of_parent?_child {here parent : Address} {name : PrefixedName}
    (h : (here.child name).parent? = some parent) : here = parent := by
  obtain ⟨-, leaf, hsegments⟩ := segments_of_parent? h
  exact congrArg Address.mk (List.append_inj' hsegments rfl).1

theorem eq_of_parent?_attr {here parent : Address} {name : PrefixedName}
    (h : (here.attr name).parent? = some parent) : here = parent := by
  obtain ⟨-, leaf, hsegments⟩ := segments_of_parent? h
  exact congrArg Address.mk (List.append_inj' hsegments rfl).1

/-- The siblings of an element are called below its parent as the element is in the schema. -/
theorem siblingPath_of_parent? {address parent : Address} (hparent : address.parent? = some parent)
    (helement : address.isAttribute = false) : ∃ name,
      address.siblingPath = parent.child name ∧ address.schemaAddress.leafName? = some name := by
  obtain ⟨-, leaf, hsegments⟩ := segments_of_parent? hparent
  cases leaf with
  | attr name => simp [isAttribute, leaf?, hsegments, Segment.isAttribute] at helement
  | element name index =>
    refine ⟨name, ?_, ?_⟩
    · simp [siblingPath, child, hsegments, setLeafIndex_append, Segment.withIndex]
    · simp [leafName?, leaf?, schemaAddress, hsegments, Segment.withoutIndex, Segment.withIndex,
        Segment.name]

end Address

namespace Compile

open TemplateNode

variable {scope : Scope} {record : Instance} {passing : Passing}

/-- The siblings of the repetition that nodes begin with. -/
def leading? : List TemplateNode → Option Address
  | .guard _ _ (.iteration siblings _ _ _ :: _) :: _ => some siblings
  | _ => none

/-- What is known of the repetition that the nodes of a place begin with: it is at the place. -/
def Task.Leads (nodes : List TemplateNode) : Task → Prop
  | .occurrence .. => leading? nodes = none
  | .text .. => leading? nodes = none
  | .branches here => ∀ node ∈ nodes, ∃ name, ∀ others,
      leading? (node :: others) = some (here.child name)
  | .node address => ∀ siblings, leading? nodes = some siblings → siblings.depth = address.depth
  | _ => True

theorem leads_of_renders {task : Task} {nodes : List TemplateNode} (h : Renders scope task nodes) :
    task.Leads nodes := by
  induction h with
  | recursive => rfl
  | scalar => rfl
  | anything => rfl
  | element =>
    rw [Task.Leads, Scope.elementGroup]
    split <;> rfl
  | textOnly _ _ _ ih => exact ih
  | restricted => rfl
  | value => rfl
  | extended => rfl
  | noBranch => simp [Task.Leads]
  | @branch here name =>
    intro node hnode
    obtain rfl := List.mem_singleton.mp hnode
    exact ⟨name, fun others => by simp [leading?, itemIteration]⟩
  | moreBranches _ _ ihleft ihright =>
    exact fun node hnode => (List.mem_append.mp hnode).elim (ihleft node) (ihright node)
  | single _ _ _ _ ih =>
    intro siblings hleading
    rw [show leading? _ = none from ih] at hleading
    contradiction
  | @repeating address node rows =>
    intro siblings hleading
    obtain rfl := Option.some.inj hleading
    exact Address.depth_siblingPath address
  | @head address parent node members _ _ _ hparent _ ih =>
    intro siblings hleading
    obtain ⟨-, leaf, hsegments⟩ := Address.segments_of_parent? hparent
    cases members with
    | nil =>
      rw [List.nil_append, Scope.editing, Scope.memberControl] at hleading
      split at hleading
      · split at hleading <;> simp [leading?, Scope.addMember] at hleading
      · simp [leading?] at hleading
    | cons member others =>
      obtain ⟨name, hmember⟩ := ih member List.mem_cons_self
      rw [List.cons_append, hmember] at hleading
      obtain rfl := Option.some.inj hleading
      simp [Address.depth, Address.child, hsegments]
  | _ => trivial

/-- The group of an element with its header, around the node that filling comes to. -/
def Headed (scope : Scope) (passing : Passing) (bindings : Bindings) (nodes : List TemplateNode)
    (final : Bindings) (parent : Address) (found : TemplateNode) : Prop :=
  ∃ above row content,
    Comes passing bindings nodes final (scope.elementGroup parent above row content) ∧
      Comes passing final content final found

section Headed

variable {bindings inner final : Bindings} {parent : Address} {found : TemplateNode}
  {left right nodes : List TemplateNode}

theorem Headed.mono (h : Headed scope passing bindings left final parent found)
    (hsubset : left ⊆ right) : Headed scope passing bindings right final parent found := by
  obtain ⟨above, row, content, hgroup, hfound⟩ := h
  exact ⟨above, row, content, hgroup.mono hsubset, hfound⟩

theorem Headed.inside {outer : TemplateNode} (henters : outer.Enters passing bindings inner)
    (hcontents : outer.contents = nodes)
    (h : Headed scope passing inner nodes final parent found) :
    Headed scope passing bindings [outer] final parent found := by
  subst hcontents
  obtain ⟨above, row, content, hgroup, hfound⟩ := h
  exact ⟨above, row, content, .inside List.mem_cons_self henters hgroup, hfound⟩

end Headed

/-- What is known of the group around a repetition below a place: it is among the nodes, or the
nodes are made for the place below which the repetition is. -/
def Task.Heads (scope : Scope) (passing : Passing) (bindings : Bindings)
    (nodes : List TemplateNode) (final : Bindings) (parent : Address) (found : TemplateNode) :
    Task → Prop
  | .content here => Headed scope passing bindings nodes final parent found ∨
      (here = parent ∧ final = bindings)
  | .shown address => Headed scope passing bindings nodes final parent found ∨
      (address.parent? = some parent ∧ final = bindings)
  | _ => Headed scope passing bindings nodes final parent found

theorem unrepeated_of_text {address : Address} {row : Option Row} {nodes : List TemplateNode}
    (h : Renders scope (.text address row) nodes) (hboxes : PlainBoxes nodes) :
    Unrepeated nodes := by
  have hbox : ∀ {inner : List TemplateNode}, PlainBoxes [.group .box inner] →
      Unrepeated [.group .box inner] := by
    intro inner hboxes
    have hinner : Unrepeated inner := (throughout_cons.mp hboxes).1
    rwa [Unrepeated, skeleton_group]
  cases h with
  | restricted => exact unrepeated_nil
  | value => exact hbox hboxes
  | extended => exact hbox hboxes

theorem plainBoxes_elementGroup {address : Address} {above : SchemaNode} {row : Option Row}
    {nodes : List TemplateNode} (h : PlainBoxes [scope.elementGroup address above row nodes]) :
    PlainBoxes nodes := by
  unfold Scope.elementGroup at h
  split at h
  · obtain ⟨-, -, hnodes⟩ := throughout_cons.mp (throughout_cons.mp h).2.1
    exact hnodes
  · obtain ⟨-, -, hinner⟩ := throughout_cons.mp (throughout_cons.mp h).2.1
    exact (throughout_cons.mp hinner).2.1

/-- Wherever filling comes to a repetition below an element, it passes the header of the element. -/
theorem heads_of_renders (hedit : scope.mode = .edit) {task : Task} {nodes : List TemplateNode}
    (h : Renders scope task nodes) {parent place : Address} {node : SchemaNode}
    {rows : List TemplateNode} (hparent : place.parent? = some parent)
    {bindings final : Bindings} (hboxes : PlainBoxes nodes)
    (hcomes : Comes passing bindings nodes final (scope.repeatedBelow parent place node rows)) :
    task.Heads scope passing bindings nodes final parent
      (scope.repeatedBelow parent place node rows) := by
  have hrepeats : ¬ Unrepeated [scope.repeatedBelow parent place node rows] :=
    not_unrepeated_repeatedBelow parent place node rows
  have hplace : place.depth = parent.depth + 1 := by
    obtain ⟨-, leaf, hsegments⟩ := Address.segments_of_parent? hparent
    simp [Address.depth, hsegments]
  induction h generalizing bindings with
  | recursive =>
    exact absurd (unrepeated_recursive _) (hcomes.not_unrepeated hrepeats)
  | scalar =>
    exact absurd (unrepeated_scalarField _ _ _ _) (hcomes.not_unrepeated hrepeats)
  | anything =>
    exact absurd (unrepeated_anyField _ _ _) (hcomes.not_unrepeated hrepeats)
  | @element address row above content hnode hexpanded hcontent ih =>
    have hinside := content_of_comes (fun _ _ => repeatedBelow_ne_group) hrepeats hcomes
    rcases ih (plainBoxes_elementGroup hboxes) hinside with hheaded | ⟨rfl, rfl⟩
    · obtain ⟨inner, other, around, hgroup, hfound⟩ := hheaded
      exact ⟨inner, other, around, comes_elementGroup hgroup, hfound⟩
    · exact ⟨above, row, content, .here List.mem_cons_self, hinside⟩
  | textOnly hnode hexpanded htext ih =>
    exact absurd (unrepeated_of_text htext hboxes) (hcomes.not_unrepeated hrepeats)
  | restricted => exact absurd unrepeated_nil (hcomes.not_unrepeated hrepeats)
  | value hnode hcontent ih =>
    exact absurd (unrepeated_of_text (.value hnode hcontent) hboxes)
      (hcomes.not_unrepeated hrepeats)
  | extended htext hcontent ihtext ihcontent =>
    exact absurd (unrepeated_of_text (.extended htext hcontent) hboxes)
      (hcomes.not_unrepeated hrepeats)
  | nothing => exact absurd unrepeated_nil (hcomes.not_unrepeated hrepeats)
  | append hleft hright ihleft ihright =>
    obtain ⟨hboxesLeft, hboxesRight⟩ := plainBoxes_append.mp hboxes
    rcases comes_append.mp hcomes with hin | hin
    · exact (ihleft hboxesLeft hin).imp_left (.mono · (List.subset_append_left _ _))
    · exact (ihright hboxesRight hin).imp_left (.mono · (List.subset_append_right _ _))
  | ownText htext ih =>
    exact absurd (unrepeated_of_text htext hboxes) (hcomes.not_unrepeated hrepeats)
  | compositor hcontent ih =>
    rcases comes_singleton.mp hcomes with ⟨hself, -⟩ | ⟨inner, henters, hinside⟩
    · exact absurd hself repeatedBelow_ne_group
    · obtain rfl := henters
      exact (ih (throughout_cons.mp hboxes).2.1 hinside).imp_left (.inside rfl rfl)
  | @attributeUse here name nodes hshown ih =>
    exact (ih hboxes hcomes).imp_right (And.imp_left Address.eq_of_parent?_attr)
  | @child here name nodes hshown ih =>
    exact (ih hboxes hcomes).imp_right (And.imp_left Address.eq_of_parent?_child)
  | @alternative here name nodes hnode ih =>
    rcases comes_singleton.mp hcomes with ⟨hself, -⟩ | ⟨inner, henters, hinside⟩
    · -- A member of a choice stands under a guard of its own, and what repeats there is the member.
      obtain ⟨-, rfl, rfl⟩ := TemplateNode.guard.inj hself
      have hdepth := leads_of_renders hnode place.siblingPath rfl
      rw [Address.depth_siblingPath] at hdepth
      omega
    · obtain ⟨hholds, rfl⟩ := henters
      exact Or.inl (.inside ⟨hholds, rfl⟩ rfl (ih (throughout_cons.mp hboxes).2.1 hinside))
  | choices hbranches ih => exact Or.inl (ih hboxes hcomes)
  | singlePrompt =>
    exact absurd (unrepeated_of_controls (skeleton_singlePrompt _ _ _))
      (hcomes.not_unrepeated hrepeats)
  | repeatedPrompt =>
    exact absurd (unrepeated_of_controls (skeleton_repeatedPrompt _ _ _))
      (hcomes.not_unrepeated hrepeats)
  | noBranch => exact absurd unrepeated_nil (hcomes.not_unrepeated hrepeats)
  | branch hnode hname hitem ih =>
    obtain ⟨-, hiteration, -⟩ := throughout_cons.mp hboxes
    rcases comes_singleton.mp hcomes with ⟨hself, -⟩ | ⟨inner, ⟨hholds, rfl⟩, hinside⟩
    · exact absurd hself repeatedBelow_ne_rows
    · rcases comes_singleton.mp hinside with ⟨hself, -⟩ | ⟨row, henters, hrow⟩
      · exact absurd hself repeatedBelow_ne_iteration
      · have hheaded := ih (throughout_cons.mp hiteration).2.1 hrow
        exact .inside ⟨hholds, rfl⟩ rfl (.inside henters rfl hheaded)
  | moreBranches hleft hright ihleft ihright =>
    obtain ⟨hboxesLeft, hboxesRight⟩ := plainBoxes_append.mp hboxes
    rcases comes_append.mp hcomes with hin | hin
    · exact (ihleft hboxesLeft hin).mono (List.subset_append_left _ _)
    · exact (ihright hboxesRight hin).mono (List.subset_append_right _ _)
  | single hclassified hhead hrepeating hoccurrence ih => exact ih hboxes hcomes
  | repeating hnode hrecursive hplain hrepeating hitem ih =>
    obtain ⟨-, hiteration, -⟩ := throughout_cons.mp (plainBoxes_append.mp hboxes).1
    rcases comes_append.mp hcomes with hrows | hcontrols
    · refine Headed.mono ?_ (List.subset_append_left _ _)
      rcases comes_singleton.mp hrows with ⟨hself, -⟩ | ⟨inner, ⟨hholds, rfl⟩, hinside⟩
      · exact absurd hself repeatedBelow_ne_rows
      · rcases comes_cons.mp hinside with hin | hcontrols
        · rcases comes_singleton.mp hin with ⟨hself, -⟩ | ⟨row, henters, hrow⟩
          · exact absurd hself repeatedBelow_ne_iteration
          · have hheaded := ih (throughout_cons.mp hiteration).2.1 hrow
            refine .inside ⟨hholds, rfl⟩ rfl (Headed.mono (.inside henters rfl hheaded) ?_)
            exact List.subset_append_left _ _
        · exact absurd (unrepeated_of_controls (skeleton_addSibling _ _))
            (hcontrols.not_unrepeated hrepeats)
    · exact absurd (unrepeated_of_controls (skeleton_addFirst _ _))
        (hcontrols.not_unrepeated hrepeats)
  | @head address above node members hnode hrecursive hhead habove hmembers ih =>
    rcases comes_append.mp hcomes with hin | hcontrols
    · exact (ih (plainBoxes_append.mp hboxes).1 hin).mono (List.subset_append_left _ _)
    · exact absurd (unrepeated_of_controls (skeleton_memberControl address above node))
        (hcontrols.not_unrepeated hrepeats)
  | hidden => exact absurd unrepeated_nil (hcomes.not_unrepeated hrepeats)
  | @shown address nodes hnode ih =>
    cases habove : address.parent? with
    | none =>
      rw [guarded_of_root habove] at hcomes hboxes ⊢
      exact Or.inl (ih hboxes hcomes)
    | some above =>
      rw [guarded_of_edit hedit habove] at hcomes hboxes ⊢
      rcases comes_singleton.mp hcomes with ⟨hself, hfinal⟩ | ⟨inner, ⟨hholds, rfl⟩, hinside⟩
      · obtain ⟨-, rfl, -⟩ := TemplateNode.guard.inj hself
        exact Or.inr ⟨habove, hfinal⟩
      · exact Or.inl (.inside ⟨hholds, rfl⟩ rfl (ih (throughout_cons.mp hboxes).2.1 hinside))

/-- While what the header starts is absent, filling comes to the control that starts it. -/
theorem comes_startControl (hedit : scope.mode = .edit) {parent singleton : Address}
    {name : PrefixedName} (hsingleton : scope.index.repeatingSingletonOf? parent = some singleton)
    (hname : singleton.leafName? = some name) (isRow : Bool) {bindings : Bindings}
    (habsent : record.count ((parent.child name).substitute bindings) = 0) :
    Comes record.passing bindings (scope.editing (scope.headerControls parent isRow)) bindings
      (.affordance .addChild (parent.child name) ("add " ++ leafText (parent.child name)) []) := by
  have hmember : startControl (parent.child name) ∈
      scope.editing (scope.headerControls parent isRow) := by
    simp [Scope.editing, Scope.isEdit, hedit, Scope.headerControls, hsingleton, hname]
  refine .inside hmember ⟨?_, rfl⟩ (.here List.mem_cons_self)
  simp [Instance.holds, MaxOccurs.admitsMore, habsent]

/-- The form has a group with a header that holds a node. -/
def HeadedWith (nodes : List FormNode) (control : FormNode) : Prop :=
  ∃ kind caption controls others,
    nodes = [.group kind (.header caption controls :: others)] ∧
      control ∈ FormNode.walkAll controls

theorem headedWith_elementGroup {parent : Address} {above : SchemaNode} {row : Option Row}
    {content : List TemplateNode} {bindings : Bindings} {kind : AffordanceKind} {target : Address}
    {label : String} {candidates : List PrefixedName}
    (h : Comes record.passing bindings
      (scope.editing (scope.headerControls parent (row.map Row.var).isSome)) bindings
      (.affordance kind target label candidates)) :
    HeadedWith (fill record bindings (scope.elementGroup parent above row content))
      (.affordance kind (target.substitute bindings) label candidates) := by
  have hcontrol := h.walk_subset (List.mem_append_left _ List.mem_cons_self)
  unfold Scope.elementGroup
  split
  · exact ⟨_, _, _, _, rfl, hcontrol⟩
  · exact ⟨_, _, _, _, rfl, hcontrol⟩

/-- Beside a repetition that its header does not start, filling comes to the control for the first
occurrence, if there is none. -/
theorem comes_addFirst (hedit : scope.mode = .edit) {parent place : Address} {node : SchemaNode}
    {rows nodes : List TemplateNode} {bindings final : Bindings}
    (hcomes : Comes record.passing bindings nodes final
      (scope.repeatedBelow parent place node rows))
    (hstarted : scope.isStartedAbove place = false)
    (hparent : 0 < record.count (parent.substitute final))
    (habsent : record.count (place.siblingPath.substitute final) = 0) :
    Comes record.passing bindings nodes final
      (.affordance .addFirst place.siblingPath (Scope.addLabel place.siblingPath) []) := by
  have hmember : Scope.addFirst place.siblingPath ∈ scope.repeated place node rows := by
    simp [Scope.repeated, Scope.editing, Scope.isEdit, hedit, hstarted]
  refine hcomes.into ⟨Instance.holds_present.mpr hparent, rfl⟩ (.inside hmember ⟨?_, rfl⟩ ?_)
  · simp [Instance.holds, habsent]
  · exact .inside List.mem_cons_self rfl (.here List.mem_cons_self)

/-- The form has a control for the first occurrence of a repetition that is found below its parent:
one that adds it beside the others, or one in the header of the group that is shown for the parent
and that the repetition is found in. -/
def Started (scope : Scope) (record : Instance) (nodes : List TemplateNode) (form : Form)
    (bindings : Bindings) (parent target : Address) (found : TemplateNode) : Prop :=
  (∃ label, .affordance .addFirst target label [] ∈ form.walk) ∨
    ∃ above row content label,
      Comes record.passing [] nodes bindings (scope.elementGroup parent above row content) ∧
      Comes record.passing bindings content bindings found ∧
      FormNode.walkAll (fill record bindings (scope.elementGroup parent above row content)) ⊆
        form.walk ∧
      HeadedWith (fill record bindings (scope.elementGroup parent above row content))
        (.affordance .addChild target label [])

end Compile

open Compile TemplateNode

/-- In a form for editing, a repetition whose parent is there and which has no occurrence can be
started: by a control beside it, or by one in the header of the group that its parent is shown as.
This is so in every part of the template that is filled, with the positions that it is filled with,
wherever the repetition is in the same row, if texts declare attributes only. -/
theorem empty_repetition_started {set : SchemaSet} {namespaces : InstanceNamespaces}
    {roots : List ExpandedName} {index : SchemaIndex}
    (hbuild : SchemaIndex.build set namespaces roots = .ok index)
    (hdepth : ∀ node ∈ index.nodes, node.address.depth ≤ Text.maxWord)
    (htext : set.TextDeclaresAttributes) {root : Address} (hroot : root.depth = 1)
    (hvars : root.vars = []) {compilation : Compilation}
    (hcompile : index.compile .edit root = .ok compilation) {record : Instance} {form : Form}
    (hbind : compilation.template.bind record = .ok form) {part : List TemplateNode}
    {bindings : Bindings}
    (hopens : Opens record.passing [] compilation.template.nodes bindings part)
    {parent place : Address} (hparent : place.parent? = some parent)
    (hrepeating : index.isRepeating place = true) {node : SchemaNode} {rows : List TemplateNode}
    (hplace : Comes .sameRow bindings part bindings
      (Scope.repeatedBelow ⟨index, .edit, root⟩ parent place node rows))
    (hpresent : record.elements (parent.substitute bindings) ≠ [])
    (hempty : record.elements (place.siblingPath.substitute bindings) = []) :
    Started ⟨index, .edit, root⟩ record compilation.template.nodes form bindings parent
      (place.siblingPath.substitute bindings)
      (Scope.repeatedBelow ⟨index, .edit, root⟩ parent place node rows) := by
  let scope : Scope := ⟨index, .edit, root⟩
  obtain ⟨rfl, -, visits, hlists⟩ := SchemaIndex.exists_lists hbuild
  have hform := SchemaIndex.filledFrom_of_bind hbuild hdepth hvars hcompile hbind
  have htells : index.TellsAttributes := fun address found hfound =>
    (hlists.isAttribute_of_nodeOf? hfound).2.1
  have hinForm : ∀ {found : TemplateNode},
      Comes record.passing [] compilation.template.nodes bindings found →
        FormNode.walkAll (fill record bindings found) ⊆ form.walk := by
    intro found hfound
    rw [Form.walk, hform.filled]
    exact hfound.walk_subset
  -- The repetition is of an element, and so is what it is below.
  obtain ⟨found, hnode, hmany⟩ := (Option.any_eq_true _ _).mp hrepeating
  have helement : found.isAttribute = false := by
    simp only [SchemaNode.isRepeating, Bool.and_eq_true, Bool.not_eq_true'] at hmany
    exact hmany.1
  have hsegments := hlists.forall_isAttribute_of_nodeOf? hnode helement
  have hsiblings : place.isAttribute = false := Address.isAttribute_eq_false hsegments
  obtain ⟨-, leaf, hbelow⟩ := Address.segments_of_parent? hparent
  have habove : ∀ segment ∈ parent.segments, segment.isAttribute = false := by
    intro segment hsegment
    exact hsegments segment (hbelow ▸ List.mem_append_left _ hsegment)
  have hcount : 0 < record.count (parent.substitute bindings) := by
    rw [Instance.count_eq_length (by simpa using Address.isAttribute_eq_false habove),
      List.length_pos_iff]
    exact hpresent
  have habsent : record.count (place.siblingPath.substitute bindings) = 0 := by
    rw [Instance.count_eq_length (by simpa using hsiblings), List.length_eq_zero_iff]
    exact hempty
  -- No guard is in the way to it.
  have hrootNe : root.segments ≠ [] := by
    intro hnil
    simp [Address.depth, hnil] at hroot
  have honWay : OnWay parent (scope.repeatedBelow parent place node rows) _ _ :=
    onWay_of_renders rfl hform.renders hrootNe
  have hcomes := hopens.comes
    (comes_of_sameRow (hopens.throughout honWay.asks) habove hpresent hplace)
  cases hstarted : scope.isStartedAbove place with
  | false =>
    have hfirst := comes_addFirst rfl hcomes hstarted hcount habsent
    exact Or.inl ⟨_, hinForm hfirst (List.mem_append_left _ List.mem_cons_self)⟩
  | true =>
    have hsingleton : index.repeatingSingletonOf? parent = some place.schemaAddress := by
      simp only [Scope.isStartedAbove, hparent, Option.any_some, Bool.and_eq_true,
        decide_eq_true_eq] at hstarted
      exact hstarted.1
    obtain ⟨name, htarget, hname⟩ := Address.siblingPath_of_parent? hparent hsiblings
    have hboxes := SchemaIndex.plainBoxes_of_compile htells htext hcompile
    have hheads : (Task.shown root).Heads scope _ _ _ _ _ _ :=
      heads_of_renders rfl hform.renders hparent hboxes hcomes
    have hlength : root.segments.length = 1 := hroot
    have hrootless : root.parent? = none := by
      simp [Address.parent?, Address.isRoot, hlength]
    obtain ⟨above, row, content, hgroup, hfound⟩ := hheads.resolve_right fun hshown => by
      rw [hrootless] at hshown
      exact absurd hshown.1 (by simp)
    have hcontrol : Comes record.passing bindings
        (scope.editing (scope.headerControls parent (row.map Row.var).isSome)) bindings _ :=
      comes_startControl rfl hsingleton hname _ (by rw [← htarget]; exact habsent)
    rw [← htarget] at hcontrol
    exact Or.inr ⟨above, row, content, _, hgroup, hfound, hinForm hgroup,
      headedWith_elementGroup hcontrol⟩

/-- Orders of lines: in an order nothing but the lines repeats, so its header starts them. -/
def linedOrders : SchemaSet :=
  .declaring [.builtin (schemaName "string"),
    .containing [.particle "item" (.anonymous ⟨0⟩) .once],
    .containing [.particle "line" (.anonymous ⟨1⟩) ⟨0, .unbounded⟩],
    .containing [.particle "order" (.anonymous ⟨2⟩) ⟨1, .unbounded⟩]]
    [.unqualified "orders" (.anonymous ⟨3⟩)]

def linedOrdersIndex : SchemaIndex :=
  (SchemaIndex.build linedOrders .disabled [⟨none, "orders"⟩]).toOption.getD default

def linedOrdersNodes : List TemplateNode :=
  (linedOrdersIndex.compile .edit (.root (.unprefixed "orders"))).toOption.elim []
    fun compilation => compilation.template.nodes

def eachOrder : Address :=
  ((Address.root (.unprefixed "orders")).child (.unprefixed "order")).withIndex (.var "orderIndex")

def eachLine : Address := eachOrder.child (.unprefixed "line")

def withEmptyOrder : Instance := ⟨.plain "orders" "" [.plain "order" "" []], .disabled⟩

/-- The first order has no lines, and they are found in its row. -/
theorem empty_repetition_started_linedOrders :
    SchemaIndex.build linedOrders .disabled [⟨none, "orders"⟩] = .ok linedOrdersIndex ∧
      (∀ node ∈ linedOrdersIndex.nodes, node.address.depth ≤ Text.maxWord) ∧
      linedOrders.TextDeclaresAttributes ∧
      eachLine.parent? = some eachOrder ∧ linedOrdersIndex.isRepeating eachLine = true ∧
      withEmptyOrder.elements (eachOrder.substitute [("orderIndex", 1)]) ≠ [] ∧
      withEmptyOrder.elements (eachLine.siblingPath.substitute [("orderIndex", 1)]) = [] ∧
      ∃ compilation form part rows,
        linedOrdersIndex.compile .edit (.root (.unprefixed "orders")) = .ok compilation ∧
        compilation.template.bind withEmptyOrder = .ok form ∧
        Opens withEmptyOrder.passing [] compilation.template.nodes [("orderIndex", 1)] part ∧
        Comes .sameRow [("orderIndex", 1)] part [("orderIndex", 1)]
          (Scope.repeatedBelow ⟨linedOrdersIndex, .edit, .root (.unprefixed "orders")⟩ eachOrder
            eachLine ((linedOrdersIndex.nodeOf? eachLine).getD default) rows) ∧
        Started ⟨linedOrdersIndex, .edit, .root (.unprefixed "orders")⟩ withEmptyOrder
          compilation.template.nodes form [("orderIndex", 1)] eachOrder
          (eachLine.siblingPath.substitute [("orderIndex", 1)])
          (Scope.repeatedBelow ⟨linedOrdersIndex, .edit, .root (.unprefixed "orders")⟩ eachOrder
            eachLine ((linedOrdersIndex.nodeOf? eachLine).getD default) rows) := by
  have hbuild : SchemaIndex.build linedOrders .disabled [⟨none, "orders"⟩] =
      .ok linedOrdersIndex := rfl
  have hdepth : ∀ node ∈ linedOrdersIndex.nodes, node.address.depth ≤ Text.maxWord := by decide
  have htext : linedOrders.TextDeclaresAttributes := by
    intro method base children hpart
    have hnone : linedOrders.constructs.all fun construct =>
        !construct matches .simpleContent .. := by decide
    simpa using List.all_eq_true.mp hnone _ hpart
  have hcompile :
      linedOrdersIndex.compile .edit (.root (.unprefixed "orders")) = .ok _ := rfl
  have hpresent : withEmptyOrder.elements (eachOrder.substitute [("orderIndex", 1)]) ≠ [] := by
    decide
  obtain ⟨part, rows, hopens, hplace⟩ : ∃ part rows,
      Opens withEmptyOrder.passing [] linedOrdersNodes [("orderIndex", 1)] part ∧
        Comes .sameRow [("orderIndex", 1)] part [("orderIndex", 1)]
          (Scope.repeatedBelow ⟨linedOrdersIndex, .edit, .root (.unprefixed "orders")⟩ eachOrder
            eachLine ((linedOrdersIndex.nodeOf? eachLine).getD default) rows) := by
    apply Exists.intro
    apply Exists.intro
    constructor
    · apply Opens.inside List.mem_cons_self
      · exact rfl
      apply Opens.inside (List.mem_cons_of_mem _ List.mem_cons_self)
      · exact ⟨show withEmptyOrder.holds _ _ = true by decide, rfl⟩
      apply Opens.inside List.mem_cons_self
      · exact ⟨show withEmptyOrder.holds _ _ = true by decide, rfl⟩
      apply Opens.inside List.mem_cons_self
      · exact ⟨1, ⟨by decide, by decide⟩, rfl⟩
      exact .here
    · apply Comes.inside List.mem_cons_self
      · exact rfl
      apply Comes.inside (List.mem_cons_of_mem _ List.mem_cons_self)
      · exact rfl
      exact .here List.mem_cons_self
  refine ⟨hbuild, hdepth, htext, rfl, rfl, hpresent, rfl, _, _, part, rows, hcompile, rfl, hopens,
    hplace, ?_⟩
  exact empty_repetition_started hbuild hdepth htext rfl rfl hcompile rfl hopens rfl rfl hplace
    hpresent rfl

end SchemaForms
