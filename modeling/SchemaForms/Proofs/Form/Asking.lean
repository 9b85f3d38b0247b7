import SchemaForms.Proofs.Compile.Controls
import SchemaForms.Proofs.Compile.Undefined
import SchemaForms.Proofs.Form.Making
import SchemaForms.Proofs.Form.Rows

/-!
Questions in forms. A choice asks which member to create, at once while there is none and behind a
toggle while there may be more. The question counts the children of one element that are among the
members, and the members themselves are looked for one by one, at their own places; while there is
nothing to count, nothing is found there. What is shown for the members lies deeper, so no question
in it is about the same place.
-/

namespace SchemaForms

namespace FormNode

/-- A selector for a choice at the place. -/
def AsksAt (place : Address) : FormNode → Prop
  | .choicePrompt target .. => target = place
  | _ => False

theorem walk_subset_walkAll {node : FormNode} {nodes : List FormNode} (h : node ∈ nodes) :
    node.walk ⊆ walkAll nodes := by
  obtain ⟨before, after, rfl⟩ := List.append_of_mem h
  rw [walkAll_append, walkAll]
  exact fun inner hinner => List.mem_append_right _ (List.mem_append_left _ hinner)

/-- Nodes in which nothing asks at the place show no selector for it, neither as they are nor behind
a toggle. -/
theorem not_mem_of_not_asksAt {place : Address} {nodes : List FormNode}
    (h : ∀ node ∈ walkAll nodes, ¬ node.AsksAt place) (caption label : String)
    (names : List PrefixedName) : .choicePrompt place caption names ∉ nodes ∧
      .toggle label [.choicePrompt place caption names] ∉ nodes := by
  constructor
  · intro hmem
    exact h (.choicePrompt place caption names) (walk_subset_walkAll hmem (by simp [walk])) rfl
  · intro hmem
    exact h (.choicePrompt place caption names)
      (walk_subset_walkAll hmem (by simp [walk, walkAll])) rfl

/-- After nodes in which nothing asks at the place, a question is found where it was put, at once or
behind a toggle, and nowhere else. -/
theorem asks_after {place : Address} {before : List FormNode}
    (hquiet : ∀ node ∈ walkAll before, ¬ node.AsksAt place) (caption label : String)
    (names : List PrefixedName) (first more : Prop) [Decidable first] [Decidable more] :
    let asked := choicePrompt place caption names
    let toggled := toggle label [asked]
    let shown := before ++ if first then [asked] else if more then [toggled] else []
    (asked ∈ shown ↔ first) ∧ (toggled ∈ shown ↔ ¬ first ∧ more) ∧
      ∀ node ∈ walkAll shown, node.AsksAt place →
        node = asked ∧ (asked ∈ shown ∨ toggled ∈ shown) := by
  intro asked toggled shown
  obtain ⟨hasked, htoggled⟩ := not_mem_of_not_asksAt hquiet caption label names
  have hfound : (asked ∈ shown ↔ first) ∧ (toggled ∈ shown ↔ ¬ first ∧ more) := by
    by_cases hfirst : first
    · simp [shown, hfirst, htoggled, toggled, asked]
    · by_cases hmore : more <;> simp [shown, hfirst, hmore, hasked, htoggled, toggled, asked]
  refine ⟨hfound.1, hfound.2, fun node hnode hasks => ?_⟩
  rw [walkAll_append, List.mem_append] at hnode
  have hafter := hnode.resolve_left fun hbefore => hquiet node hbefore hasks
  rw [hfound.1, hfound.2]
  split at hafter
  · rename_i hfirst
    exact ⟨by simpa [walkAll, walk, asked] using hafter, Or.inl hfirst⟩
  · rename_i hfirst
    split at hafter
    · rename_i hmore
      have hcases : node = toggled ∨ node = asked := by
        simpa [walkAll, walk, toggled, asked] using hafter
      rcases hcases with rfl | rfl
      · exact absurd hasks id
      · exact ⟨rfl, Or.inr ⟨hfirst, hmore⟩⟩
    · simp [walkAll] at hafter

end FormNode

namespace Instance

variable {record : Instance} {place : Address} {element : Xml.Element}

/-- The children of an element that are among the members. -/
def membersIn (record : Instance) (members : List PrefixedName) (element : Xml.Element) : Nat :=
  element.children.countP fun child =>
    members.any fun name => record.namespaces.matchesElement name child

theorem memberCount_of_one (hone : record.elements place = [element])
    (members : List PrefixedName) :
    record.memberCount place members = record.membersIn members element := by
  simp [memberCount, hone, membersIn]

theorem count_of_one (hplace : place.IsElementPath) (hone : record.elements place = [element]) :
    record.count place = 1 := by
  rw [count_eq_length (Address.isAttribute_eq_false hplace.2), hone, List.length_singleton]

/-- While no child is among the members, none of them is found at its place. -/
theorem count_member_eq_zero (hplace : place.IsElementPath)
    (hone : record.elements place = [element]) {members : List PrefixedName}
    (hnone : record.membersIn members element = 0) {name : PrefixedName} (hname : name ∈ members) :
    record.count (place.child name) = 0 := by
  rw [count_child_of_one hplace hone, childrenNamed, ← List.countP_eq_length_filter,
    List.countP_eq_zero]
  intro child hchild hmatches
  have hmember : ¬ members.any (record.namespaces.matchesElement · child) = true :=
    List.countP_eq_zero.mp hnone child hchild
  exact hmember (List.any_eq_true.mpr ⟨name, hname, hmatches⟩)

end Instance

namespace TemplateNode

/-- A question about a place below the depth, or no question. -/
def AsksBelow (depth : Nat) : TemplateNode → Prop
  | choicePrompt target .. => depth < target.depth
  | _ => True

/-- A control for one change, or a guard around it. -/
def IsControl : TemplateNode → Prop
  | guard .. => True
  | affordance .. => True
  | _ => False

variable {depth : Nat}

theorem Throughout.mono {P Q : TemplateNode → Prop} {nodes : List TemplateNode}
    (h : Throughout P nodes) (himplies : ∀ node, P node → Q node) : Throughout Q nodes :=
  fun node hnode => himplies node (h node hnode)

theorem throughout_flatMap {P : TemplateNode → Prop} {α : Type} {make : α → List TemplateNode}
    {as : List α} (h : ∀ a ∈ as, Throughout P (make a)) : Throughout P (as.flatMap make) := by
  induction as with
  | nil => exact throughout_nil
  | cons a others ih =>
    obtain ⟨hfirst, hothers⟩ := List.forall_mem_cons.mp h
    exact throughout_append.mpr ⟨hfirst, ih hothers⟩

theorem IsControl.asksBelow {node : TemplateNode} (h : node.IsControl) : node.AsksBelow depth := by
  cases node <;> simp_all [IsControl, AsksBelow]

theorem Becomes.not_asksAt {place : Address} {node : TemplateNode} {made : FormNode}
    (h : node.Becomes made) (hbelow : node.AsksBelow place.depth) : ¬ made.AsksAt place := by
  cases h with
  | choicePrompt bindings =>
    rintro rfl
    simp [AsksBelow, Address.depth, Address.substitute] at hbelow
  | _ => exact id

/-- Where all questions of a template are below a depth, no question is about a place there. -/
theorem not_asksAt_of_below {place : Address} (record : Instance) {nodes : List TemplateNode}
    (h : Throughout (AsksBelow place.depth) nodes) (bindings : Bindings) :
    ∀ node ∈ FormNode.walkAll ((bindAll record nodes).run bindings).1, ¬ node.AsksAt place :=
  gives_of_throughout (fun _ _ hbelow hmade => hmade.not_asksAt hbelow) record nodes h bindings

end TemplateNode

namespace Compile

open TemplateNode FormNode

variable {scope : Scope} {depth : Nat}

section Controls

variable (address : Address)

theorem controls_controlAt (control : TemplateNode) (hcontrol : scope.ControlAt address control) :
    Throughout IsControl [control] := by
  cases hcontrol <;>
    simp [deleteControl, choiceDeleteControl, chooseControl, removeControl, startControl, IsControl,
      contents]

theorem asksBelow_controlAt (control : TemplateNode) (hcontrol : scope.ControlAt address control) :
    Throughout (AsksBelow depth) [control] :=
  (controls_controlAt address control hcontrol).mono fun _ => IsControl.asksBelow

theorem asksBelow_scalarField (node : SchemaNode) (type : TypeId) (role : FieldRole) :
    Throughout (AsksBelow depth) [scope.scalarField address node type role] :=
  throughout_scalarField (asksBelow_controlAt address) trivial

theorem asksBelow_elementGroup (node : SchemaNode) (row : Option Row) {nodes : List TemplateNode}
    (h : Throughout (AsksBelow depth) nodes) :
    Throughout (AsksBelow depth) [scope.elementGroup address node row nodes] :=
  throughout_elementGroup (asksBelow_controlAt address) trivial (fun _ _ => trivial) h

theorem asksBelow_repeated (node : SchemaNode) {rows : List TemplateNode}
    (h : Throughout (AsksBelow depth) rows) :
    Throughout (AsksBelow depth) (scope.repeated address node rows) := by
  refine throughout_repeated (fun _ => trivial) trivial h ?_ ?_
  · simp [Scope.addSibling, AsksBelow, contents]
  · simp [Scope.addFirst, AsksBelow, contents]

end Controls

/-- A task for a place below the depth. Branches are made for the children of their place, so their
place may be at the depth itself. -/
def Task.IsBelow (depth : Nat) : Task → Prop
  | .occurrence address _ => depth < address.depth
  | .text address _ => depth < address.depth
  | .content here => depth < here.depth
  | .branches here => depth ≤ here.depth
  | .node address => depth < address.depth
  | .shown address => depth < address.depth

/-- Whatever is made for a place below a depth asks below it. -/
theorem asksBelow_of_renders {task : Task} {nodes : List TemplateNode}
    (h : Renders scope task nodes) (hbelow : task.IsBelow depth) :
    Throughout (AsksBelow depth) nodes := by
  have hchild : ∀ {here : Address} (name : PrefixedName), depth ≤ here.depth →
      depth < (here.child name).depth ∧ depth < (here.attr name).depth := by
    intro here name hle
    simp only [Address.depth_child, Address.depth_attr]
    omega
  induction h with
  | recursive => exact throughout_cons.mpr ⟨trivial, throughout_nil, throughout_nil⟩
  | scalar => exact asksBelow_scalarField _ _ _ _
  | anything => exact throughout_anyField (asksBelow_controlAt _) trivial
  | element hnode hexpanded hcontent ih => exact asksBelow_elementGroup _ _ _ (ih hbelow)
  | textOnly hnode hexpanded htext ih => exact ih hbelow
  | restricted => exact throughout_nil
  | value hnode hcontent ih =>
    refine throughout_cons.mpr ⟨trivial, ?_, throughout_nil⟩
    exact throughout_append.mpr ⟨asksBelow_scalarField _ _ _ _, ih hbelow⟩
  | extended htext hcontent ihtext ihcontent =>
    refine throughout_cons.mpr ⟨trivial, ?_, throughout_nil⟩
    exact throughout_append.mpr ⟨ihtext hbelow, ihcontent hbelow⟩
  | nothing => exact throughout_nil
  | append hleft hright ihleft ihright =>
    exact throughout_append.mpr ⟨ihleft hbelow, ihright hbelow⟩
  | ownText htext ih => exact ih hbelow
  | compositor hcontent ih => exact throughout_cons.mpr ⟨trivial, ih hbelow, throughout_nil⟩
  | attributeUse hshown ih => exact ih (hchild _ (Nat.le_of_lt hbelow)).2
  | child hshown ih => exact ih (hchild _ (Nat.le_of_lt hbelow)).1
  | alternative hnode ih =>
    exact throughout_cons.mpr ⟨trivial, ih (hchild _ (Nat.le_of_lt hbelow)).1, throughout_nil⟩
  | choices hbranches ih => exact ih (Nat.le_of_lt hbelow)
  | singlePrompt =>
    refine throughout_editing ?_
    simpa [Scope.singlePrompt, Scope.prompt, AsksBelow, contents, Task.IsBelow] using hbelow
  | repeatedPrompt =>
    refine throughout_editing ?_
    simpa [Scope.repeatedPrompt, Scope.prompt, AsksBelow, contents, Task.IsBelow] using hbelow
  | noBranch => exact throughout_nil
  | branch hnode hname hitem ih =>
    have hrows := ih (by simpa [Task.IsBelow] using Nat.lt_succ_of_le hbelow)
    simpa [itemIteration, AsksBelow, contents] using hrows
  | moreBranches hleft hright ihleft ihright =>
    exact throughout_append.mpr ⟨ihleft hbelow, ihright hbelow⟩
  | single hclassified hhead hrepeating hoccurrence ih => exact ih hbelow
  | repeating hnode hrecursive hplain hrepeating hitem ih =>
    refine asksBelow_repeated _ _ (ih ?_)
    simpa [Task.IsBelow] using hbelow
  | @head address parent node members hnode hrecursive hhead hparent hmembers ih =>
    obtain ⟨-, leaf, hbeside⟩ := Address.segments_of_parent? hparent
    have hdepth : address.depth = parent.depth + 1 := by simp [Address.depth, hbeside]
    have habove : depth ≤ parent.depth := by
      have hlt : depth < address.depth := hbelow
      omega
    refine throughout_append.mpr ⟨ih habove, throughout_editing (throughout_memberControl ?_)⟩
    simp [Scope.addMember, AsksBelow, contents]
  | hidden => exact throughout_nil
  | shown hnode ih => exact throughout_guarded (fun _ _ => trivial) (ih hbelow)

namespace Scope

/-- What is shown of a member asks below the place of the choice. -/
theorem asksBelow_shownMember {levels : Nat} {here : Address} {occurs : Occurs}
    {name : PrefixedName} (hname : scope.Candidate here name) :
    Throughout (AsksBelow here.depth)
      (scope.shownMember (scope.render levels) here occurs name).value := by
  have hordinary := scope.nesting_honest.ordinary
  have hfaithful := scope.faithful_render_honest levels
  suffices (scope.shownMember (scope.render levels) here occurs name).Yields scope.Honest
      (Throughout (AsksBelow here.depth)) from this.value
  refine Attempt.orSkip_yields ?_ throughout_nil
  split
  · refine .mono (yields_branch hordinary hfaithful here (Nat.zero_le _) name hname false) ?_
    exact fun nodes hnodes => asksBelow_of_renders hnodes (Nat.le_refl _)
  · refine .bind (yields_renderNode hordinary hfaithful (here.child name) (Nat.zero_le _)) ?_
    refine fun nodes hnodes => .pure (throughout_cons.mpr ⟨trivial, ?_, throughout_nil⟩)
    exact asksBelow_of_renders hnodes (by simp [Task.IsBelow])

/-- What a choice asks in a form for editing, by the number of children among its members. -/
theorem fillAll_question (hedit : scope.mode = .edit) {here : Address} (occurs : Occurs)
    (members : List PrefixedName) {record : Instance} {bindings : Bindings}
    {element : Xml.Element} (hplace : (here.substitute bindings).IsElementPath)
    (hone : record.elements (here.substitute bindings) = [element]) :
    let asked := FormNode.choicePrompt (here.substitute bindings)
      (choiceLabel (1 ≤ occurs.min)) members
    fillAll record bindings (scope.question here occurs members) =
      if record.membersIn members element = 0 then [asked]
      else if occurs.isMany ∧ occurs.max.admitsMore (record.membersIn members element) then
        [.toggle "add new child" [asked]]
      else [] := by
  intro asked
  have hplaced := Instance.count_of_one hplace hone
  have hcount := Instance.memberCount_of_one hone members
  rw [question, editing_edit hedit, fillAll_singleton]
  cases hmany : occurs.isMany with
  | false => simp [singlePrompt, prompt, fill, fillAll, Instance.holds, hplaced, hcount, asked]
  | true =>
    by_cases hnone : record.membersIn members element = 0
    · simp [repeatedPrompt, prompt, fill, fillAll, Instance.holds, hplaced, hcount, hnone, asked]
    · have hsome : 0 < record.membersIn members element := by omega
      simp [repeatedPrompt, prompt, fill, fillAll, Instance.holds, hplaced, hcount, hnone, hsome,
        asked]

/-- A choice is filled with what is shown of its members, in which nothing asks about its place, and
with the question. -/
theorem bindAll_choice {base : Nat} (hiterable : Iterable scope.index)
    (hspace : ∀ address node, scope.index.nodeOf? address = some node →
      base + address.depth ≤ Text.maxWord) {here : Address} (hcounted : here.CountedFrom base)
    {children : List Construct} {members : List PrefixedName}
    (hmembers : scope.leafNames here children = .ok members) (occurs : Occurs) (levels : Nat)
    (record : Instance) (bindings : Bindings) :
    ∃ nodes before, (scope.renderChoice (scope.render levels) here occurs children).run.value =
        .ok nodes ∧
      ((bindAll record nodes).run bindings).1 =
        before ++ fillAll record bindings (scope.question here occurs members) ∧
      ∀ node ∈ walkAll before, ¬ node.AsksAt (here.substitute bindings) := by
  have hcandidates := candidates_of_leafNames hmembers
  have hmade : (scope.renderChoice (scope.render levels) here occurs children).run.value = .ok _ :=
    value_renderChoice hmembers
  have hrenders := (yields_renderChoice (scope.faithful_render_honest levels)
    scope.nesting_honest here (Nat.zero_le _) occurs children).value
  rw [hmade] at hrenders
  have hscoped := scopedAll_of_renders_from hiterable hspace hrenders hcounted
  have hbelow : Throughout (AsksBelow (here.substitute bindings).depth)
      (members.flatMap fun name =>
        (scope.shownMember (scope.render levels) here occurs name).value) := by
    refine throughout_flatMap fun name hname => ?_
    simpa [Address.depth, Address.substitute] using asksBelow_shownMember (hcandidates name hname)
  refine ⟨_, _, hmade, ?_, not_asksAt_of_below record hbelow bindings⟩
  rw [(fills_bindAll record _ hscoped bindings fun _ _ => rfl).1, fillAll_append,
    ← (fills_bindAll record _ (scopedAll_append.mp hscoped).1 bindings fun _ _ => rfl).1]

end Scope

/-- A choice in a form for editing, at a place that selects one element: the question which member
to create is asked at once exactly while no child of the element is among the members, and then no
member is found at its place; where several choices can be made, it is asked behind a toggle exactly
while some children are among the members and the bound is not reached. It is never asked twice, and
nothing else asks about the place. -/
theorem choice_asks {set : SchemaSet} {namespaces : InstanceNamespaces} {roots : List ExpandedName}
    {scope : Scope} (hbuild : SchemaIndex.build set namespaces roots = .ok scope.index) {base : Nat}
    (hroom : ∀ node ∈ scope.index.nodes, base + node.address.depth ≤ Text.maxWord)
    (hedit : scope.mode = .edit) {here : Address} (hcounted : here.CountedFrom base)
    (helement : here.isAttribute = false) {node : SchemaNode} (hnode : scope.node here = .ok node)
    {children : List Construct} {members : List PrefixedName}
    (hmembers : scope.leafNames here children = .ok members) (occurs : Occurs) (levels : Nat)
    (record : Instance) (bindings : Bindings) {element : Xml.Element}
    (hone : record.elements (here.substitute bindings) = [element]) :
    let place := here.substitute bindings
    let count := record.membersIn members element
    let asked := FormNode.choicePrompt place (choiceLabel (1 ≤ occurs.min)) members
    let toggled := FormNode.toggle "add new child" [asked]
    ∃ nodes, (scope.renderChoice (scope.render levels) here occurs children).run.value = .ok nodes ∧
      let shown := ((bindAll record nodes).run bindings).1
      (asked ∈ shown ↔ count = 0) ∧
      (toggled ∈ shown ↔
        occurs.isMany = true ∧ 1 ≤ count ∧ occurs.max.admitsMore count = true) ∧
      ¬ (asked ∈ shown ∧ toggled ∈ shown) ∧
      (∀ node ∈ walkAll shown, node.AsksAt place →
        node = asked ∧ (asked ∈ shown ∨ toggled ∈ shown)) ∧
      (count = 0 → ∀ name ∈ members,
        record.count ((here.child name).substitute bindings) = 0) := by
  intro place count asked toggled
  obtain ⟨hiterable, hspace⟩ := SchemaIndex.iterable_of_build hbuild hroom
  have hplace : place.IsElementPath :=
    (SchemaIndex.isElementPath_of_build hbuild (Scope.node_eq_ok_iff.mp hnode) helement).substitute
      bindings
  obtain ⟨nodes, before, hmade, hshown, hquiet⟩ := Scope.bindAll_choice hiterable hspace hcounted
    hmembers occurs levels record bindings
  rw [Scope.fillAll_question hedit occurs members hplace hone] at hshown
  refine ⟨nodes, hmade, ?_⟩
  rw [hshown]
  obtain ⟨hasked, htoggled, honly⟩ := asks_after hquiet (choiceLabel (1 ≤ occurs.min))
    "add new child" members (count = 0)
    (occurs.isMany = true ∧ occurs.max.admitsMore count = true)
  refine ⟨hasked, htoggled.trans ?_, ?_, honly, fun hnone name hname => ?_⟩
  · have hsome : ¬ count = 0 ↔ 1 ≤ count := by omega
    rw [hsome]
    exact and_left_comm
  · exact fun hboth => (htoggled.mp hboth.2).1 (hasked.mp hboth.1)
  · rw [Address.substitute_child]
    exact Instance.count_member_eq_zero hplace hone hnone hname

/-- Up to three elements out of a choice with another compositor in it. -/
def nestedChoice : List Construct :=
  [.particle "a" (.anonymous ⟨0⟩) .once, .compositor .sequence .once
    [.particle "b" (.anonymous ⟨0⟩) .once, .particle "c" (.anonymous ⟨0⟩) .once]]

def choosing : SchemaSet :=
  .declaring [.builtin (schemaName "string"),
    .containing [.compositor .choice ⟨1, .count 3⟩ nestedChoice]]
    [.unqualified "r" (.anonymous ⟨1⟩)]

def choosingIndex : SchemaIndex :=
  (SchemaIndex.build choosing .disabled [⟨none, "r"⟩]).toOption.getD default

/-- Two of the children are among the members of the choice. -/
def withTwoChosen : Instance :=
  ⟨.plain "r" "" [.plain "c" "1" [], .plain "d" "2" [], .plain "a" "3" []], .disabled⟩

/-- While two of three are chosen, the question stands behind a toggle. -/
theorem choice_asks_withTwoChosen :
    let here := Address.root (.unprefixed "r")
    let scope : Scope := ⟨choosingIndex, .edit, here⟩
    let members : List PrefixedName := [.unprefixed "a", .unprefixed "b", .unprefixed "c"]
    let asked := FormNode.choicePrompt here "required choice" members
    SchemaIndex.build choosing .disabled [⟨none, "r"⟩] = .ok scope.index ∧
    (∀ node ∈ scope.index.nodes, 0 + node.address.depth ≤ Text.maxWord) ∧
    here.CountedFrom 0 ∧ here.isAttribute = false ∧
    ∃ node nodes, scope.node here = .ok node ∧
      scope.leafNames here nestedChoice = .ok members ∧
      withTwoChosen.elements (here.substitute []) = [withTwoChosen.root] ∧
      (scope.renderChoice (scope.render 2) here ⟨1, .count 3⟩ nestedChoice).run.value = .ok nodes ∧
      asked ∉ ((bindAll withTwoChosen nodes).run []).1 ∧
      .toggle "add new child" [asked] ∈ ((bindAll withTwoChosen nodes).run []).1 := by
  intro here scope members asked
  have hbuild : SchemaIndex.build choosing .disabled [⟨none, "r"⟩] = .ok scope.index := rfl
  have hroom : ∀ node ∈ scope.index.nodes, 0 + node.address.depth ≤ Text.maxWord := by decide
  have hcounted : here.CountedFrom 0 := Address.counted_of_vars_nil rfl
  have helement : here.isAttribute = false := rfl
  have hnode : scope.node here = .ok _ := rfl
  have hmembers : scope.leafNames here nestedChoice = .ok members := by decide
  have hone : withTwoChosen.elements (here.substitute []) = [withTwoChosen.root] := rfl
  obtain ⟨nodes, hmade, hasked, htoggled, -⟩ := choice_asks hbuild hroom rfl hcounted helement hnode
    hmembers ⟨1, .count 3⟩ 2 withTwoChosen [] hone
  exact ⟨hbuild, hroom, hcounted, helement, _, nodes, hnode, hmembers, hone, hmade,
    mt hasked.mp (by decide), htoggled.mpr (by decide)⟩

end Compile

end SchemaForms
