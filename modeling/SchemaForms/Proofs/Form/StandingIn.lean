import SchemaForms.Proofs.Form.Adding
import SchemaForms.Proofs.Form.Asking

/-!
Rows for elements that stand in for a head. The members of the head are looked for one after
another, each by its own name, so the children of the parent are sorted by name, and the rows of one
member keep the order of the document. A member whose rows cannot be made is left out and noted.
Where no child goes by two of the names, the rows stand for all children that go by one, each once.
-/

namespace SchemaForms

/-- What goes by one of several names is sorted by these names, if nothing goes by two of them. -/
theorem perm_flatMap_filter {α β : Type} {goesBy : α → β → Bool} {names : List α}
    {elements : List β} (h : ∀ element ∈ elements, names.countP (goesBy · element) ≤ 1) :
    (names.flatMap fun name => elements.filter (goesBy name)).Perm
      (elements.filter fun element => names.any (goesBy · element)) := by
  induction names with
  | nil => simp
  | cons name others ih =>
    have hothers : ∀ element ∈ elements, others.countP (goesBy · element) ≤ 1 := by
      intro element helement
      have hcount := h element helement
      rw [List.countP_cons] at hcount
      omega
    -- Of what goes by some name, the filter for the first name keeps just that, and what it drops
    -- goes by one of the others.
    let some : β → Bool := fun element => (name :: others).any (goesBy · element)
    have hfirst : (elements.filter some).filter (goesBy name) = elements.filter (goesBy name) := by
      rw [List.filter_filter]
      refine List.filter_congr fun element _ => ?_
      simp only [some, List.any_cons]
      cases goesBy name element <;> rfl
    have hrest : (elements.filter some).filter (!goesBy name ·) =
        elements.filter fun element => others.any (goesBy · element) := by
      rw [List.filter_filter]
      refine List.filter_congr fun element helement => ?_
      simp only [some, List.any_cons]
      cases hname : goesBy name element with
      | false => simp
      | true =>
        have hnone : others.countP (goesBy · element) = 0 := by
          have hcount := h element helement
          rw [List.countP_cons, if_pos hname] at hcount
          omega
        simpa using List.countP_eq_zero.mp hnone
    rw [List.flatMap_cons]
    refine ((ih hothers).append_left _).trans ?_
    rw [← hfirst, ← hrest]
    exact List.filter_append_perm _ _

theorem flatMap_filter_of_nil {α β : Type} {keep : α → Bool} {make : α → List β}
    {as : List α} (h : ∀ a ∈ as, keep a = false → make a = []) :
    as.flatMap make = (as.filter keep).flatMap make := by
  induction as with
  | nil => rfl
  | cons a others ih =>
    obtain ⟨ha, hothers⟩ := List.forall_mem_cons.mp h
    rw [List.flatMap_cons, ih hothers, List.filter_cons]
    cases hkeep : keep a with
    | false => simp [ha hkeep]
    | true => simp

namespace TemplateNode

theorem fillAll_flatMap {α : Type} (record : Instance) (bindings : Bindings)
    (make : α → List TemplateNode) (as : List α) :
    fillAll record bindings (as.flatMap make) =
      as.flatMap fun a => fillAll record bindings (make a) := by
  induction as with
  | nil => rfl
  | cons a others ih => rw [List.flatMap_cons, fillAll_append, ih, List.flatMap_cons]

/-- Around an iteration a guard for its siblings changes nothing. -/
theorem fill_guarded_iteration (record : Instance) (bindings : Bindings) (siblings item : Address)
    (var : String) (contents : List TemplateNode) :
    fill record bindings (.guard .present siblings [.iteration siblings var item contents]) =
      fill record bindings (.iteration siblings var item contents) := by
  rw [fill, fillAll_singleton]
  split
  · rfl
  · rename_i habsent
    have hnone : record.count (siblings.substitute bindings) = 0 := by
      simpa [Instance.holds] using habsent
    simp [fill, hnone]

end TemplateNode

namespace Compile

open TemplateNode FormNode

namespace Scope

variable {scope : Scope}

/-- What is made for one member of a head. -/
def member (scope : Scope) (render : Renderer) (parent : Address) (name : PrefixedName) :
    Attempt (List TemplateNode) :=
  branch scope render (parent.child name) true

/-- The rows of the member can be made. -/
def makes (scope : Scope) (render : Renderer) (parent : Address) (name : PrefixedName) : Bool :=
  (scope.member render parent name).run.value.isOk

theorem makes_iff {render : Renderer} {parent : Address} {name : PrefixedName} :
    scope.makes render parent name = true ↔
      ∃ nodes, (scope.member render parent name).run.value = .ok nodes := by
  unfold makes
  cases (scope.member render parent name).run.value <;> simp [Except.isOk, Except.toBool]

theorem exists_error_of_makes {render : Renderer} {parent : Address} {name : PrefixedName}
    (h : scope.makes render parent name = false) :
    ∃ error, (scope.member render parent name).run.value = .error error := by
  unfold makes at h
  cases hmade : (scope.member render parent name).run.value with
  | ok nodes => simp [hmade, Except.isOk, Except.toBool] at h
  | error error => exact ⟨error, rfl⟩

/-- The rows of a member in a form, none if they cannot be made. -/
def memberRows (scope : Scope) (render : Renderer) (address parent : Address) (record : Instance)
    (bindings : Bindings) (name : PrefixedName) : List FormNode :=
  fillAll record bindings ((scope.member render parent name).orSkip address).value

/-- What is made for a head: what is made for its members, and the control after them. -/
theorem run_renderNode_of_head {render : Renderer} {address parent : Address} {node : SchemaNode}
    (hnode : scope.node address = .ok node) {classification : Classification}
    (hclassified : scope.classify address = .ok classification)
    (hhead : classification.isHead = true) (hparent : address.parent? = some parent) :
    let members := Logged.collect (fun name =>
      (scope.member render parent name).orSkip address) node.members
    (scope.renderNode render address).run =
      ⟨.ok (members.value ++ scope.editing (memberControl parent address node)),
        ⟨address, .classified classification.name⟩ :: members.log⟩ := by
  intro members
  have hsubstitution : (scope.substitution render address node).run =
      ⟨.ok (members.value ++ scope.editing (memberControl parent address node)),
        members.log⟩ := by
    unfold substitution
    rw [hparent]
    exact Logged.ext rfl (show (members.log ++ []) ++ [] = members.log by simp)
  obtain ⟨shape, isHead, isRepeating⟩ := classification
  obtain rfl : isHead = true := hhead
  unfold renderNode
  rw [hnode, hclassified]
  have hvalue := congrArg Logged.value hsubstitution
  have hlog := congrArg (fun step => LogEntry.mk address (.classified
    (Classification.name ⟨shape, true, isRepeating⟩)) :: Logged.log step) hsubstitution
  exact Logged.ext hvalue hlog

/-- The control after the members, by the number of children that go by one of their names. -/
theorem fillAll_memberControl (parent address : Address) (node : SchemaNode) {record : Instance}
    {bindings : Bindings} {element : Xml.Element}
    (hone : record.elements (parent.substitute bindings) = [element]) :
    fillAll record bindings (memberControl parent address node) =
      if node.members ≠ [] ∧ node.occurs.max.admitsMore (record.membersIn node.members element) then
        [.affordance .addMember (parent.substitute bindings) (addLabel address) node.members]
      else [] := by
  have hcount := Instance.memberCount_of_one hone node.members
  unfold memberControl
  by_cases hmembers : node.members = []
  · simp [hmembers, fillAll]
  · simp [hmembers, addMember, fill, fillAll, Instance.holds, hcount]

theorem scopedAll_memberControl (scope : Scope) (parent address : Address) (node : SchemaNode) :
    ScopedAll parent.vars (scope.editing (memberControl parent address node)) := by
  refine scopedAll_editing ?_
  unfold memberControl
  split
  · exact trivial
  · exact ⟨⟨List.Subset.refl _, List.Subset.refl _, trivial⟩, trivial⟩

section Rows

variable {base : Nat} (hiterable : Iterable scope.index)
  (hspace : ∀ address node, scope.index.nodeOf? address = some node →
    base + address.depth ≤ Text.maxWord) {parent : Address} (hcounted : parent.CountedFrom base)
  (hpath : parent.IsElementPath)

include hiterable hspace hcounted hpath

/-- What is made for a member is its iteration, in scope of the variables of the parent. -/
theorem exists_iteration_of_member {levels : Nat} {name : PrefixedName} {nodes : List TemplateNode}
    (hmade : (scope.member (scope.render levels) parent name).run.value = .ok nodes) :
    ∃ contents, nodes = [.guard .present (parent.child name)
        [itemIteration (parent.child name) contents]] ∧
      Scoped parent.vars (itemIteration (parent.child name) contents) := by
  have hyields := (yields_guardedIteration scope.nesting_honest.ordinary
    (scope.faithful_render_honest levels) (parent.child name) (Nat.zero_le _) true).value
  rw [member] at hmade
  rw [hmade] at hyields
  obtain ⟨node, contents, hnode, rfl, hcontents⟩ := hyields
  have hchild := hpath.child name
  have hsiblings : (parent.child name).siblingPath.CountedFrom base :=
    Address.countedFrom_of_vars_eq (by simp) hcounted
  have hdepth := hspace _ node (node_eq_ok_iff.mp hnode)
  have helement := Address.isAttribute_eq_false hchild.2
  have hready := (item_ready hsiblings hdepth hchild.1 helement true).1
  have hscoped := scoped_itemIteration hsiblings hdepth hchild.1 helement
    (scopedAll_of_renders_from hiterable hspace hcontents hready)
  rw [Address.siblingPath_child, Address.vars_child] at hscoped
  exact ⟨contents, rfl, hscoped⟩

/-- The rows of a member stand for the children that go by its name. -/
theorem areRowsOf_member {levels : Nat} {name : PrefixedName} {nodes : List TemplateNode}
    (hmade : (scope.member (scope.render levels) parent name).run.value = .ok nodes)
    {record : Instance} {bindings : Bindings} {element : Xml.Element}
    (hone : record.elements (parent.substitute bindings) = [element]) : ∃ contents,
      record.AreRowsOf (parent.child name) contents bindings (record.childrenNamed name element)
        (fillAll record bindings nodes) := by
  obtain ⟨contents, rfl, hscoped⟩ :=
    exists_iteration_of_member hiterable hspace hcounted hpath hmade
  have hrows := areRowsOf_fill hscoped (Address.parent?_child _ _ hpath.1) (hpath.child name) hone
  rw [Address.siblingPath_child, Address.substitute_child,
    Instance.elements_child_of_one (hpath.substitute bindings) hone] at hrows
  refine ⟨contents, ?_⟩
  rw [fillAll_singleton, itemIteration, Address.siblingPath_child, fill_guarded_iteration]
  rwa [itemIteration, Address.siblingPath_child] at hrows

theorem scopedAll_members (levels : Nat) (address : Address) (names : List PrefixedName) :
    ScopedAll parent.vars (Logged.collect (fun name =>
      (scope.member (scope.render levels) parent name).orSkip address) names).value := by
  induction names with
  | nil => exact trivial
  | cons name others ih =>
    refine scopedAll_append.mpr ⟨?_, ih⟩
    rw [Attempt.value_orSkip]
    split
    · rename_i nodes hmade
      obtain ⟨contents, rfl, hscoped⟩ :=
        exists_iteration_of_member hiterable hspace hcounted hpath hmade
      exact ⟨⟨by simp, hscoped, trivial⟩, trivial⟩
    · exact trivial

/-- A head is filled member by member, with the control after them. -/
theorem bindAll_head {address : Address} {node : SchemaNode} (hnode : scope.node address = .ok node)
    {classification : Classification} (hclassified : scope.classify address = .ok classification)
    (hhead : classification.isHead = true) (hparent : address.parent? = some parent)
    (levels : Nat) :
    ∃ nodes, (scope.renderNode (scope.render levels) address).run.value = .ok nodes ∧
      ∀ record bindings, ((bindAll record nodes).run bindings).1 =
        node.members.flatMap
            (scope.memberRows (scope.render levels) address parent record bindings) ++
          fillAll record bindings (scope.editing (memberControl parent address node)) := by
  have hrun : (scope.renderNode (scope.render levels) address).run = _ :=
    run_renderNode_of_head hnode hclassified hhead hparent
  have hmembers := scopedAll_members hiterable hspace hcounted hpath levels address node.members
  have hcontrol := scope.scopedAll_memberControl parent address node
  refine ⟨_, congrArg Logged.value hrun, fun record bindings => ?_⟩
  rw [(fills_bindAll record _ (scopedAll_append.mpr ⟨hmembers, hcontrol⟩) bindings
    fun _ _ => rfl).1, fillAll_append, Logged.value_collect, fillAll_flatMap]
  rfl

end Rows

/-- The address of a head is the path of an element. -/
theorem isElementPath_of_isHead {set : SchemaSet} {namespaces : InstanceNamespaces}
    {roots : List ExpandedName} (hbuild : SchemaIndex.build set namespaces roots = .ok scope.index)
    {address : Address} {classification : Classification}
    (hclassified : scope.classify address = .ok classification)
    (hhead : classification.isHead = true) : address.IsElementPath := by
  obtain ⟨node, hnode, rfl⟩ := classify_eq_ok hclassified
  have hfound := node_eq_ok_iff.mp hnode
  obtain ⟨-, -, visits, hlists⟩ := SchemaIndex.exists_lists hbuild
  obtain ⟨-, hattribute, -⟩ := hlists.isAttribute_of_nodeOf? hfound
  have helement : node.isAttribute = false := by
    simp only [SchemaNode.isSubstitutionHead, SchemaNode.isElement, Bool.and_eq_true] at hhead
    simp_all [SchemaNode.isAttribute]
  exact SchemaIndex.isElementPath_of_build hbuild hfound (hattribute.trans helement)

end Scope

/-- What is shown for a head, at a parent that selects one element: for the members one after
another the rows of the children that go by the name, one for each, numbered in document order, and
after them at most the control that adds a member. A member is left out only if its rows cannot be
made, and the reason is noted. If no child goes by two of the names, the rows stand for all children
that go by the name of a member that is not left out, each once. -/
theorem substitution_rows {set : SchemaSet} {namespaces : InstanceNamespaces}
    {roots : List ExpandedName} {scope : Scope}
    (hbuild : SchemaIndex.build set namespaces roots = .ok scope.index) {base : Nat}
    (hroom : ∀ node ∈ scope.index.nodes, base + node.address.depth ≤ Text.maxWord)
    {address parent : Address} {node : SchemaNode} (hnode : scope.node address = .ok node)
    {classification : Classification} (hclassified : scope.classify address = .ok classification)
    (hhead : classification.isHead = true) (hparent : address.parent? = some parent)
    (hcounted : parent.CountedFrom base) (levels : Nat) (record : Instance) (bindings : Bindings)
    {element : Xml.Element} (hone : record.elements (parent.substitute bindings) = [element]) :
    let made := (scope.renderNode (scope.render levels) address).run
    let kept := node.members.filter (scope.makes (scope.render levels) parent)
    ∃ nodes rows control, made.value = .ok nodes ∧
      ((bindAll record nodes).run bindings).1 = kept.flatMap rows ++ control ∧
      (∀ name ∈ kept, ∃ contents, record.AreRowsOf (parent.child name) contents bindings
        (record.childrenNamed name element) (rows name)) ∧
      (∀ other ∈ control, ∃ label, other =
        .affordance .addMember (parent.substitute bindings) label node.members) ∧
      (∀ name ∈ node.members, name ∉ kept → ∃ error,
        (scope.member (scope.render levels) parent name).run.value = .error error ∧
          ⟨address, .skipped error⟩ ∈ made.log) ∧
      ((∀ child ∈ element.children,
          node.members.countP (record.namespaces.matchesElement · child) ≤ 1) →
        (kept.flatMap (record.childrenNamed · element)).Perm
          (element.children.filter fun child =>
            kept.any (record.namespaces.matchesElement · child))) := by
  intro made kept
  obtain ⟨hiterable, hspace⟩ := SchemaIndex.iterable_of_build hbuild hroom
  have hpath := (Scope.isElementPath_of_isHead hbuild hclassified hhead).of_parent? hparent
  have hrun : made = _ := Scope.run_renderNode_of_head hnode hclassified hhead hparent
  obtain ⟨nodes, hmade, hbound⟩ := Scope.bindAll_head hiterable hspace hcounted hpath hnode
    hclassified hhead hparent levels
  refine ⟨nodes, scope.memberRows (scope.render levels) address parent record bindings,
    fillAll record bindings (scope.editing (Scope.memberControl parent address node)), hmade, ?_,
    ?_, ?_, ?_, ?_⟩
  · rw [hbound, flatMap_filter_of_nil]
    intro name _ hfails
    obtain ⟨error, herror⟩ := Scope.exists_error_of_makes hfails
    rw [Scope.memberRows, Attempt.value_orSkip, herror]
    rfl
  · intro name hname
    obtain ⟨made, hmember⟩ := Scope.makes_iff.mp (List.mem_filter.mp hname).2
    rw [Scope.memberRows, Attempt.value_orSkip, hmember]
    exact Scope.areRowsOf_member hiterable hspace hcounted hpath hmember hone
  · intro other hother
    unfold Scope.editing at hother
    split at hother
    · rw [Scope.fillAll_memberControl parent address node hone] at hother
      split at hother
      · exact ⟨_, List.mem_singleton.mp hother⟩
      · exact nomatch hother
    · exact nomatch hother
  · intro name hname hfails
    have hmakes : scope.makes (scope.render levels) parent name = false := by
      simpa [kept, hname] using hfails
    obtain ⟨error, herror⟩ := Scope.exists_error_of_makes hmakes
    refine ⟨error, herror, ?_⟩
    rw [hrun, Logged.log_collect]
    refine List.mem_cons_of_mem _ (List.mem_flatMap.mpr ⟨name, hname, ?_⟩)
    rw [Attempt.log_orSkip, herror]
    exact List.mem_append_right _ List.mem_cons_self
  · intro hdisjoint
    refine perm_flatMap_filter fun child hchild => ?_
    exact Nat.le_trans (List.filter_sublist.countP_le) (hdisjoint child hchild)

/-- An order in which a note stands between two remarks, which stand in for notes, and a line. -/
def withRemarks : Instance :=
  ⟨.plain "order" "" [.plain "remark" "1" [], .plain "line" "2" [], .plain "note" "3" [],
    .plain "remark" "4" []], .disabled⟩

def scopeOfOrder : Scope := ⟨boundedOrderIndex, .edit, .root (.unprefixed "order")⟩

/-- The note comes first, and after it both remarks in their order. -/
theorem substitution_rows_withRemarks :
    let order : Address := .root (.unprefixed "order")
    let note : PrefixedName := .unprefixed "note"
    let remark : PrefixedName := .unprefixed "remark"
    SchemaIndex.build boundedOrder .disabled [⟨none, "order"⟩] = .ok scopeOfOrder.index ∧
    (∀ node ∈ scopeOfOrder.index.nodes, 0 + node.address.depth ≤ Text.maxWord) ∧
    (order.child note).parent? = some order ∧ order.CountedFrom 0 ∧
    withRemarks.elements (order.substitute []) = [withRemarks.root] ∧
    ∃ node classification nodes rows control, scopeOfOrder.node (order.child note) = .ok node ∧
      scopeOfOrder.classify (order.child note) = .ok classification ∧
      classification.isHead = true ∧
      (scopeOfOrder.renderNode (scopeOfOrder.render 2) (order.child note)).run.value = .ok nodes ∧
      ((bindAll withRemarks nodes).run []).1 = [note, remark].flatMap rows ++ control ∧
      (∃ contents, withRemarks.AreRowsOf (order.child note) contents [] [.plain "note" "3" []]
        (rows note)) ∧
      (∃ contents, withRemarks.AreRowsOf (order.child remark) contents []
        [.plain "remark" "1" [], .plain "remark" "4" []] (rows remark)) ∧
      ([note, remark].flatMap (withRemarks.childrenNamed · withRemarks.root)).Perm
        [.plain "remark" "1" [], .plain "note" "3" [], .plain "remark" "4" []] := by
  intro order note remark
  have hbuild : SchemaIndex.build boundedOrder .disabled [⟨none, "order"⟩] =
      .ok scopeOfOrder.index := rfl
  have hroom : ∀ node ∈ scopeOfOrder.index.nodes, 0 + node.address.depth ≤ Text.maxWord := by
    decide
  have hparent : (order.child note).parent? = some order := rfl
  have hcounted : order.CountedFrom 0 := Address.counted_of_vars_nil rfl
  have hone : withRemarks.elements (order.substitute []) = [withRemarks.root] := rfl
  obtain ⟨nodes, rows, control, hmade, hshown, hrows, -, -, hperm⟩ := substitution_rows hbuild hroom
    (rfl : scopeOfOrder.node (order.child note) = .ok _) rfl rfl hparent hcounted 2 withRemarks []
    hone
  exact ⟨hbuild, hroom, hparent, hcounted, hone, _, _, nodes, rows, control, rfl, rfl, rfl, hmade,
    hshown, hrows note (by decide), hrows remark (by decide), hperm (by decide)⟩

end Compile

end SchemaForms
