import SchemaForms.Proofs.Form.Closed
import SchemaForms.Proofs.Form.Selecting
import SchemaForms.Proofs.Form.Shown

/-!
Repetitions in forms. A repetition asks twice how often its element occurs, once for the rows and
once for the control that makes the first one, and a control after the rows asks again. All three
ask about one place, since the variables around the repetition stand for the same positions, so the
number of occurrences alone decides what is shown there.
-/

namespace SchemaForms

namespace FormNode

/-- One occurrence in a repetition at a place. -/
def occurrence (place : Address) (contents : Nat → List FormNode) (number : Nat) : FormNode :=
  .row number (place.withIndex (.position number)) (contents number)

/-- The control for one more occurrence. -/
def another (place : Address) : FormNode :=
  .affordance .addSibling place ("add " ++ Compile.leafText place) []

/-- What stands for a repetition without occurrences: a header with the control for the first. -/
def beginning (place : Address) : FormNode :=
  .header (Compile.leafText place)
    [.affordance .addFirst place ("add " ++ Compile.leafText place) []]

end FormNode

namespace Instance

variable (record : Instance) (place : Address)

@[simp] theorem holds_absent : record.holds .absent place = true ↔ record.count place = 0 := by
  simp [holds]

@[simp] theorem holds_countBelow (limit : MaxOccurs) :
    record.holds (.countBelow limit) place = limit.admitsMore (record.count place) := rfl

end Instance

namespace Compile

open TemplateNode FormNode

/-- Positions for variables do not change what an address is called. -/
@[simp] theorem leafText_substitute (address : Address) (bindings : Bindings) :
    leafText (address.substitute bindings) = leafText address := by
  have hname : ∀ segment : Segment, (segment.substitute bindings).name = segment.name := by
    intro segment
    cases segment <;> rfl
  have hleaf : (address.substitute bindings).leafName? = address.leafName? := by
    simp [Address.leafName?, Address.leaf?, Address.substitute, Function.comp_def, hname]
  simp only [leafText, Label.ofAddress, hleaf]

namespace Scope

variable {scope : Scope}

theorem editing_edit (h : scope.mode = .edit) (controls : List TemplateNode) :
    scope.editing controls = controls := by
  simp [editing, isEdit, h]

section Filled

variable (record : Instance) (bindings : Bindings) (siblings : Address)

theorem fill_addSibling (limit : MaxOccurs) :
    fill record bindings (addSibling siblings limit) =
      if limit.admitsMore (record.count (siblings.substitute bindings)) then
        [another (siblings.substitute bindings)]
      else [] := by
  simp [addSibling, addLabel, another, fill]

theorem fill_addFirst :
    fill record bindings (addFirst siblings) =
      if record.count (siblings.substitute bindings) = 0 then
        [beginning (siblings.substitute bindings)]
      else [] := by
  simp only [addFirst, addLabel, beginning, fill, fillAll, Instance.holds_absent,
    leafText_substitute, List.append_nil]
  rfl

end Filled

/-- In scope, the rows of an iteration stand at the place of its siblings, numbered from one. -/
theorem fill_itemIteration {address : Address} {rows : List TemplateNode} {bound : List String}
    (hscoped : Scoped bound (itemIteration address rows)) (record : Instance)
    (bindings : Bindings) :
    fill record bindings (itemIteration address rows) =
      (List.range' 1 (record.count (address.siblingPath.substitute bindings))).map
        (occurrence (address.siblingPath.substitute bindings) fun number =>
          fillAll record (bindings.insert (itemVariable address) number) rows) := by
  rw [itemIteration, fill]
  apply List.map_congr_left
  intro number _
  rw [occurrence, substitute_itemAddress hscoped]

/-- What is shown for a repetition, by the number of occurrences at its place. -/
theorem fillAll_repeated (hedit : scope.mode = .edit) {address : Address} {node : SchemaNode}
    {rows : List TemplateNode} {bound : List String}
    (hscoped : ScopedAll bound (scope.repeated address node rows)) (record : Instance)
    (bindings : Bindings) :
    let place := address.siblingPath.substitute bindings
    let count := record.count place
    fillAll record bindings (scope.repeated address node rows) =
      (List.range' 1 count).map (occurrence place fun number =>
          fillAll record (bindings.insert (itemVariable address) number) rows) ++
        (if 1 ≤ count ∧ (occurrenceLimit node).admitsMore count then [another place] else []) ++
        (if count = 0 ∧ scope.isStartedAbove address = false then [beginning place] else []) := by
  intro place count
  have hrows := fill_itemIteration hscoped.1.2.1 record bindings
  have hsibling := fill_addSibling record bindings address.siblingPath (occurrenceLimit node)
  have hfirst := fill_addFirst record bindings address.siblingPath
  have hstart : fillAll record bindings
      (if scope.isStartedAbove address then [] else [addFirst address.siblingPath]) =
        if count = 0 ∧ scope.isStartedAbove address = false then [beginning place] else [] := by
    by_cases habove : scope.isStartedAbove address = true
    · simp [habove, fillAll]
    · simp [habove, hfirst, place, count]
  rw [repeated, editing_edit hedit, editing_edit hedit, fillAll_append, hstart, fillAll_singleton,
    fill]
  by_cases hcount : 0 < count
  · have hsome : 1 ≤ count := hcount
    simp only [place, count] at hcount hsome
    simp [fillAll, hcount, hrows, hsibling, hsome, place, count]
  · have hnone : count = 0 := by omega
    simp only [place, count] at hcount hnone
    simp [hnone, place, count]

/-- The nodes that are made for an element that repeats are a repetition. -/
theorem exists_repeated_of_renderNode {levels : Nat} {address : Address} {node : SchemaNode}
    (hnode : scope.node address = .ok node) {classification : Classification}
    (hclassified : scope.classify address = .ok classification)
    (hhead : classification.isHead = false) (hrepeating : classification.isRepeating = true)
    {nodes : List TemplateNode}
    (hmade : (scope.renderNode (scope.render levels) address).run.value = .ok nodes) :
    scope.index.isRepeating address = true ∧
      ∃ rows, nodes = scope.repeated address node rows ∧
        Renders scope (.occurrence (itemAddress address)
          (some ⟨itemVariable address, false⟩)) rows := by
  have hfaithful := faithful_render scope.nesting_honest levels 0 (Or.inr (by simp [Honest]))
  have hrenders := (yields_renderNode scope.nesting_honest.ordinary hfaithful address
    (Nat.zero_le _)).value
  rw [hmade] at hrenders
  obtain ⟨found, hfound, rfl⟩ := classify_eq_ok hclassified
  obtain rfl : node = found := Except.ok.inj (hnode.symm.trans hfound)
  simp only [Bool.and_eq_true, Bool.not_eq_true'] at hrepeating
  cases hrenders with
  | single hother _ hplain _ =>
    rw [hclassified] at hother
    obtain rfl := Except.ok.inj hother
    simp [hrepeating] at hplain
  | repeating hother _ _ _ hitem =>
    obtain rfl := Except.ok.inj (hnode.symm.trans hother)
    exact ⟨hrepeating.2, _, rfl, hitem⟩
  | head hother hexpanded hsubstituted _ _ =>
    obtain rfl := Except.ok.inj (hnode.symm.trans hother)
    simp [hexpanded, hsubstituted] at hhead

end Scope

/-- A repetition in a form for editing: as many rows as there are occurrences, numbered from one;
after them a control for one more, while there are some and the bound is not reached; and in their
place a control for the first one, while there is none and no header above starts the repetition. Of
the two guards around these exactly one lets pass. -/
theorem repetition_shows {set : SchemaSet} {namespaces : InstanceNamespaces}
    {roots : List ExpandedName} {index : SchemaIndex}
    (hbuild : SchemaIndex.build set namespaces roots = .ok index) {scope : Scope}
    (hindex : scope.index = index) (hedit : scope.mode = .edit) {address : Address} {base : Nat}
    (hcounted : address.siblingPath.CountedFrom base)
    (hroom : ∀ node ∈ index.nodes, base + node.address.depth ≤ Text.maxWord) {node : SchemaNode}
    (hnode : scope.node address = .ok node) {classification : Classification}
    (hclassified : scope.classify address = .ok classification)
    (hhead : classification.isHead = false) (hrepeating : classification.isRepeating = true)
    {levels : Nat} {nodes : List TemplateNode}
    (hmade : (scope.renderNode (scope.render levels) address).run.value = .ok nodes)
    (record : Instance) (bindings : Bindings) :
    let place := address.siblingPath.substitute bindings
    let count := record.count place
    (∃ contents : Nat → List FormNode,
      ((bindAll record nodes).run bindings).1 =
        (List.range' 1 count).map (occurrence place contents) ++
          (if 1 ≤ count ∧ (Scope.occurrenceLimit node).admitsMore count then [another place]
            else []) ++
          (if count = 0 ∧ scope.isStartedAbove address = false then [beginning place] else [])) ∧
      (record.holds .absent place ↔ ¬ record.holds .present place) := by
  intro place count
  subst hindex
  obtain ⟨-, -, visits, hlists⟩ := SchemaIndex.exists_lists hbuild
  have hiterable := hlists.iterable fun node hmem => by
    have hfit := hroom node hmem
    omega
  have hspace : ∀ address node, scope.index.nodeOf? address = some node →
      base + address.depth ≤ Text.maxWord := by
    intro found node hfound
    have hfit := hroom node (List.mem_of_find?_eq_some hfound)
    rw [(hlists.visit_of_nodeOf? hfound).1, Address.depth_schemaAddress] at hfit
    exact hfit
  obtain ⟨hrepeats, rows, rfl, hrows⟩ :=
    Scope.exists_repeated_of_renderNode hnode hclassified hhead hrepeating hmade
  have hscoped := scopedAll_repeated hiterable hspace hcounted (Scope.node_eq_ok_iff.mp hnode)
    hrepeats (scopedAll_of_renders_from hiterable hspace hrows)
  have hbound := (fills_bindAll record _ hscoped bindings (fun _ _ => rfl)).1
  refine ⟨⟨_, hbound.trans (Scope.fillAll_repeated hedit hscoped record bindings)⟩, ?_⟩
  rw [Instance.holds_absent, Instance.holds_present]
  omega

/-- Two elements of one name, of which the second has three of the same name in it. -/
def severalInside : Instance :=
  ⟨.plain "r" "" [.plain "x" "" [.plain "x" "1" []],
    .plain "x" "" [.plain "x" "2" [], .plain "x" "3" [], .plain "x" "4" []]], .disabled⟩

def scopeInside : Scope := ⟨repeatedInsideIndex, .edit, .root (.unprefixed "r")⟩

/-- The repetition inside the rows of another one. -/
def addressInside : Address :=
  ⟨[.element (.unprefixed "r") none, .element (.unprefixed "x") (some (.var "xIndex")),
    .element (.unprefixed "x") none]⟩

theorem countedFrom_addressInside : addressInside.siblingPath.CountedFrom 0 := by
  intro var hvar leaf number hnumber
  have hvars : addressInside.siblingPath.vars = [Address.variableStem (.unprefixed "x")] := by
    decide
  rw [hvars, List.mem_singleton] at hvar
  rw [hvar] at hnumber
  rw [Address.eq_zero_of_suffixNumber?_stem hnumber, hvars]
  decide

/-- Below the second row the repetition has three occurrences and the control for one more. -/
theorem repetition_shows_repeatedInside :
    SchemaIndex.build repeatedInside .disabled [⟨none, "r"⟩] = .ok repeatedInsideIndex ∧
    addressInside.siblingPath.CountedFrom 0 ∧
    ∃ node classification nodes contents,
      scopeInside.node addressInside = .ok node ∧
      scopeInside.classify addressInside = .ok classification ∧
      classification.isHead = false ∧ classification.isRepeating = true ∧
      (scopeInside.renderNode (scopeInside.render 3) addressInside).run.value = .ok nodes ∧
      severalInside.count (addressInside.siblingPath.substitute [("xIndex", 2)]) = 3 ∧
      ((bindAll severalInside nodes).run [("xIndex", 2)]).1 =
        (List.range' 1 3).map
            (occurrence (addressInside.siblingPath.substitute [("xIndex", 2)]) contents) ++
          [another (addressInside.siblingPath.substitute [("xIndex", 2)])] := by
  have hbuild : SchemaIndex.build repeatedInside .disabled [⟨none, "r"⟩] =
      .ok repeatedInsideIndex := rfl
  have hroom : ∀ node ∈ repeatedInsideIndex.nodes, 0 + node.address.depth ≤ Text.maxWord := by
    decide
  have hcount : severalInside.count (addressInside.siblingPath.substitute [("xIndex", 2)]) = 3 := by
    decide
  have hmade : (scopeInside.renderNode (scopeInside.render 3) addressInside).run.value = .ok _ :=
    rfl
  obtain ⟨contents, hshown⟩ := (repetition_shows hbuild (rfl : scopeInside.index = _) rfl
    countedFrom_addressInside hroom (rfl : scopeInside.node addressInside = .ok _) rfl rfl rfl hmade
    severalInside [("xIndex", 2)]).1
  rw [hcount] at hshown
  exact ⟨hbuild, countedFrom_addressInside, _, _, _, contents, rfl, rfl, rfl, rfl, rfl, hcount,
    hshown⟩

end Compile

end SchemaForms
