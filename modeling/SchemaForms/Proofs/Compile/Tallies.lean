import SchemaForms.Proofs.Compile.Uses
import SchemaForms.Proofs.Template.Fields

/-!
The fields for one attribute of an element, construct by construct. A use of its name makes one
field, and nothing else makes one: what is made for other places at the depth of the attribute is
for these places, or for elements beside them, or further down. So the fields are counted by the
uses that the constructs show, and the order in which they are shown does not matter.
-/

namespace SchemaForms

namespace Compile

open TemplateNode

namespace Scope

/-- Among the nodes there is one field for the attribute for each of the uses that the constructs
show under its name. -/
def Tallies (scope : Scope) (parent : Address) (name : PrefixedName)
    (constructs : List Construct) (nodes : List TemplateNode) : Prop :=
  ∃ uses, scope.index.set.ShowsUses constructs uses ∧ fieldsFor (parent.attr name) nodes =
    uses.countP fun use => (scope.index.attributeName use).toOption = some name

variable {scope : Scope} {parent here : Address} {name : PrefixedName} {render : Renderer}
  {left right constructs : List Construct} {nodes others : List TemplateNode}

theorem Tallies.append (hleft : scope.Tallies parent name left nodes)
    (hright : scope.Tallies parent name right others) :
    scope.Tallies parent name (left ++ right) (nodes ++ others) := by
  obtain ⟨uses, hshows, hcount⟩ := hleft
  obtain ⟨uses', hshows', hcount'⟩ := hright
  refine ⟨uses ++ uses', hshows.append hshows', ?_⟩
  rw [fieldsFor_append, List.countP_append, hcount, hcount']

theorem tallies_nil (scope : Scope) (parent : Address) (name : PrefixedName) :
    scope.Tallies parent name [] [] :=
  ⟨[], .nil, rfl⟩

theorem Tallies.congr (h : scope.Tallies parent name constructs nodes)
    (hsame : fieldsFor (parent.attr name) others = fieldsFor (parent.attr name) nodes) :
    scope.Tallies parent name constructs others := by
  obtain ⟨uses, hshows, hcount⟩ := h
  exact ⟨uses, hshows, hsame.trans hcount⟩

/-- What shows no attributes tallies with nodes that are all for something else. -/
theorem tallies_none {construct : Construct} (hnone : scope.index.set.ShowsNoUse construct)
    (hnodes : fieldsFor (parent.attr name) nodes = 0) :
    scope.Tallies parent name [construct] nodes :=
  ⟨[], .none hnone .nil, hnodes⟩

/-- A field for another place at the depth of the attribute is not for the attribute. -/
theorem ne_of_beside {place address : Address} (hdepth : place.depth = parent.depth + 1)
    (hother : place.schemaAddress ≠ parent.attr name) (h : AtOrBeside place address) :
    address.schemaAddress ≠ parent.attr name := by
  intro hsame
  have hattribute : address.isAttribute = true := by
    rw [← Address.isAttribute_schemaAddress, hsame, Address.isAttribute_attr]
  have hlevel : address.depth = place.depth := by
    rw [← Address.depth_schemaAddress, hsame, Address.depth_attr, hdepth]
  rw [h.eq_of_depth hattribute hlevel] at hsame
  exact hother hsame

theorem ne_of_beside_child (hhere : here.schemaAddress = parent) {child : PrefixedName}
    {address : Address} (h : AtOrBeside (here.child child) address) :
    address.schemaAddress ≠ parent.attr name := by
  subst hhere
  refine ne_of_beside (by simp) (fun hsame => ?_) h
  simpa using congrArg Address.isAttribute hsame

section Shown

variable (hrender : scope.Faithful scope.Honest 0 render)

include hrender

theorem beside_renderGuarded (place : Address) :
    ∀ address ∈ fieldAddresses (scope.renderGuarded render place).value, AtOrBeside place address :=
  showsAt_of_renders
    (yields_renderGuarded scope.nesting_honest.ordinary hrender place (Nat.zero_le _)).value

theorem beside_shownMember (occurs : Occurs) (member : PrefixedName) :
    ∀ address ∈ fieldAddresses (scope.shownMember render here occurs member).value,
      AtOrBeside (here.child member) address := by
  have hordinary := scope.nesting_honest.ordinary
  have hmember : Attempt.Yields scope.Honest (if occurs.isMany then
      branch scope render (here.child member) false
      else scope.alternative render (here.child member)) fun made =>
        ∀ address ∈ fieldAddresses made, AtOrBeside (here.child member) address := by
    split
    · refine .mono (yields_guardedIteration hordinary hrender _ (Nat.zero_le _) false) ?_
      rintro made ⟨node, nodes, hnode, rfl, hnodes⟩
      rw [fieldAddresses_guard, fieldAddresses_itemIteration]
      exact fun address haddress =>
        (atOrBelow_itemAddress.mp (showsAt_of_renders hnodes address haddress)).atOrBeside
    · refine .bind (yields_renderNode hordinary hrender _ (Nat.zero_le _)) fun nodes hnodes =>
        .pure ?_
      rw [fieldAddresses_guard]
      exact showsAt_of_renders hnodes
  exact (Attempt.orSkip_yields hmember (by simp)).value

/-- Neither the members of a choice nor the question are for an attribute of the element. -/
theorem fieldsFor_renderChoice (hhere : here.schemaAddress = parent) (occurs : Occurs)
    (children : List Construct) : fieldsFor (parent.attr name)
      (Attempt.orSkip here (scope.renderChoice render here occurs children)).value = 0 := by
  rw [Attempt.value_orSkip]
  cases hnames : scope.leafNames here children with
  | error error =>
    rw [run_renderChoice_of_error hnames]
    rfl
  | ok names =>
    have hquestion : fieldAddresses (scope.question here occurs names) = [] := by
      unfold question
      split
      · simp [fieldAddresses, skeleton_repeatedPrompt]
      · simp [fieldAddresses, skeleton_singlePrompt]
    rw [value_renderChoice hnames]
    refine fieldsFor_eq_zero fun address haddress => ?_
    rw [fieldAddresses_append, hquestion, List.append_nil, fieldAddresses_flatMap] at haddress
    obtain ⟨member, -, hmember⟩ := List.mem_flatMap.mp haddress
    exact ne_of_beside_child hhere (beside_shownMember hrender occurs member address hmember)

end Shown

/-- What is shown of a node that no others stand in for is what is shown of it in one place, where
it may be a row. -/
theorem makes_renderNode {place : Address} {node : SchemaNode} {P : List TemplateNode → Prop}
    (hnode : scope.node place = .ok node) (hexpanded : node.isRecursive = false)
    (hplain : node.isSubstitutionHead = false)
    (h : ∀ address row, address.schemaAddress = place.schemaAddress →
      (render address row (.ofNode scope.types node node.type)).Makes P) :
    (scope.renderNode render place).Makes fun nodes =>
      ∃ shown, P shown ∧ fieldAddresses nodes = fieldAddresses shown := by
  have hclassified : scope.classify place = .ok ⟨.ofNode scope.types node node.type, false,
      scope.index.isRepeating place⟩ := by
    unfold classify
    rw [hnode]
    change Except.ok (Classification.mk _ _ _) = _
    rw [hexpanded, hplain]
    rfl
  refine .lookup hnode (.lookup hclassified ?_)
  refine .bind (P := fun _ => True) (.lift trivial) fun _ _ => ?_
  simp only [Bool.false_eq_true, if_false]
  split
  · refine .bind (P := fun rows => ∃ shown, P shown ∧ rows = itemIteration place shown) ?_ ?_
    · exact .bind (h (itemAddress place) _ (schemaAddress_itemAddress place)) fun shown hshown =>
        .pure ⟨shown, hshown, rfl⟩
    · rintro _ ⟨shown, hshown, rfl⟩
      exact .pure ⟨shown, hshown, fieldAddresses_repeated place node shown⟩
  · exact .mono (h place none rfl) fun nodes hnodes => ⟨nodes, hnodes, rfl⟩

theorem fieldAddresses_renderGuarded (place : Address) :
    fieldAddresses (scope.renderGuarded render place).value =
      fieldAddresses (Attempt.orSkip place (scope.renderNode render place)).value := by
  change fieldAddresses (if (Attempt.orSkip place (scope.renderNode render place)).value.isEmpty
    then [] else scope.guarded place _) = _
  split
  · rename_i hempty
    rw [List.isEmpty_iff.mp hempty]
  · exact fieldAddresses_guarded place _

/-- The index describes the address, as that of an attribute. -/
def KnowsAttribute (scope : Scope) (address : Address) : Prop :=
  ∃ node, scope.index.node? address = some node ∧ node.kind = .attr ∧ node.isRecursive = false

section Uses

variable {levels : Nat} (hknows : scope.KnowsAttribute (parent.attr name))
  (hhere : here.schemaAddress = parent)

include hknows hhere

/-- The attribute itself has one field. -/
theorem fieldsFor_attribute : fieldsFor (parent.attr name)
    (scope.renderGuarded (scope.render (levels + 1)) (here.attr name)).value = 1 := by
  obtain ⟨node, hfound, hkind, hexpanded⟩ := hknows
  have haddress : (here.attr name).schemaAddress = parent.attr name := by simp [hhere]
  have hnode : scope.node (here.attr name) = .ok node := by
    rw [node_eq_ok_iff, SchemaIndex.nodeOf?, haddress, hfound]
  have hshape : Shape.ofNode scope.types node node.type = .attr := by
    simp [Shape.ofNode, hexpanded, hkind]
  have hone : ∀ address row, address.schemaAddress = (here.attr name).schemaAddress →
      (scope.render (levels + 1) address row (.ofNode scope.types node node.type)).Makes
        fun nodes => fieldsFor (parent.attr name) nodes = 1 := by
    intro address row hplace
    have hother : scope.node address = .ok node := by
      rw [node_eq_ok_iff, SchemaIndex.nodeOf?, hplace, haddress, hfound]
    rw [hshape]
    refine .lookup hother (.pure ?_)
    simp [fieldsFor, hplace, haddress]
  have hplain : node.isSubstitutionHead = false := by
    simp [SchemaNode.isSubstitutionHead, SchemaNode.isElement, hkind]
  obtain ⟨shown, hshown, hsame⟩ :=
    (makes_renderNode hnode hexpanded hplain hone).orSkip (here.attr name)
  rw [fieldsFor_congr (fieldAddresses_renderGuarded _), fieldsFor_congr hsame, hshown]

theorem fieldsFor_renderUse (use : AttributeDeclaration) : fieldsFor (parent.attr name)
    (Attempt.orSkip here (scope.renderUse (scope.render (levels + 1)) here use)).value =
      if (scope.index.attributeName use).toOption = some name then 1 else 0 := by
  rw [Attempt.value_orSkip]
  cases hname : scope.index.attributeName use with
  | error error =>
    have hfails : (scope.renderUse (scope.render (levels + 1)) here use).run =
        ⟨.error (.unresolvedName error), []⟩ := by
      unfold renderUse attributeName
      rw [hname]
      rfl
    rw [hfails]
    simp [Except.toOption]
  | ok found =>
    have hvalue : (scope.renderUse (scope.render (levels + 1)) here use).run.value =
        .ok (scope.renderGuarded (scope.render (levels + 1)) (here.attr found)).value := by
      unfold renderUse attributeName
      rw [hname]
      rfl
    rw [hvalue]
    by_cases hsame : found = name
    · subst hsame
      simpa [Except.toOption] using fieldsFor_attribute hknows hhere
    · have hother : (here.attr found).schemaAddress ≠ parent.attr name := by
        intro heq
        rw [Address.schemaAddress_attr, hhere] at heq
        simp [Address.attr] at heq
        exact hsame heq
      have hfaithful := scope.faithful_render_honest (levels + 1)
      have hnone := fieldsFor_eq_zero fun address haddress => ne_of_beside (by simp [← hhere])
        hother (beside_renderGuarded hfaithful (here.attr found) address haddress)
      simpa [Except.toOption, hsame] using hnone

/-- One by one, uses are shown under their names. -/
theorem fieldsFor_uses (uses : List AttributeDeclaration) :
    fieldsFor (parent.attr name) (uses.flatMap fun use =>
      (Attempt.orSkip here (scope.renderUse (scope.render (levels + 1)) here use)).value) =
        uses.countP fun use => (scope.index.attributeName use).toOption = some name := by
  induction uses with
  | nil => rfl
  | cons use others ih =>
    rw [List.flatMap_cons, fieldsFor_append, ih, fieldsFor_renderUse hknows hhere,
      List.countP_cons, Nat.add_comm]
    simp

end Uses

/-- Attributes come first, which does not change how many there are. -/
theorem tallies_renderAll {each : ConstructRenderer} (h : ∀ construct ∈ constructs,
      scope.Tallies parent name [construct] (Attempt.orSkip here (each construct)).value) :
    scope.Tallies parent name constructs (renderAll each here constructs).value := by
  have hinOrder : scope.Tallies parent name constructs
      (constructs.flatMap fun construct => (Attempt.orSkip here (each construct)).value) := by
    induction constructs with
    | nil => exact tallies_nil scope parent name
    | cons first others ih =>
      obtain ⟨hfirst, hothers⟩ := List.forall_mem_cons.mp h
      exact hfirst.append (ih hothers)
  refine hinOrder.congr ?_
  have hperm : (attributesFirst constructs).Perm constructs :=
    List.filter_append_perm Construct.isAttribute constructs
  rw [renderAll, Logged.value_collect, fieldsFor, fieldsFor, fieldAddresses_flatMap,
    fieldAddresses_flatMap]
  exact (hperm.flatMap_right _).countP_eq _

section Compositors

variable {kind : Compositor} {occurs : Occurs} {children : List Construct} {depth : Nat}

/-- A compositor that is no choice shows what its children show. -/
theorem fieldAddresses_compositor (hkind : kind ≠ .choice) :
    fieldAddresses (scope.shown render here (depth + 1) (.compositor kind occurs children)).value =
      fieldAddresses (renderAll (scope.renderConstruct render here depth) here children).value := by
  set made := (renderAll (scope.renderConstruct render here depth) here children).value with hmade
  have hvalue : (scope.renderConstruct render here (depth + 1)
      (.compositor kind occurs children)).run.value =
        .ok (if made.isEmpty then [] else [.group .compositor made]) := by
    cases kind with
    | choice => exact absurd rfl hkind
    | all => rfl
    | sequence => rfl
  rw [shown, Attempt.value_orSkip, hvalue]
  by_cases hempty : made.isEmpty
  · simp [List.isEmpty_iff.mp hempty]
  · simp [hempty]

/-- A group that is no choice shows what its children show. -/
theorem value_group {name : ExpandedName} {group : ModelGroup}
    (hgroup : scope.index.set.modelGroup? name = some group) (hkind : group.kind ≠ .choice) :
    (scope.shown render here (depth + 1) (.group name occurs)).value =
      (renderAll (scope.renderConstruct render here depth) here group.children).value := by
  have hvalue : (scope.renderConstruct render here (depth + 1) (.group name occurs)).run.value =
      .ok (renderAll (scope.renderConstruct render here depth) here group.children).value := by
    simp only [renderConstruct, modelGroup, hgroup]
    obtain ⟨name, document, kind, bounds, members⟩ := group
    cases kind with
    | choice => exact absurd rfl hkind
    | all => rfl
    | sequence => rfl
  rw [shown, Attempt.value_orSkip, hvalue]

end Compositors

section Constructs

variable {levels : Nat} (hgroups : scope.index.set.GroupsEnd)
  (htop : scope.index.set.derivesOnTop = true) (hknows : scope.KnowsAttribute (parent.attr name))
  (hhere : here.schemaAddress = parent)

section Cases

include hknows hhere

/-- A reference to attributes shows those of the group, or nothing when one of them is missing. -/
theorem tallies_attributeGroup (depth : Nat) (group : ExpandedName) :
    scope.Tallies parent name [.attributeGroup group]
      (scope.shown (scope.render (levels + 1)) here (depth + 1) (.attributeGroup group)).value := by
  by_cases hdefined : ∀ other, Relation.ReflTransGen
      scope.index.set.AttributeGroupRefers group other →
        (scope.index.set.attributeGroup? other).isSome
  · obtain ⟨uses, groups, huses, hopens, hperm⟩ := groupAttributes_eq here hdefined
    refine ⟨_, .attributeGroup hopens .nil, ?_⟩
    rw [shown, Attempt.value_orSkip, value_attributeGroup depth huses, List.append_nil,
      ← hperm.countP_eq]
    exact fieldsFor_uses hknows hhere uses
  · obtain ⟨missing, hreaches, hmissing⟩ : ∃ missing, Relation.ReflTransGen
        scope.index.set.AttributeGroupRefers group missing ∧
          scope.index.set.attributeGroup? missing = none := by
      simpa using hdefined
    obtain ⟨error, herror⟩ : ∃ error, scope.groupAttributes here group = .error error :=
      groupAttributes_fails hreaches hmissing
    refine tallies_none ⟨missing, hreaches, hmissing⟩ ?_
    rw [shown, Attempt.value_orSkip, run_attributeGroup_of_error depth herror]
    rfl

omit hknows

theorem tallies_compositor {depth : Nat} {kind : Compositor} {occurs : Occurs}
    {children : List Construct} (h : ∀ child ∈ children, scope.Tallies parent name [child]
      (scope.shown (scope.render (levels + 1)) here depth child).value) :
    scope.Tallies parent name [.compositor kind occurs children] (scope.shown
      (scope.render (levels + 1)) here (depth + 1) (.compositor kind occurs children)).value := by
  have hfaithful := scope.faithful_render_honest (levels + 1)
  by_cases hkind : kind = .choice
  · subst hkind
    exact tallies_none rfl (fieldsFor_renderChoice hfaithful hhere occurs children)
  · obtain ⟨uses, hshows, hcount⟩ := tallies_renderAll h
    refine ⟨uses ++ [], .compositor hkind hshows .nil, ?_⟩
    rw [fieldsFor_congr (fieldAddresses_compositor hkind), List.append_nil]
    exact hcount

theorem tallies_group {depth : Nat} {group : ExpandedName} {occurs : Occurs}
    (h : ∀ found, scope.index.set.modelGroup? group = some found →
      ∀ child ∈ found.children, scope.Tallies parent name [child]
        (scope.shown (scope.render (levels + 1)) here depth child).value) :
    scope.Tallies parent name [.group group occurs]
      (scope.shown (scope.render (levels + 1)) here (depth + 1) (.group group occurs)).value := by
  have hfaithful := scope.faithful_render_honest (levels + 1)
  cases hgroup : scope.index.set.modelGroup? group with
  | none =>
    have hfails : (scope.renderConstruct (scope.render (levels + 1)) here (depth + 1)
        (.group group occurs)).run = ⟨.error (.undefinedModelGroup here group), []⟩ := by
      simp only [renderConstruct, modelGroup, hgroup]
      rfl
    refine tallies_none (fun found hfound => ?_) ?_
    · simp [hgroup] at hfound
    · rw [shown, Attempt.value_orSkip, hfails]
      rfl
  | some found =>
    by_cases hkind : found.kind = .choice
    · refine tallies_none (fun other hother => ?_) ?_
      · exact Option.some.inj (hgroup.symm.trans hother) ▸ hkind
      · rw [shown, Attempt.value_orSkip, run_choiceGroup depth hgroup hkind, ← Attempt.value_orSkip]
        exact fieldsFor_renderChoice hfaithful hhere _ found.children
    · obtain ⟨uses, hshows, hcount⟩ := tallies_renderAll (h found hgroup)
      refine ⟨uses ++ [], .group hgroup hkind hshows .nil, ?_⟩
      rw [value_group hgroup hkind, List.append_nil]
      exact hcount

/-- The fields of an element stand below it, so none of them is for an attribute beside it. -/
theorem fieldsFor_element (depth : Nat) (reference : ElementRef) (occurs : Occurs) :
    fieldsFor (parent.attr name) (scope.shown (scope.render (levels + 1)) here (depth + 1)
      (.element reference occurs)).value = 0 := by
  have hfaithful := scope.faithful_render_honest (levels + 1)
  cases hname : scope.elementName reference with
  | error error =>
    have hfails : (scope.renderConstruct (scope.render (levels + 1)) here (depth + 1)
        (.element reference occurs)).run = ⟨.error error, []⟩ := by
      simp only [renderConstruct]
      rw [hname]
      rfl
    rw [shown, Attempt.value_orSkip, hfails]
    rfl
  | ok child =>
    have hvalue : (scope.renderConstruct (scope.render (levels + 1)) here (depth + 1)
        (.element reference occurs)).run.value =
          .ok (scope.renderGuarded (scope.render (levels + 1)) (here.child child)).value := by
      simp only [renderConstruct]
      rw [hname]
      rfl
    rw [shown, Attempt.value_orSkip, hvalue]
    exact fieldsFor_eq_zero fun address haddress =>
      ne_of_beside_child hhere (beside_renderGuarded hfaithful _ address haddress)

end Cases

include hgroups htop hknows hhere

/-- What is shown of a construct tallies with the attributes that it shows. -/
theorem tallies_shown (depth : Nat) : ∀ construct, scope.index.set.Fits depth construct →
    scope.Tallies parent name [construct]
      (scope.shown (scope.render (levels + 1)) here depth construct).value := by
  have hnesting : scope.Nesting scope.Ordinary scope.index.set.Fits := nesting_ordinary hgroups htop
  have hfaithful := scope.faithful_render_honest (levels + 1)
  induction depth with
  | zero =>
    rintro construct ⟨path, hmeets, hdepth⟩
    have hpos := construct.height_pos
    omega
  | succ depth ih =>
    intro construct hfits
    cases construct with
    | attributeUse use =>
      refine ⟨[use], .use .nil, (fieldsFor_renderUse hknows hhere use).trans ?_⟩
      simp [List.countP_cons]
    | attributeGroup group => exact tallies_attributeGroup hknows hhere depth group
    | simpleContent method base children =>
      obtain ⟨path, hmeets, -⟩ := hfits
      exact absurd hmeets.plain (by simp [Construct.derives])
    | complexContent method base children =>
      obtain ⟨path, hmeets, -⟩ := hfits
      exact absurd hmeets.plain (by simp [Construct.derives])
    | compositor kind occurs children =>
      exact tallies_compositor hhere fun child hchild =>
        ih child (hnesting.compositor depth kind occurs children hfits child hchild)
    | group group occurs =>
      exact tallies_group hhere fun found hgroup child hchild =>
        ih child (hnesting.group depth group occurs found hfits hgroup child hchild)
    | element reference occurs =>
      exact tallies_none trivial (fieldsFor_element hhere depth reference occurs)
    | wildcard occurs =>
      exact tallies_none trivial (fieldsFor_eq_zero fun address haddress =>
        ne_of_beside_child hhere (beside_renderGuarded hfaithful _ address haddress))
    | other tag => exact tallies_none trivial rfl

end Constructs

end Scope

end Compile

end SchemaForms
