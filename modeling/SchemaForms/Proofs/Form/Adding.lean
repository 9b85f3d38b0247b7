import SchemaForms.Proofs.Compile.Controls
import SchemaForms.Proofs.Compile.Rendering
import SchemaForms.Proofs.Form.Making
import SchemaForms.Proofs.Form.Selecting
import SchemaForms.Proofs.Index.Listing

/-!
Where a form adds something. A control that adds an occurrence or a member is put under a guard that
counts, and the guard and the control are filled with the same variables, so the control is only
there while the record leaves room. Which bound is counted against differs: a repetition asks for
the bound of its node, a header starts a repetition that it knows from the index, where nothing
repeats that may occur but once, and a head counts all its members together.
-/

namespace SchemaForms

/-- The bound on the occurrences of a node: its own if several are allowed, or if the node is not
the only particle of a compositor; else the bound of the compositor. -/
inductive SchemaNode.Limit (node : SchemaNode) : MaxOccurs → Prop
  | own (h : node.occurs.isMany = true ∨
      ∀ context, node.compositor = some context → context.isSingleton = false) :
    node.Limit node.occurs.max
  | compositor {context} (hone : node.occurs.isMany = false)
      (hcontext : node.compositor = some context) (halone : context.isSingleton = true) :
    node.Limit context.occurs.max

namespace SchemaIndex

/-- The address is indexed, and the bound of its node leaves room for one more occurrence. -/
def LeavesRoom (index : SchemaIndex) (record : Instance) (place : Address) : Prop :=
  ∃ node, index.nodeOf? place = some node ∧
    ∀ bound, node.Limit (.count bound) → record.count place < bound

/-- The names are the members of a head below the parent, whose own bound leaves room for one more
of them. -/
def LeavesMemberRoom (index : SchemaIndex) (record : Instance) (parent : Address) (label : String)
    (names : List PrefixedName) : Prop :=
  ∃ leaf head, index.nodeOf? ⟨parent.segments ++ [leaf]⟩ = some head ∧
    head.isSubstitutionHead = true ∧ head.members = names ∧
      label = Compile.Scope.addLabel ⟨parent.segments ++ [leaf]⟩ ∧
        ∀ bound, head.occurs.max = .count bound → record.memberCount parent names < bound

end SchemaIndex

/-- A control that adds something does so where there is room for it. -/
def FormNode.AddsWithin (index : SchemaIndex) (record : Instance) : FormNode → Prop
  | .affordance .addFirst target _ _ => index.LeavesRoom record target
  | .affordance .addSibling target _ _ => index.LeavesRoom record target
  | .affordance .addChild target _ _ => index.LeavesRoom record target
  | .affordance .addMember target label names => index.LeavesMemberRoom record target label names
  | _ => True

namespace SchemaNode

variable {node : SchemaNode}

theorem limit_occurrenceLimit (node : SchemaNode) :
    node.Limit (Compile.Scope.occurrenceLimit node) := by
  unfold Compile.Scope.occurrenceLimit
  split
  · rename_i context hone hfilter
    obtain ⟨hcontext, halone⟩ := Option.filter_eq_some_iff.mp hfilter
    exact .compositor hone hcontext halone
  · rename_i hother
    refine .own ?_
    by_contra hneither
    simp only [not_or, not_forall, Bool.not_eq_true, Bool.not_eq_false] at hneither
    obtain ⟨hone, context, hcontext, halone⟩ := hneither
    exact hother context hone (by simp [hcontext, halone])

theorem Limit.unique {limit other : MaxOccurs} (h : node.Limit limit) (hother : node.Limit other) :
    limit = other := by
  cases h with
  | own howns =>
    cases hother with
    | own _ => rfl
    | compositor hone hcontext halone => simp_all
  | compositor hone hcontext halone =>
    cases hother with
    | own howns => simp_all
    | compositor _ hsame _ => simp_all

/-- What repeats may occur more than once. -/
theorem Limit.one_lt {types : TypeTable} {bound : Nat} (h : node.Limit (.count bound))
    (hrepeating : node.isRepeating types = true) : 1 < bound := by
  simp only [isRepeating, Bool.and_eq_true, Bool.or_eq_true, Option.any_eq_true] at hrepeating
  have hmany : ∀ {limit : MaxOccurs}, node.Limit limit → limit.isMany = true := by
    intro limit hlimit
    rcases hrepeating.2 with ⟨hown, -⟩ | ⟨context, hcontext, halone, hmany⟩
    · rwa [hlimit.unique (.own (Or.inl hown))]
    · by_cases hown : node.occurs.isMany = true
      · rwa [hlimit.unique (.own (Or.inl hown))]
      · rwa [hlimit.unique (.compositor (by simpa using hown) hcontext halone)]
  simpa [MaxOccurs.isMany] using hmany h

end SchemaNode

namespace TemplateNode

/-- Whether a node is a control that adds something. -/
def IsAdding : TemplateNode → Prop
  | affordance kind _ _ _ =>
    kind = .addFirst ∨ kind = .addSibling ∨ kind = .addChild ∨ kind = .addMember
  | _ => False

variable {index : SchemaIndex} {record : Instance} {address : Address}

theorem Becomes.addsWithin {node : TemplateNode} {made : FormNode} (h : node.Becomes made)
    (hidle : ¬ node.IsAdding) : made.AddsWithin index record := by
  cases h with
  | @affordance kind _ _ _ _ =>
    simp only [IsAdding, not_or] at hidle
    cases kind <;> simp_all [FormNode.AddsWithin]
  | _ => trivial

/-- What adds nothing itself leaves it to what is in it. -/
theorem within_of_contents {node : TemplateNode} (hidle : ¬ node.IsAdding)
    (hcontents : Gives (FormNode.AddsWithin index record) record node.contents) :
    Gives (FormNode.AddsWithin index record) record [node] :=
  gives_node (fun _ hmade => hmade.addsWithin hidle) hcontents

theorem within_of_idle {nodes : List TemplateNode} (h : Throughout (¬ IsAdding ·) nodes) :
    Gives (FormNode.AddsWithin index record) record nodes :=
  gives_of_throughout (fun _ _ hidle hmade => hmade.addsWithin hidle) record nodes h

end TemplateNode

namespace SchemaIndex

variable {index : SchemaIndex} {record : Instance} {address : Address} {node : SchemaNode}

theorem nodeOf?_substitute_siblingPath (index : SchemaIndex) (address : Address)
    (bindings : Bindings) :
    index.nodeOf? (address.siblingPath.substitute bindings) = index.nodeOf? address := by
  simp [nodeOf?]

/-- There is room while the guard of a repetition lets more be added. -/
theorem leavesRoom_of_admitsMore {place : Address} (hnode : index.nodeOf? place = some node)
    (h : (Compile.Scope.occurrenceLimit node).admitsMore (record.count place) = true) :
    index.LeavesRoom record place := by
  refine ⟨node, hnode, fun bound hbound => ?_⟩
  rw [node.limit_occurrenceLimit.unique hbound] at h
  simpa [MaxOccurs.admitsMore] using h

/-- Where something that repeats is absent, there is room for it. -/
theorem leavesRoom_of_absent {place : Address} (hnode : index.nodeOf? place = some node)
    (hrepeating : node.isRepeating index.set.types = true) (habsent : record.count place = 0) :
    index.LeavesRoom record place := by
  refine ⟨node, hnode, fun bound hbound => ?_⟩
  have hmany := hbound.one_lt hrepeating
  omega

/-- What the header of an element starts is indexed and repeats. -/
def StartsRepeating (index : SchemaIndex) : Prop :=
  ∀ here singleton name, index.repeatingSingletonOf? here = some singleton →
    singleton.leafName? = some name → ∃ node, index.nodeOf? (here.child name) = some node ∧
      node.isRepeating index.set.types = true

theorem startsRepeating_of_build {set : SchemaSet} {namespaces : InstanceNamespaces}
    {roots : List ExpandedName} (hbuild : build set namespaces roots = .ok index) :
    index.StartsRepeating := by
  obtain ⟨-, -, visits, hrecords, hlists⟩ := exists_records hbuild
  intro here singleton name hsingleton hname
  obtain ⟨above, habove, honly⟩ := Option.bind_eq_some_iff.mp hsingleton
  have haddress : above.address = here.schemaAddress := by simpa using List.find?_some habove
  have hfilled := hrecords.filled above (List.mem_of_find?_eq_some habove)
  obtain ⟨hmem, other, rfl⟩ := hfilled.singleton singleton honly
  obtain ⟨visit, hvisit, hsame, hrepeats⟩ := hfilled.repeats _ honly
  obtain rfl : other = name := by simpa [Address.leafName?, Segment.name] using hname
  obtain ⟨found, hfound⟩ := Option.isSome_iff_exists.mp ((hlists.isSome_node?_iff _).mpr hmem)
  refine ⟨found, by simpa [nodeOf?, haddress] using hfound, ?_⟩
  -- What was visited at the address is what is found there, since no address is visited twice.
  obtain ⟨bare, hbare, heq⟩ := hlists.exists_visit (List.mem_of_find?_eq_some hfound)
  have hat : found.address = above.address.child other := by simpa using List.find?_some hfound
  have hvisited : visit = bare := by
    refine hlists.history.eq_of_address_eq hvisit hbare ?_
    rw [hsame, heq]
    exact hat.symm
  rw [hvisited, heq] at hrepeats
  exact hrepeats

end SchemaIndex

namespace Compile

open TemplateNode

variable {scope : Scope} {record : Instance} {address : Address} {nodes : List TemplateNode}

section Controls

theorem within_editing {controls : List TemplateNode}
    (h : Gives (FormNode.AddsWithin scope.index record) record controls) :
    Gives (FormNode.AddsWithin scope.index record) record (scope.editing controls) := by
  unfold Scope.editing
  split
  · exact h
  · exact gives_nil

theorem within_startControl (hstarts : scope.index.StartsRepeating) {singleton : Address}
    {name : PrefixedName} (hsingleton : scope.index.repeatingSingletonOf? address = some singleton)
    (hname : singleton.leafName? = some name) :
    Gives (FormNode.AddsWithin scope.index record) record [startControl (address.child name)] := by
  obtain ⟨node, hnode, hrepeating⟩ := hstarts address singleton name hsingleton hname
  refine gives_guard fun bindings hholds => ?_
  refine FormNode.everywhere_singleton.mpr ⟨?_, FormNode.everywhere_nil⟩
  have hfound : scope.index.nodeOf? ((address.child name).substitute bindings) = some node := by
    simpa [SchemaIndex.nodeOf?] using hnode
  refine SchemaIndex.leavesRoom_of_absent hfound hrepeating ?_
  simpa [Instance.holds, MaxOccurs.admitsMore] using hholds

/-- Of the controls beside headers and fields only the one that starts a repetition adds. -/
theorem within_controlAt (hstarts : scope.index.StartsRepeating) {control : TemplateNode}
    (h : scope.ControlAt address control) :
    Gives (FormNode.AddsWithin scope.index record) record [control] := by
  cases h with
  | delete => exact within_of_idle (by simp [deleteControl, IsAdding, contents])
  | choiceDelete => exact within_of_idle (by simp [choiceDeleteControl, IsAdding, contents])
  | choose test => exact within_of_idle (by simp [chooseControl, IsAdding, contents])
  | remove => exact within_of_idle (by simp [removeControl, IsAdding, contents])
  | start hsingleton hname => exact within_startControl hstarts hsingleton hname

theorem within_editing_of_controlAt (hstarts : scope.index.StartsRepeating)
    {controls : List TemplateNode} (h : ∀ control ∈ controls, scope.ControlAt address control) :
    Gives (FormNode.AddsWithin scope.index record) record (scope.editing controls) :=
  within_editing (gives_of_forall_mem fun control hcontrol =>
    within_controlAt hstarts (h control hcontrol))

theorem within_scalarField (hstarts : scope.index.StartsRepeating) (address : Address)
    (node : SchemaNode) (type : TypeId) (role : FieldRole) :
    Gives (FormNode.AddsWithin scope.index record) record
      [scope.scalarField address node type role] :=
  within_of_contents id (within_editing_of_controlAt hstarts fun _ => controlAt_fieldControls)

theorem within_anyField (hstarts : scope.index.StartsRepeating) (address : Address)
    (node : SchemaNode) (var : Option String) :
    Gives (FormNode.AddsWithin scope.index record) record [scope.anyField address node var] :=
  within_of_contents id (within_editing_of_controlAt hstarts fun _ => controlAt_rowControls)

theorem within_elementGroup (hstarts : scope.index.StartsRepeating) (address : Address)
    (node : SchemaNode) (row : Option Row)
    (hnodes : Gives (FormNode.AddsWithin scope.index record) record nodes) :
    Gives (FormNode.AddsWithin scope.index record) record
      [scope.elementGroup address node row nodes] := by
  have hheader : Gives (FormNode.AddsWithin scope.index record) record
      [scope.header address node (row.map Row.var)] :=
    within_of_contents id (within_editing_of_controlAt hstarts fun _ => controlAt_headerControls)
  unfold Scope.elementGroup
  split
  · exact within_of_contents id (gives_append hheader hnodes)
  · exact within_of_contents id (gives_append hheader (within_of_contents id hnodes))

theorem within_addSibling {node : SchemaNode} (hnode : scope.index.nodeOf? address = some node) :
    Gives (FormNode.AddsWithin scope.index record) record
      [Scope.addSibling address.siblingPath (Scope.occurrenceLimit node)] := by
  refine gives_guard fun bindings hholds => ?_
  refine FormNode.everywhere_singleton.mpr ⟨?_, FormNode.everywhere_nil⟩
  have hfound := scope.index.nodeOf?_substitute_siblingPath address bindings
  exact SchemaIndex.leavesRoom_of_admitsMore (hfound.trans hnode) hholds

theorem within_addFirst (hrepeating : scope.index.isRepeating address = true) :
    Gives (FormNode.AddsWithin scope.index record) record
      [Scope.addFirst address.siblingPath] := by
  obtain ⟨node, hnode, hmany⟩ := (Option.any_eq_true _ _).mp hrepeating
  refine gives_guard fun bindings hholds => ?_
  refine FormNode.everywhere_singleton.mpr ⟨trivial, ?_⟩
  refine FormNode.everywhere_singleton.mpr ⟨?_, FormNode.everywhere_nil⟩
  have hfound := scope.index.nodeOf?_substitute_siblingPath address bindings
  refine SchemaIndex.leavesRoom_of_absent (hfound.trans hnode) hmany ?_
  simpa [Instance.holds] using hholds

theorem within_repeated {node : SchemaNode} (hnode : scope.index.nodeOf? address = some node)
    (hrepeating : scope.index.isRepeating address = true)
    (hnodes : Gives (FormNode.AddsWithin scope.index record) record nodes) :
    Gives (FormNode.AddsWithin scope.index record) record
      (scope.repeated address node nodes) := by
  have hrows : Gives (FormNode.AddsWithin scope.index record) record
      [itemIteration address nodes] := within_of_contents id hnodes
  refine gives_append (within_of_contents id ?_) (within_editing ?_)
  · exact gives_append hrows (within_editing (within_addSibling hnode))
  · split
    · exact gives_nil
    · exact within_addFirst hrepeating

theorem within_memberControl {parent : Address} {head : SchemaNode}
    (hparent : address.parent? = some parent) (hnode : scope.index.nodeOf? address = some head)
    (hhead : head.isSubstitutionHead = true) :
    Gives (FormNode.AddsWithin scope.index record) record
      (Scope.memberControl parent address head) := by
  obtain ⟨-, leaf, hsegments⟩ := Address.segments_of_parent? hparent
  obtain rfl : address = ⟨parent.segments ++ [leaf]⟩ := congrArg Address.mk hsegments
  unfold Scope.memberControl
  split
  · exact gives_nil
  · refine gives_guard fun bindings hholds => ?_
    refine FormNode.everywhere_singleton.mpr ⟨⟨leaf, head, ?_, hhead, rfl, ?_, ?_⟩,
      FormNode.everywhere_nil⟩
    · simpa [SchemaIndex.nodeOf?, Address.schemaAddress, Address.substitute, Function.comp_def]
        using hnode
    · simp [Scope.addLabel, leafText, Label.ofAddress, Address.leafName?, Address.leaf?]
    · intro bound hbound
      simpa [Instance.holds, hbound, MaxOccurs.admitsMore] using hholds

theorem within_guarded (address : Address)
    (hnodes : Gives (FormNode.AddsWithin scope.index record) record nodes) :
    Gives (FormNode.AddsWithin scope.index record) record (scope.guarded address nodes) := by
  unfold Scope.guarded
  split
  · exact hnodes
  · exact within_of_contents id hnodes

end Controls

/-- Whatever is rendered adds within the bounds of the schema, for all records. -/
theorem within_of_renders (hstarts : scope.index.StartsRepeating) (record : Instance) {task : Task}
    (h : Renders scope task nodes) :
    Gives (FormNode.AddsWithin scope.index record) record nodes := by
  induction h with
  | recursive => exact within_of_contents id gives_nil
  | scalar => exact within_scalarField hstarts _ _ _ _
  | anything => exact within_anyField hstarts _ _ _
  | element hnode hexpanded hcontent ih => exact within_elementGroup hstarts _ _ _ ih
  | textOnly hnode hexpanded htext ih => exact ih
  | restricted => exact gives_nil
  | value hnode hcontent ih =>
    exact within_of_contents id (gives_append (within_scalarField hstarts _ _ _ _) ih)
  | extended htext hcontent ihtext ihcontent =>
    exact within_of_contents id (gives_append ihtext ihcontent)
  | nothing => exact gives_nil
  | append hleft hright ihleft ihright => exact gives_append ihleft ihright
  | ownText htext ih => exact ih
  | compositor hcontent ih => exact within_of_contents id ih
  | attributeUse hshown ih => exact ih
  | child hshown ih => exact ih
  | alternative hnode ih => exact within_of_contents id ih
  | choices hbranches ih => exact ih
  | singlePrompt =>
    refine within_editing (within_of_idle ?_)
    simp [Scope.singlePrompt, Scope.prompt, IsAdding, contents]
  | repeatedPrompt =>
    refine within_editing (within_of_idle ?_)
    simp [Scope.repeatedPrompt, Scope.prompt, IsAdding, contents]
  | noBranch => exact gives_nil
  | branch hnode hname hitem ih =>
    exact within_of_contents id (within_of_contents id ih)
  | moreBranches hleft hright ihleft ihright => exact gives_append ihleft ihright
  | single hclassified hhead hrepeating hoccurrence ih => exact ih
  | repeating hnode hrecursive hplain hrepeating hitem ih =>
    exact within_repeated (Scope.node_eq_ok_iff.mp hnode) hrepeating ih
  | head hnode hrecursive hhead hparent hmembers ih =>
    refine gives_append ih (within_editing ?_)
    exact within_memberControl hparent (Scope.node_eq_ok_iff.mp hnode) hhead
  | hidden => exact gives_nil
  | shown hnode ih => exact within_guarded _ ih

end Compile

/-- Every control of a form that adds an occurrence or a member does so within the bounds of the
schema, whatever the record holds. -/
theorem adds_within_limits {set : SchemaSet} {namespaces : InstanceNamespaces}
    {roots : List ExpandedName} {index : SchemaIndex}
    (hbuild : SchemaIndex.build set namespaces roots = .ok index) {mode : Mode} {address : Address}
    {compilation : Compilation} (hcompile : index.compile mode address = .ok compilation)
    {record : Instance} {form : Form} (hbind : compilation.template.bind record = .ok form) :
    ∀ node ∈ form.walk, node.AddsWithin index record := by
  obtain ⟨-, -, hrenders, -⟩ := SchemaIndex.renders_of_compile hcompile
  have hstarts := SchemaIndex.startsRepeating_of_build hbuild
  exact Template.everywhere_of_gives (Compile.within_of_renders hstarts record hrenders) hbind

/-- An order holds lines, of which at most two are allowed, and notes or what stands in for them, of
which there may be one. A parcel holds nothing but pieces. -/
def boundedOrder : SchemaSet :=
  { SchemaSet.declaring [.builtin (schemaName "string"),
      .containing [.particle "line" (.anonymous ⟨0⟩) ⟨0, .count 2⟩,
        .element (.globally ⟨none, "note"⟩ "note" 0) ⟨0, .count 1⟩,
        .particle "parcel" (.anonymous ⟨2⟩) .once],
      .containing [.particle "piece" (.anonymous ⟨3⟩) ⟨1, .count 3⟩],
      .containing [.particle "weight" (.anonymous ⟨0⟩) .once]]
      [.unqualified "order" (.anonymous ⟨1⟩), .unqualified "note" (.anonymous ⟨0⟩),
        ⟨⟨none, "remark"⟩, 0, .anonymous ⟨0⟩, false, some ⟨none, "note"⟩⟩] with
    members := [(⟨none, "note"⟩, [⟨none, "remark"⟩])] }

def boundedOrderIndex : SchemaIndex :=
  (SchemaIndex.build boundedOrder .disabled [⟨none, "order"⟩]).toOption.getD default

def withOneLine : Instance :=
  ⟨.plain "order" "" [.plain "line" "1" [], .plain "parcel" "" []], .disabled⟩

def withTwoLines : Instance :=
  ⟨.plain "order" "" [.plain "line" "1" [], .plain "line" "2" [], .plain "remark" "3" [],
    .plain "parcel" "" []], .disabled⟩

/-- While there is one line and no note, another line, a first note and a first piece are offered;
the second line and the remark leave room for the piece only. -/
theorem adds_within_limits_boundedOrder :
    SchemaIndex.build boundedOrder .disabled [⟨none, "order"⟩] = .ok boundedOrderIndex ∧
      ∃ compilation one two,
        boundedOrderIndex.compile .edit (.root (.unprefixed "order")) = .ok compilation ∧
        compilation.template.bind withOneLine = .ok one ∧
        compilation.template.bind withTwoLines = .ok two ∧
        (∀ node ∈ one.walk, node.AddsWithin boundedOrderIndex withOneLine) ∧
        (∀ node ∈ two.walk, node.AddsWithin boundedOrderIndex withTwoLines) ∧
        [AffordanceKind.addSibling, .addMember, .addChild].map one.affordances = [1, 1, 1] ∧
        [AffordanceKind.addSibling, .addMember, .addChild].map two.affordances = [0, 0, 1] := by
  have hbuild : SchemaIndex.build boundedOrder .disabled [⟨none, "order"⟩] =
      .ok boundedOrderIndex := rfl
  have hcompile : boundedOrderIndex.compile .edit (.root (.unprefixed "order")) = .ok _ := rfl
  refine ⟨hbuild, _, _, _, hcompile, rfl, rfl, ?_, ?_, by decide, by decide⟩
  · exact adds_within_limits hbuild hcompile rfl
  · exact adds_within_limits hbuild hcompile rfl

end SchemaForms
