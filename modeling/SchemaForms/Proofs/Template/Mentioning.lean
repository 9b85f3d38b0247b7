import SchemaForms.Proofs.Compile.Controls
import SchemaForms.Proofs.Compile.Rendering
import SchemaForms.Proofs.Index.Layers

/-!
The addresses that a template mentions. A template is put together from names that are qualified
anew, from parents, from lists of members and from the child that a header starts; none of these is
taken from the index itself. All the same, whatever is shown was looked up in the index before, the
element above an indexed address is indexed too, and so is the child that repeats alone.
-/

namespace SchemaForms

namespace TemplateNode

/-- The addresses that a node asks about, shows or changes. -/
def mentions : TemplateNode → List Address
  | group .. => []
  | header .. => []
  | field address .. => [address]
  | guard _ target _ => [target]
  | iteration siblings _ item _ => [siblings, item]
  | affordance _ target _ _ => [target]
  | choicePrompt target .. => [target]
  | toggle .. => []
  | recursive address => [address]

end TemplateNode

def Template.mentions (template : Template) : List Address :=
  template.root :: template.walk.flatMap TemplateNode.mentions

namespace SchemaIndex

/-- The address in the schema is one of the index. -/
def Knows (index : SchemaIndex) (address : Address) : Prop := (index.nodeOf? address).isSome

variable {index : SchemaIndex}

theorem knows_congr {left right : Address} (h : left.schemaAddress = right.schemaAddress) :
    index.Knows left ↔ index.Knows right := by
  simp only [Knows, nodeOf?, h]

@[simp] theorem knows_siblingPath (address : Address) :
    index.Knows address.siblingPath ↔ index.Knows address :=
  knows_congr (Address.schemaAddress_siblingPath address)

@[simp] theorem knows_itemAddress (address : Address) :
    index.Knows (Compile.itemAddress address) ↔ index.Knows address :=
  knows_congr (by simp [Compile.itemAddress])

/-- From what an index knows it knows what is above, and what the header there starts. -/
structure Connected (index : SchemaIndex) : Prop where
  parent : ∀ address parent, index.Knows address → address.parent? = some parent →
    index.Knows parent
  started : ∀ here singleton name, index.repeatingSingletonOf? here = some singleton →
    singleton.leafName? = some name → index.Knows (here.child name)

theorem connected_of_build {set : SchemaSet} {namespaces : InstanceNamespaces}
    {roots : List ExpandedName} (hbuild : build set namespaces roots = .ok index) :
    index.Connected := by
  obtain ⟨-, -, visits, hrecords, hlists⟩ := exists_records hbuild
  constructor
  · intro address parent hknown hparent
    obtain ⟨node, hnode, -⟩ :=
      hlists.exists_parent hknown (Address.schemaAddress_of_parent? hparent)
    simp [Knows, nodeOf?, hnode]
  · intro here singleton name hsingleton hname
    obtain ⟨node, hnode, honly⟩ := Option.bind_eq_some_iff.mp hsingleton
    have haddress : node.address = here.schemaAddress := by simpa using List.find?_some hnode
    obtain ⟨hmem, other, rfl⟩ :=
      (hrecords.filled node (List.mem_of_find?_eq_some hnode)).singleton singleton honly
    obtain rfl : other = name := by simpa [Address.leafName?, Segment.name] using hname
    have hsome := (hlists.isSome_node?_iff _).mpr hmem
    rw [haddress] at hsome
    simpa [Knows, nodeOf?] using hsome

end SchemaIndex

namespace Compile

open TemplateNode

/-- Whatever a node mentions is known. -/
def MentionsKnown (index : SchemaIndex) (node : TemplateNode) : Prop :=
  ∀ address ∈ node.mentions, index.Knows address

variable {scope : Scope} {index : SchemaIndex} {address : Address}

section Controls

theorem known_group {kind : GroupKind} {nodes : List TemplateNode} :
    Throughout (MentionsKnown index) [.group kind nodes] ↔
      Throughout (MentionsKnown index) nodes := by
  simp [MentionsKnown, mentions, contents]

theorem known_guard {test : GuardTest} {nodes : List TemplateNode} (h : index.Knows address) :
    Throughout (MentionsKnown index) [.guard test address nodes] ↔
      Throughout (MentionsKnown index) nodes := by
  simp [MentionsKnown, mentions, contents, h]

theorem known_itemIteration {nodes : List TemplateNode} (h : index.Knows address) :
    Throughout (MentionsKnown index) [itemIteration address nodes] ↔
      Throughout (MentionsKnown index) nodes := by
  simp [itemIteration, MentionsKnown, mentions, contents, h]

/-- The child that a header starts is known, since the index lists it. -/
theorem known_controlAt (hconnected : scope.index.Connected) (h : scope.index.Knows address)
    (control : TemplateNode) (hcontrol : scope.ControlAt address control) :
    Throughout (MentionsKnown scope.index) [control] := by
  cases hcontrol with
  | delete => simpa [deleteControl, MentionsKnown, mentions, contents] using h
  | choiceDelete => simpa [choiceDeleteControl, MentionsKnown, mentions, contents] using h
  | choose test => simpa [chooseControl, MentionsKnown, mentions, contents] using h
  | remove => simpa [removeControl, MentionsKnown, mentions, contents] using h
  | start hsingleton hname =>
    have hstarted := hconnected.started _ _ _ hsingleton hname
    simpa [startControl, MentionsKnown, mentions, contents] using hstarted

theorem known_scalarField (hconnected : scope.index.Connected) (h : scope.index.Knows address)
    (node : SchemaNode) (type : TypeId) (role : FieldRole) :
    Throughout (MentionsKnown scope.index) [scope.scalarField address node type role] := by
  refine throughout_scalarField (known_controlAt hconnected h) ?_
  simpa [Scope.scalarField, MentionsKnown, mentions] using h

theorem known_anyField (hconnected : scope.index.Connected) (h : scope.index.Knows address)
    (node : SchemaNode) (var : Option String) :
    Throughout (MentionsKnown scope.index) [scope.anyField address node var] := by
  refine throughout_anyField (known_controlAt hconnected h) ?_
  simpa [Scope.anyField, MentionsKnown, mentions] using h

theorem known_elementGroup (hconnected : scope.index.Connected) (h : scope.index.Knows address)
    (node : SchemaNode) (row : Option Row) {nodes : List TemplateNode}
    (hnodes : Throughout (MentionsKnown scope.index) nodes) :
    Throughout (MentionsKnown scope.index) [scope.elementGroup address node row nodes] := by
  refine throughout_elementGroup (known_controlAt hconnected h) ?_ ?_ hnodes
  · simp [Scope.header, MentionsKnown, mentions]
  · simp [MentionsKnown, mentions]

theorem known_repeated (h : scope.index.Knows address) (node : SchemaNode)
    {rows : List TemplateNode} (hrows : Throughout (MentionsKnown scope.index) rows) :
    Throughout (MentionsKnown scope.index) (scope.repeated address node rows) := by
  refine throughout_repeated ?_ ?_ hrows ?_ ?_
  · simpa [MentionsKnown, mentions] using h
  · simpa [itemIteration, MentionsKnown, mentions] using h
  · simpa [Scope.addSibling, MentionsKnown, mentions, contents] using h
  · simpa [Scope.addFirst, MentionsKnown, mentions, contents] using h

theorem known_memberControl {parent : Address} (h : index.Knows parent) (node : SchemaNode) :
    Throughout (MentionsKnown index) (Scope.memberControl parent address node) := by
  refine throughout_memberControl ?_
  simpa [Scope.addMember, MentionsKnown, mentions, contents] using h

theorem known_singlePrompt (h : scope.index.Knows address) (occurs : Occurs)
    (members : List PrefixedName) :
    Throughout (MentionsKnown scope.index)
      (scope.editing [Scope.singlePrompt address occurs members]) :=
  throughout_editing (by simpa [Scope.singlePrompt, Scope.prompt, MentionsKnown, mentions, contents]
    using h)

theorem known_repeatedPrompt (h : scope.index.Knows address) (occurs : Occurs)
    (members : List PrefixedName) :
    Throughout (MentionsKnown scope.index)
      (scope.editing [Scope.repeatedPrompt address occurs members]) :=
  throughout_editing (by
    simpa [Scope.repeatedPrompt, Scope.prompt, MentionsKnown, mentions, contents] using h)

theorem known_guarded (hconnected : scope.index.Connected) (h : scope.index.Knows address)
    {nodes : List TemplateNode} (hnodes : Throughout (MentionsKnown scope.index) nodes) :
    Throughout (MentionsKnown scope.index) (scope.guarded address nodes) := by
  refine throughout_guarded (fun target htarget => ?_) hnodes
  have hknown : scope.index.Knows target := by
    rcases htarget with hparent | rfl
    · exact hconnected.parent _ _ h hparent
    · exact h
  simpa [MentionsKnown, mentions] using hknown

end Controls

theorem knows_of_node {node : SchemaNode} (h : scope.node address = .ok node) :
    scope.index.Knows address := by
  simp [SchemaIndex.Knows, Scope.node_eq_ok_iff.mp h]

/-- What is known of a place before nodes are made for it. Whether an address that is to be shown is
known is only found out there. -/
def Task.Known (index : SchemaIndex) : Task → Prop
  | .text address _ => index.Knows address
  | .content here => index.Knows here
  | _ => True

theorem knows_of_renders {nodes : List TemplateNode} (h : Renders scope (.node address) nodes) :
    scope.index.Knows address := by
  cases h with
  | single hclassified _ _ _ =>
    obtain ⟨node, hnode, -⟩ := Scope.classify_eq_ok hclassified
    exact knows_of_node hnode
  | repeating hnode _ _ _ _ => exact knows_of_node hnode
  | head hnode _ _ _ _ => exact knows_of_node hnode

theorem mentionsKnown_of_renders (hconnected : scope.index.Connected) {task : Task}
    {nodes : List TemplateNode} (h : Renders scope task nodes) (hknown : task.Known scope.index) :
    Throughout (MentionsKnown scope.index) nodes := by
  induction h with
  | recursive hnode _ => simpa [MentionsKnown, mentions, contents] using knows_of_node hnode
  | scalar hnode _ => exact known_scalarField hconnected (knows_of_node hnode) _ _ _
  | anything hnode _ => exact known_anyField hconnected (knows_of_node hnode) _ _
  | element hnode _ _ hcontent =>
    have hhere := knows_of_node hnode
    exact known_elementGroup hconnected hhere _ _ (hcontent hhere)
  | textOnly hnode _ _ htext => exact htext (knows_of_node hnode)
  | restricted => exact throughout_nil
  | value _ _ hcontent =>
    refine known_group.mpr (throughout_append.mpr ⟨?_, hcontent hknown⟩)
    exact known_scalarField hconnected hknown _ _ _
  | extended _ _ htext hcontent =>
    exact known_group.mpr (throughout_append.mpr ⟨htext hknown, hcontent hknown⟩)
  | nothing => exact throughout_nil
  | append _ _ hleft hright => exact throughout_append.mpr ⟨hleft hknown, hright hknown⟩
  | ownText _ htext => exact htext hknown
  | compositor _ hcontent => exact known_group.mpr (hcontent hknown)
  | attributeUse _ hshown => exact hshown trivial
  | child _ hshown => exact hshown trivial
  | alternative hnode halternative =>
    exact (known_guard (knows_of_renders hnode)).mpr (halternative trivial)
  | choices _ hbranches => exact hbranches trivial
  | singlePrompt _ => exact known_singlePrompt hknown _ _
  | repeatedPrompt _ => exact known_repeatedPrompt hknown _ _
  | noBranch => exact throughout_nil
  | branch hnode _ _ hitem =>
    have hhere := knows_of_node hnode
    exact (known_guard hhere).mpr ((known_itemIteration hhere).mpr (hitem trivial))
  | moreBranches _ _ hleft hright => exact throughout_append.mpr ⟨hleft trivial, hright trivial⟩
  | single _ _ _ _ hoccurrence => exact hoccurrence trivial
  | repeating hnode _ _ _ _ hitem => exact known_repeated (knows_of_node hnode) _ (hitem trivial)
  | head hnode _ _ hparent _ hmembers =>
    have habove := hconnected.parent _ _ (knows_of_node hnode) hparent
    exact throughout_append.mpr
      ⟨hmembers trivial, throughout_editing (known_memberControl habove _)⟩
  | hidden => exact throughout_nil
  | shown hnode hnodes =>
    exact known_guarded hconnected (knows_of_renders hnode) (hnodes trivial)

end Compile

/-- Whatever a template mentions is indexed. -/
theorem mentioned_indexed {set : SchemaSet} {namespaces : InstanceNamespaces}
    {roots : List ExpandedName} {index : SchemaIndex}
    (hbuild : SchemaIndex.build set namespaces roots = .ok index) {mode : Mode}
    {address : Address} {compilation : Compilation}
    (hcompile : index.compile mode address = .ok compilation) :
    ∀ mentioned ∈ compilation.template.mentions,
      (index.node? mentioned.schemaAddress).isSome := by
  obtain ⟨hroot, heq, hrenders, -⟩ := SchemaIndex.renders_of_compile hcompile
  have hconnected := SchemaIndex.connected_of_build hbuild
  have hknown := Compile.mentionsKnown_of_renders hconnected hrenders trivial
  intro mentioned hmentioned
  rcases List.mem_cons.mp hmentioned with rfl | hbelow
  · exact heq ▸ hroot
  · obtain ⟨node, hnode, hmentions⟩ := List.mem_flatMap.mp hbelow
    exact hknown node hnode mentioned hmentions

/-- A report is put together from texts and from reports. -/
def openReport : SchemaSet :=
  .declaring [.builtin (schemaName "string"),
    .containing [.compositor .choice ⟨1, .unbounded⟩
      [.particle "text" (.anonymous ⟨0⟩) .once, .particle "part" (.anonymous ⟨1⟩) .once]]]
    [.unqualified "report" (.anonymous ⟨1⟩)]

def openReportIndex : SchemaIndex :=
  (SchemaIndex.build openReport .disabled [⟨none, "report"⟩]).toOption.getD default

/-- Among the addresses are those of the parts, which are shown one by one. -/
theorem mentioned_indexed_openReport :
    SchemaIndex.build openReport .disabled [⟨none, "report"⟩] = .ok openReportIndex ∧
      ∃ compilation,
        openReportIndex.compile .edit (.root (.unprefixed "report")) = .ok compilation ∧
          (∀ mentioned ∈ compilation.template.mentions,
            (openReportIndex.node? mentioned.schemaAddress).isSome) ∧
          Compile.itemAddress ((Address.root (.unprefixed "report")).child (.unprefixed "part")) ∈
            compilation.template.mentions := by
  have hbuild : SchemaIndex.build openReport .disabled [⟨none, "report"⟩] = .ok openReportIndex :=
    rfl
  have hcompile : openReportIndex.compile .edit (.root (.unprefixed "report")) = .ok _ :=
    SchemaIndex.compile_of_ended (by decide) (by decide)
  exact ⟨hbuild, _, hcompile, mentioned_indexed hbuild hcompile, by decide⟩

end SchemaForms
