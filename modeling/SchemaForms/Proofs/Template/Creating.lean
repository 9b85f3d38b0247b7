import SchemaForms.Proofs.Compile.Controls
import SchemaForms.Proofs.Compile.Rendering
import SchemaForms.Proofs.Index.Listing

/-!
What the controls of a form create. An abstract element is created neither as the first occurrence
of an element nor beside others, since a head never repeats. The lists of members are not filtered,
though: an abstract member is offered wherever its head lists it, and so is a head that a header
starts as the only child that repeats. Whatever is shown as a row of a list may also be chosen
there. These are the only ways.
-/

namespace SchemaForms

namespace TemplateNode

/-- The places of the elements that a control offers to create. -/
def creates : TemplateNode → List Address
  | affordance kind target _ candidates =>
    match kind with
    | .addFirst | .addSibling | .addChild | .choose => [target]
    | .addMember => candidates.map target.child
    | _ => []
  | choicePrompt target _ candidates => candidates.map target.child
  | _ => []

/-- The places where a control adds an occurrence. -/
def adds : TemplateNode → List Address
  | affordance .addFirst target _ _ => [target]
  | affordance .addSibling target _ _ => [target]
  | _ => []

end TemplateNode

namespace SchemaIndex

def isAbstract (index : SchemaIndex) (place : Address) : Bool :=
  (index.nodeOf? place).any SchemaNode.isAbstract

/-- A head beside the place lists its name. -/
inductive ListsBeside (index : SchemaIndex) (place : Address) : Prop
  | intro {here : Address} {leaf : Segment} {head : SchemaNode} {name : PrefixedName}
      (hnode : index.nodeOf? ⟨here.segments ++ [leaf]⟩ = some head)
      (hhead : head.isSubstitutionHead = true) (hlisted : name ∈ head.members)
      (hplace : place.schemaAddress = (here.child name).schemaAddress) : ListsBeside index place

/-- The element above the place starts its repetition there. -/
inductive StartsAt (index : SchemaIndex) (place : Address) : Prop
  | intro {here singleton : Address} {name : PrefixedName}
      (hsingleton : index.repeatingSingletonOf? here = some singleton)
      (hname : singleton.leafName? = some name)
      (hplace : place.schemaAddress = (here.child name).schemaAddress) : StartsAt index place

/-- The place is called as if any element could stand there. -/
def IsCalledAny (index : SchemaIndex) (place : Address) : Prop :=
  ∃ here : Address, place.schemaAddress = (here.child index.wildcardName).schemaAddress

end SchemaIndex

/-- Abstract elements are created only where a list or a header exposes them: where the first
occurrence or one more is added, never. -/
structure TemplateNode.CreatesExposed (index : SchemaIndex) (node : TemplateNode) : Prop where
  exposed : ∀ place ∈ node.creates, index.isAbstract place = true →
    index.ListsBeside place ∨ index.StartsAt place ∨ index.IsCalledAny place
  repeated : ∀ place ∈ node.adds, index.isAbstract place = false

namespace Compile

open TemplateNode

/-- An abstract element may stand at the place when a list beside it names it. -/
def Permitted (index : SchemaIndex) (place : Address) : Prop :=
  index.isAbstract place = true → index.ListsBeside place ∨ index.IsCalledAny place

variable {scope : Scope}

theorem isAbstract_congr {index : SchemaIndex} {left right : Address}
    (h : left.schemaAddress = right.schemaAddress) :
    index.isAbstract left = index.isAbstract right := by
  simp only [SchemaIndex.isAbstract, SchemaIndex.nodeOf?, h]

theorem permitted_of_not_isAbstract {index : SchemaIndex} {place : Address}
    (h : index.isAbstract place = false) : Permitted index place := by
  intro habstract
  simp [h] at habstract

theorem permitted_congr {index : SchemaIndex} {left right : Address}
    (h : left.schemaAddress = right.schemaAddress) (hright : Permitted index right) :
    Permitted index left := by
  intro habstract
  rw [isAbstract_congr h] at habstract
  rcases hright habstract with ⟨hnode, hhead, hlisted, hplace⟩ | ⟨here, hplace⟩
  · exact Or.inl ⟨hnode, hhead, hlisted, h.trans hplace⟩
  · exact Or.inr ⟨here, h.trans hplace⟩

/-- Only elements are abstract, so what is no head is not. -/
def ElementsAbstract (index : SchemaIndex) : Prop :=
  ∀ address node, index.nodeOf? address = some node → node.isAbstract = true →
    node.isElement = true

theorem isAbstract_of_plain (helements : ElementsAbstract scope.index) {address : Address}
    (hplain : ∀ node, scope.index.nodeOf? address = some node →
      node.isSubstitutionHead = false) : scope.index.isAbstract address = false := by
  cases hnode : scope.index.nodeOf? address with
  | none => simp [SchemaIndex.isAbstract, hnode]
  | some node =>
    have hhead := hplain node hnode
    by_contra habstract
    simp only [SchemaIndex.isAbstract, hnode, Option.any_some, Bool.not_eq_false] at habstract
    simp [SchemaNode.isSubstitutionHead, habstract, helements address node hnode habstract] at hhead

theorem permitted_of_candidate (helements : ElementsAbstract scope.index) {here : Address}
    {name : PrefixedName} (h : scope.Candidate here name) :
    Permitted scope.index (here.child name) := by
  intro habstract
  cases h with
  | @listed address leaf head hbeside hnode hhead hlisted =>
    obtain rfl : address = ⟨here.segments ++ [leaf]⟩ := by
      cases address
      exact congrArg Address.mk hbeside
    exact Or.inl ⟨hnode, hhead, hlisted, rfl⟩
  | itself hplain => simp [isAbstract_of_plain helements hplain] at habstract
  | wildcard hname => exact Or.inr ⟨here, by rw [hname]⟩

section Controls

variable {index : SchemaIndex} {address : Address}

theorem createsExposed_of_nil {node : TemplateNode} (h : node.creates = []) :
    node.CreatesExposed index := by
  refine ⟨by simp [h], fun place hplace => ?_⟩
  unfold adds at hplace
  split at hplace
  · simp [creates] at h
  · simp [creates] at h
  · contradiction

/-- A node that creates nothing itself leaves it to what it contains. -/
theorem throughout_idle {node : TemplateNode} (h : node.creates = [])
    (hcontents : Throughout (CreatesExposed index) node.contents) :
    Throughout (CreatesExposed index) [node] :=
  throughout_cons.mpr ⟨createsExposed_of_nil h, hcontents, throughout_nil⟩

theorem throughout_control {node : TemplateNode} (h : node.CreatesExposed index)
    (hcontents : node.contents = []) : Throughout (CreatesExposed index) [node] := by
  refine throughout_cons.mpr ⟨h, ?_, throughout_nil⟩
  rw [hcontents]
  exact throughout_nil

theorem createsExposed_chooseControl (h : Permitted index address) :
    (chooseControl address).CreatesExposed index := by
  refine ⟨fun place hplace habstract => ?_, by simp [chooseControl, adds]⟩
  obtain rfl : place = address := by simpa [chooseControl, creates] using hplace
  rcases h habstract with hlisted | hany
  · exact Or.inl hlisted
  · exact Or.inr (Or.inr hany)

/-- A list of names exposes what it names. -/
theorem createsExposed_names {node : TemplateNode} {here : Address} {names : List PrefixedName}
    (hcreates : node.creates = names.map here.child) (hadds : node.adds = [])
    (h : ∀ name ∈ names, Permitted index (here.child name)) : node.CreatesExposed index := by
  refine ⟨fun place hplace habstract => ?_, by simp [hadds]⟩
  rw [hcreates] at hplace
  obtain ⟨name, hname, rfl⟩ := List.mem_map.mp hplace
  rcases h name hname habstract with hlisted | hany
  · exact Or.inl hlisted
  · exact Or.inr (Or.inr hany)

/-- A header starts the repetition of the only child that repeats, whether that is abstract or
not. -/
theorem exposed_controlAt (h : Permitted scope.index address) (control : TemplateNode)
    (hcontrol : scope.ControlAt address control) :
    Throughout (CreatesExposed scope.index) [control] := by
  cases hcontrol with
  | delete => exact throughout_idle rfl throughout_nil
  | choiceDelete => exact throughout_idle rfl throughout_nil
  | choose test =>
    refine throughout_idle rfl ?_
    exact throughout_control (createsExposed_chooseControl h) rfl
  | remove =>
    refine throughout_idle rfl ?_
    exact throughout_idle rfl throughout_nil
  | @start singleton name hsingleton hname =>
    refine throughout_idle rfl ?_
    refine throughout_control ⟨fun place hplace _ => ?_, by simp [adds]⟩ rfl
    obtain rfl : place = address.child name := by simpa [creates] using hplace
    exact Or.inr (Or.inl ⟨hsingleton, hname, rfl⟩)

theorem exposed_scalarField (h : Permitted scope.index address) (node : SchemaNode)
    (type : TypeId) (role : FieldRole) :
    Throughout (CreatesExposed scope.index) [scope.scalarField address node type role] :=
  throughout_scalarField (exposed_controlAt h) (createsExposed_of_nil rfl)

theorem exposed_anyField (h : Permitted scope.index address) (node : SchemaNode)
    (var : Option String) :
    Throughout (CreatesExposed scope.index) [scope.anyField address node var] :=
  throughout_anyField (exposed_controlAt h) (createsExposed_of_nil rfl)

theorem exposed_elementGroup (h : Permitted scope.index address) (node : SchemaNode)
    (row : Option Row) {nodes : List TemplateNode}
    (hnodes : Throughout (CreatesExposed scope.index) nodes) :
    Throughout (CreatesExposed scope.index) [scope.elementGroup address node row nodes] :=
  throughout_elementGroup (exposed_controlAt h) (createsExposed_of_nil rfl)
    (fun _ _ => createsExposed_of_nil rfl) hnodes

theorem exposed_prompt (occurs : Occurs) {members : List PrefixedName}
    (h : ∀ name ∈ members, Permitted index (address.child name)) :
    Throughout (CreatesExposed index) [Scope.prompt address occurs members] :=
  throughout_control (createsExposed_names rfl rfl h) rfl

theorem exposed_singlePrompt (occurs : Occurs) {members : List PrefixedName}
    (h : ∀ name ∈ members, Permitted index (address.child name)) :
    Throughout (CreatesExposed index) [Scope.singlePrompt address occurs members] := by
  refine throughout_idle rfl ?_
  exact throughout_idle rfl (exposed_prompt occurs h)

theorem exposed_repeatedPrompt (occurs : Occurs) {members : List PrefixedName}
    (h : ∀ name ∈ members, Permitted index (address.child name)) :
    Throughout (CreatesExposed index) [Scope.repeatedPrompt address occurs members] := by
  have hprompt := exposed_prompt occurs h
  refine throughout_idle rfl ?_
  refine throughout_cons.mpr ⟨createsExposed_of_nil rfl, hprompt, ?_⟩
  refine throughout_idle rfl ?_
  refine throughout_idle rfl ?_
  exact throughout_idle rfl hprompt

/-- Occurrences are added where nothing abstract stands. -/
theorem createsExposed_of_adds {node : TemplateNode} (hcreates : node.creates = [address])
    (hadds : node.adds = [address]) (h : index.isAbstract address = false) :
    node.CreatesExposed index := by
  refine ⟨fun place hplace habstract => ?_, fun place hplace => ?_⟩
  · rw [hcreates, List.mem_singleton] at hplace
    simp [hplace, h] at habstract
  · rw [hadds, List.mem_singleton] at hplace
    exact hplace ▸ h

theorem exposed_repeated (h : scope.index.isAbstract address = false) (node : SchemaNode)
    {rows : List TemplateNode} (hrows : Throughout (CreatesExposed scope.index) rows) :
    Throughout (CreatesExposed scope.index) (scope.repeated address node rows) := by
  have hsiblings : scope.index.isAbstract address.siblingPath = false := by
    rw [isAbstract_congr (Address.schemaAddress_siblingPath address)]
    exact h
  refine throughout_repeated (fun _ => createsExposed_of_nil rfl) (createsExposed_of_nil rfl) hrows
    ?_ ?_
  · refine throughout_idle rfl ?_
    exact throughout_control (createsExposed_of_adds rfl rfl hsiblings) rfl
  · refine throughout_idle rfl ?_
    refine throughout_idle rfl ?_
    exact throughout_control (createsExposed_of_adds rfl rfl hsiblings) rfl

theorem exposed_memberControl (parent : Address) {node : SchemaNode}
    (h : ∀ name ∈ node.members, Permitted index (parent.child name)) :
    Throughout (CreatesExposed index) (Scope.memberControl parent address node) := by
  refine throughout_memberControl (throughout_idle rfl ?_)
  exact throughout_control (createsExposed_names rfl rfl h) rfl

end Controls

/-- What is known of an element before it is shown: it is not abstract, or a list names it. -/
def Task.Permitted (index : SchemaIndex) : Task → Prop
  | .occurrence address _ => ∀ node, index.nodeOf? address = some node →
      node.isRecursive = false → Compile.Permitted index address
  | .text address _ => Compile.Permitted index address
  | .content here => Compile.Permitted index here
  | _ => True

theorem createsExposed_of_renders (helements : ElementsAbstract scope.index) {task : Task}
    {nodes : List TemplateNode} (h : Renders scope task nodes)
    (hpermitted : task.Permitted scope.index) :
    Throughout (CreatesExposed scope.index) nodes := by
  have hplace : ∀ {address : Address} {row : Option Row} {node : SchemaNode},
      scope.node address = .ok node → node.isRecursive = false →
        (Task.occurrence address row).Permitted scope.index → Permitted scope.index address :=
    fun hnode hexpanded hall => hall _ (Scope.node_eq_ok_iff.mp hnode) hexpanded
  induction h with
  | recursive hnode hrecursive =>
    exact throughout_idle rfl throughout_nil
  | scalar hnode hexpanded => exact exposed_scalarField (hplace hnode hexpanded hpermitted) _ _ _
  | anything hnode hexpanded => exact exposed_anyField (hplace hnode hexpanded hpermitted) _ _
  | element hnode hexpanded hcontent ih =>
    have hown := hplace hnode hexpanded hpermitted
    exact exposed_elementGroup hown _ _ (ih hown)
  | textOnly hnode hexpanded htext ih => exact ih (hplace hnode hexpanded hpermitted)
  | restricted => exact throughout_nil
  | value hnode hcontent ih =>
    refine throughout_idle rfl ?_
    exact throughout_append.mpr ⟨exposed_scalarField hpermitted _ _ _, ih hpermitted⟩
  | extended htext hcontent ihtext ihcontent =>
    refine throughout_idle rfl ?_
    exact throughout_append.mpr ⟨ihtext hpermitted, ihcontent hpermitted⟩
  | nothing => exact throughout_nil
  | append hleft hright ihleft ihright =>
    exact throughout_append.mpr ⟨ihleft hpermitted, ihright hpermitted⟩
  | ownText htext ih => exact ih hpermitted
  | compositor hcontent ih =>
    exact throughout_idle rfl (ih hpermitted)
  | attributeUse hshown ih => exact ih trivial
  | child hshown ih => exact ih trivial
  | alternative hnode ih =>
    exact throughout_idle rfl (ih trivial)
  | choices hbranches ih => exact ih trivial
  | singlePrompt hnames =>
    exact throughout_editing (exposed_singlePrompt _ fun name hname =>
      permitted_of_candidate helements (hnames name hname))
  | repeatedPrompt hnames =>
    exact throughout_editing (exposed_repeatedPrompt _ fun name hname =>
      permitted_of_candidate helements (hnames name hname))
  | noBranch => exact throughout_nil
  | branch hnode hname hitem ih =>
    refine throughout_idle rfl ?_
    refine throughout_idle rfl (ih ?_)
    exact fun _ _ _ => permitted_congr (Scope.schemaAddress_itemAddress _)
      (permitted_of_candidate helements hname)
  | moreBranches hleft hright ihleft ihright =>
    exact throughout_append.mpr ⟨ihleft trivial, ihright trivial⟩
  | single hclassified hhead hrepeating hoccurrence ih =>
    refine ih fun node hnode hexpanded => permitted_of_not_isAbstract ?_
    obtain ⟨found, hfound, rfl⟩ := Scope.classify_eq_ok hclassified
    refine isAbstract_of_plain helements fun other hother => ?_
    obtain rfl := Option.some.inj (hnode.symm.trans hother)
    obtain rfl := Option.some.inj (hnode.symm.trans (Scope.node_eq_ok_iff.mp hfound))
    simpa [hexpanded] using hhead
  | @repeating address node rows hnode hrecursive hplain hrepeating hitem ih =>
    have hown : scope.index.isAbstract address = false := by
      refine isAbstract_of_plain helements fun other hother => ?_
      obtain rfl := Option.some.inj ((Scope.node_eq_ok_iff.mp hnode).symm.trans hother)
      exact hplain
    refine exposed_repeated hown node (ih fun _ _ _ => ?_)
    exact permitted_congr (Scope.schemaAddress_itemAddress _) (permitted_of_not_isAbstract hown)
  | @head address parent node members hnode hrecursive hhead hparent hmembers ih =>
    obtain ⟨-, leaf, hbeside⟩ := Address.segments_of_parent? hparent
    refine throughout_append.mpr ⟨ih trivial, throughout_editing ?_⟩
    refine exposed_memberControl parent fun name hname => ?_
    exact permitted_of_candidate helements
      (.listed hbeside (Scope.node_eq_ok_iff.mp hnode) hhead hname)
  | hidden => exact throughout_nil
  | shown hnode ih =>
    exact throughout_guarded (fun _ _ => createsExposed_of_nil rfl) (ih trivial)

/-- A head that is shown ends with the control that offers its members. -/
theorem Scope.value_renderNode_head {render : Renderer} {address parent : Address}
    {head : SchemaNode} (hnode : scope.node address = .ok head)
    (hexpanded : head.isRecursive = false) (hhead : head.isSubstitutionHead = true)
    (hparent : address.parent? = some parent) : ∃ members,
      (scope.renderNode render address).run.value =
        .ok (members ++ scope.editing (Scope.memberControl parent address head)) := by
  have hclassified : scope.classify address = .ok
      ⟨.ofNode scope.types head head.type, true, scope.index.isRepeating address⟩ := by
    simp [Scope.classify, hnode, hexpanded, hhead, Bind.bind, Except.bind, Pure.pure, Except.pure]
  refine ⟨(Logged.collect (fun name => Attempt.orSkip address
    (branch scope render (parent.child name) true)) head.members).value, ?_⟩
  have hsubstitution : (scope.substitution render address head).run.value =
      .ok ((Logged.collect (fun name => Attempt.orSkip address
        (branch scope render (parent.child name) true)) head.members).value ++
          scope.editing (Scope.memberControl parent address head)) := by
    unfold Scope.substitution
    rw [hparent]
    rfl
  unfold Scope.renderNode
  rw [hnode, hclassified]
  exact hsubstitution

end Compile

namespace SchemaIndex

variable {index : SchemaIndex}

theorem Lists.elementsAbstract {roots : List ExpandedName} {visits : List Index.Visit}
    (h : index.Lists roots visits) : Compile.ElementsAbstract index := by
  have hvisits : ∀ visit ∈ visits, visit.node.isAbstract = true → visit.node.isElement = true := by
    refine h.history.forall_mem fun earlier visit _ hfollows habstract => ?_
    cases hfollows with
    | root => rfl
    | element => rfl
    | attributeUse => exact absurd habstract (by simp [Index.attributeNode])
    | wildcard => exact absurd habstract (by simp [Index.wildcardNode])
    | standIn => rfl
  intro address node hnode habstract
  obtain ⟨visit, hvisit, hbare⟩ := h.exists_visit (List.mem_of_find?_eq_some hnode)
  have helement := hvisits visit hvisit
  rw [hbare] at helement
  exact helement habstract

/-- The template for a head offers each of its members, abstract or not. -/
theorem creates_members {address parent : Address} {head : SchemaNode}
    (hnode : index.nodeOf? address = some head) (hexpanded : head.isRecursive = false)
    (hhead : head.isSubstitutionHead = true) (hparent : address.parent? = some parent)
    {name : PrefixedName} (hlisted : name ∈ head.members) {compilation : Compilation}
    (hcompile : index.compile .edit address = .ok compilation) :
    ∃ node ∈ compilation.template.walk, parent.child name ∈ node.creates := by
  obtain ⟨-, -, rfl⟩ := compile_eq_ok_iff.mp hcompile
  let scope : Compile.Scope := ⟨index, .edit, address⟩
  let control := TemplateNode.affordance .addMember parent (Compile.Scope.addLabel address)
    head.members
  obtain ⟨members, hvalue⟩ : ∃ members,
      (scope.renderNode (scope.render index.height) address).run.value =
        .ok (members ++ scope.editing (Compile.Scope.memberControl parent address head)) :=
    Compile.Scope.value_renderNode_head (Compile.Scope.node_eq_ok_iff.mpr hnode) hexpanded hhead
      hparent
  have hcontrol : scope.editing (Compile.Scope.memberControl parent address head) =
      [.guard (.membersBelow head.members head.occurs.max) parent [control]] := by
    have hne : head.members.isEmpty = false := by
      cases hmembers : head.members with
      | nil => simp [hmembers] at hlisted
      | cons first others => rfl
    simp [Compile.Scope.editing, Compile.Scope.isEdit, Compile.Scope.memberControl,
      Compile.Scope.addMember, hne, scope, control]
  have hnodes : (index.rendered .edit address).value = scope.guarded address (members ++
      [.guard (.membersBelow head.members head.occurs.max) parent [control]]) := by
    simp [rendered, Compile.Scope.renderGuarded, Attempt.value_orSkip, hvalue, hcontrol, scope]
  refine ⟨control, ?_, List.mem_map.mpr ⟨name, hlisted, rfl⟩⟩
  rw [Template.walk, hnodes, Compile.Scope.guarded, hparent]
  simp [TemplateNode.walkAll, TemplateNode.walk, TemplateNode.walkAll_append, control]

end SchemaIndex

/-- A form for editing creates an abstract element only where a head beside it lists its name, where
the header above it starts its repetition, or where it is called like any element; and never as the
first or the next occurrence of an element. The first of these does happen: every head that is shown
offers all that it lists. -/
theorem abstract_created_where_exposed {set : SchemaSet} {namespaces : InstanceNamespaces}
    {roots : List ExpandedName} {index : SchemaIndex}
    (hbuild : SchemaIndex.build set namespaces roots = .ok index) :
    (∀ address compilation, index.compile .edit address = .ok compilation →
      ∀ node ∈ compilation.template.walk, node.CreatesExposed index) ∧
      ∀ address head parent, index.nodeOf? address = some head → head.isRecursive = false →
        head.isSubstitutionHead = true → address.parent? = some parent → ∀ name ∈ head.members,
          ∀ compilation, index.compile .edit address = .ok compilation →
            ∃ node ∈ compilation.template.walk, parent.child name ∈ node.creates := by
  obtain ⟨-, -, visits, hlists⟩ := SchemaIndex.exists_lists hbuild
  constructor
  · intro address compilation hcompile
    obtain ⟨-, -, hrenders, -⟩ := SchemaIndex.renders_of_compile hcompile
    exact Compile.createsExposed_of_renders hlists.elementsAbstract hrenders trivial
  · intro address head parent hnode hexpanded hhead hparent name hlisted compilation hcompile
    exact SchemaIndex.creates_members hnode hexpanded hhead hparent hlisted hcompile

/-- An abstract element may stand in for a plain one, and another one is all that an element holds,
any number of times. -/
def abstractInside : SchemaSet :=
  { SchemaSet.declaring [.builtin (schemaName "string"),
      .containing [.compositor .sequence .once
        [.element (.globally ⟨none, "plain"⟩ "plain" 0) ⟨1, .unbounded⟩]],
      .containing [.compositor .sequence .once
        [.element (.globally ⟨none, "alone"⟩ "alone" 0) ⟨0, .unbounded⟩]],
      .containing [.particle "x" (.anonymous ⟨0⟩) .once]]
      [.unqualified "listing" (.anonymous ⟨1⟩), .unqualified "starting" (.anonymous ⟨2⟩),
        .unqualified "plain" (.anonymous ⟨0⟩),
        ⟨⟨none, "member"⟩, 0, .anonymous ⟨0⟩, true, some ⟨none, "plain"⟩⟩,
        ⟨⟨none, "alone"⟩, 0, .anonymous ⟨3⟩, true, none⟩] with
    members := [(⟨none, "plain"⟩, [⟨none, "member"⟩])] }

def abstractInsideIndex : SchemaIndex :=
  (SchemaIndex.build abstractInside .disabled [⟨none, "listing"⟩, ⟨none, "starting"⟩]).toOption.getD
    default

/-- Both are offered. -/
theorem abstract_created :
    SchemaIndex.build abstractInside .disabled [⟨none, "listing"⟩, ⟨none, "starting"⟩] =
        .ok abstractInsideIndex ∧
      ∀ root ∈ [PrefixedName.unprefixed "listing", .unprefixed "starting"], ∃ compilation,
        abstractInsideIndex.compile .edit (.root root) = .ok compilation ∧
        ∃ node ∈ compilation.template.walk, ∃ place ∈ node.creates,
          abstractInsideIndex.isAbstract place = true := by
  have hbuild : SchemaIndex.build abstractInside .disabled
      [⟨none, "listing"⟩, ⟨none, "starting"⟩] = .ok abstractInsideIndex := rfl
  refine ⟨hbuild, fun root hroot => ?_⟩
  have hcreates : ∃ compilation,
      abstractInsideIndex.compile .edit (.root root) = .ok compilation ∧
        (compilation.template.walk.any fun node =>
          node.creates.any abstractInsideIndex.isAbstract) = true := by
    simp only [List.mem_cons, List.not_mem_nil, or_false] at hroot
    rcases hroot with rfl | rfl
    · exact ⟨_, rfl, by decide⟩
    · exact ⟨_, rfl, by decide⟩
  obtain ⟨compilation, hcompile, hany⟩ := hcreates
  obtain ⟨node, hnode, hplaces⟩ := List.any_eq_true.mp hany
  obtain ⟨place, hplace, habstract⟩ := List.any_eq_true.mp hplaces
  exact ⟨compilation, hcompile, node, hnode, place, hplace, habstract⟩

theorem abstract_created_where_exposed_abstractInside :
    SchemaIndex.build abstractInside .disabled [⟨none, "listing"⟩, ⟨none, "starting"⟩] =
        .ok abstractInsideIndex ∧
      (∃ compilation,
        abstractInsideIndex.compile .edit (.root (.unprefixed "listing")) = .ok compilation ∧
        ∀ node ∈ compilation.template.walk, node.CreatesExposed abstractInsideIndex) ∧
      ∃ compilation, abstractInsideIndex.compile .edit
          ((Address.root (.unprefixed "listing")).child (.unprefixed "plain")) = .ok compilation ∧
        ∃ node ∈ compilation.template.walk,
          (Address.root (.unprefixed "listing")).child (.unprefixed "member") ∈ node.creates := by
  have hbuild : SchemaIndex.build abstractInside .disabled
      [⟨none, "listing"⟩, ⟨none, "starting"⟩] = .ok abstractInsideIndex := rfl
  obtain ⟨hexposed, hmembers⟩ := abstract_created_where_exposed hbuild
  have hfound : (abstractInsideIndex.nodeOf?
      ((Address.root (.unprefixed "listing")).child (.unprefixed "plain"))).isSome := by decide
  have hlisting : abstractInsideIndex.compile .edit (.root (.unprefixed "listing")) = .ok _ :=
    SchemaIndex.compile_of_ended (by decide) (by decide)
  have hplain : abstractInsideIndex.compile .edit
      ((Address.root (.unprefixed "listing")).child (.unprefixed "plain")) = .ok _ :=
    SchemaIndex.compile_of_ended hfound (by decide)
  refine ⟨hbuild, ⟨_, hlisting, hexposed _ _ hlisting⟩, _, hplain, ?_⟩
  exact hmembers _ _ _ (Option.some_get hfound).symm rfl rfl rfl _
    (List.mem_cons_of_mem _ List.mem_cons_self) _ hplain

end SchemaForms
