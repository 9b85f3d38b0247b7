import SchemaForms.Proofs.Form.StandingIn

/-!
Offers of another member. A head repeats by its own bound, or because it is all that a repeating
compositor holds. A repetition counts against the bound that makes it repeat, but the control of a
head always counts against the head's own. The two agree where the head's own bound allows several;
where it does not, the offer is withdrawn with the first member, whatever the compositor allows. A
document that shows this can be made for every path: an element for each name on the way, as many
times as a position asks for.
-/

namespace SchemaForms

namespace InstanceNamespaces

/-- The name of elements that a written name stands for. -/
def nameFor (namespaces : InstanceNamespaces) (name : PrefixedName) : ExpandedName :=
  match namespaces with
  | disabled => ⟨none, name.localName⟩
  | enabled .. => ⟨namespaces.namespaceFor? name.qualifier, name.localName⟩

theorem matchesElement_of_name {namespaces : InstanceNamespaces} {name : PrefixedName}
    {element : Xml.Element} (h : element.name = namespaces.nameFor name) :
    namespaces.matchesElement name element = true := by
  cases namespaces <;> simp [matchesElement, nameFor, h]

end InstanceNamespaces

/-- An element without attributes and text. -/
def Xml.Element.holding (name : ExpandedName) (children : List Xml.Element) : Xml.Element :=
  ⟨name, [], [], "", children⟩

/-- How many elements have to be there for the segment to select one. -/
def Segment.copies : Segment → Nat
  | element _ (some (.position number)) => number + 1
  | _ => 1

namespace Instance

/-- Elements for the segments of a path, each inside of the one before, and within the last what is
given. -/
def along (namespaces : InstanceNamespaces) (inner : List Xml.Element) :
    List Segment → List Xml.Element
  | [] => inner
  | segment :: rest => List.replicate segment.copies
      (.holding (namespaces.nameFor segment.name) (along namespaces inner rest))

variable {record : Instance}

theorem pick_copies (name : PrefixedName) (index : Option Index) (element : Xml.Element) :
    pick index (List.replicate (Segment.element name index).copies element) = [element] := by
  unfold pick Segment.copies
  split
  · rename_i number
    have hleft : min 1 (number + 1 - (number - 1)) = 1 := by omega
    rw [List.drop_replicate, List.take_replicate, hleft]
    rfl
  · rename_i hposition
    split
    · rename_i other number heq
      exact absurd (Segment.element.inj heq).2 (hposition number)
    · rfl

theorem descend_along {inner : List Xml.Element} {segments : List Segment}
    (helements : ∀ segment ∈ segments, segment.isAttribute = false) {parent : Xml.Element}
    (hparent : parent.children = along record.namespaces inner segments) :
    ∃ last, record.descend segments [parent] = [last] ∧ last.children = inner := by
  induction segments generalizing parent with
  | nil => exact ⟨parent, rfl, hparent⟩
  | cons segment rest ih =>
    obtain ⟨hsegment, hrest⟩ := List.forall_mem_cons.mp helements
    cases segment with
    | attr name => simp [Segment.isAttribute] at hsegment
    | element name index =>
      let child := Xml.Element.holding (record.namespaces.nameFor name)
        (along record.namespaces inner rest)
      have hnamed : record.childrenNamed name parent =
          List.replicate (Segment.element name index).copies child := by
        rw [childrenNamed, hparent, along]
        refine List.filter_eq_self.mpr fun element helement => ?_
        obtain rfl := List.eq_of_mem_replicate helement
        exact InstanceNamespaces.matchesElement_of_name rfl
      rw [descend, List.flatMap_singleton, hnamed, pick_copies]
      exact ih hrest rfl

/-- For every path there is a document in which it selects one element, with any children. -/
theorem exists_elements_eq (namespaces : InstanceNamespaces) {place : Address}
    (hplace : place.IsElementPath) (inner : List Xml.Element) :
    ∃ root last, (⟨root, namespaces⟩ : Instance).elements place = [last] ∧
      last.children = inner := by
  obtain ⟨hne, helements⟩ := hplace
  obtain ⟨first, rest, hsegments⟩ := List.exists_cons_of_ne_nil hne
  rw [hsegments, List.forall_mem_cons] at helements
  let root := Xml.Element.holding (namespaces.nameFor first.name) (along namespaces inner rest)
  have hbelow : ∃ last, (⟨root, namespaces⟩ : Instance).descend rest [root] = [last] ∧
      last.children = inner := descend_along helements.2 rfl
  obtain ⟨last, hlast, hchildren⟩ := hbelow
  refine ⟨root, last, ?_, hchildren⟩
  have hroot : namespaces.matchesElement first.name root = true :=
    InstanceNamespaces.matchesElement_of_name rfl
  simpa only [elements, hsegments, hroot, if_true] using hlast

end Instance

/-- A node that may occur several times, by its own bound or by that of a compositor that holds
nothing else. -/
def SchemaNode.Repeats (node : SchemaNode) : Prop :=
  node.occurs.isMany = true ∨ ∃ context, node.compositor = some context ∧
    context.isSingleton = true ∧ context.occurs.isMany = true

namespace Compile

open TemplateNode FormNode

namespace Scope

theorem occurrenceLimit_of_isMany {node : SchemaNode} (h : node.occurs.isMany = true) :
    occurrenceLimit node = node.occurs.max :=
  node.limit_occurrenceLimit.unique (.own (Or.inl h))

/-- A node that repeats has room for a second occurrence. -/
theorem admitsMore_one_of_repeats {node : SchemaNode} (h : node.Repeats) :
    (occurrenceLimit node).admitsMore 1 = true := by
  have hmany : ∀ {limit : MaxOccurs}, limit.isMany = true → limit.admitsMore 1 = true := by
    intro limit hlimit
    cases limit with
    | unbounded => rfl
    | count number => exact hlimit
  by_cases hown : node.occurs.isMany = true
  · rw [occurrenceLimit_of_isMany hown]
    exact hmany hown
  · obtain ⟨context, hcontext, halone, hrepeats⟩ := h.resolve_left hown
    rw [node.limit_occurrenceLimit.unique (.compositor (by simpa using hown) hcontext halone)]
    exact hmany hrepeats

variable {scope : Scope}

/-- The control for another member of a head. -/
def offer (parent address : Address) (node : SchemaNode) (bindings : Bindings) : FormNode :=
  .affordance .addMember (parent.substitute bindings) (addLabel address) node.members

section Offer

variable {base : Nat} (hiterable : Iterable scope.index)
  (hspace : ∀ address node, scope.index.nodeOf? address = some node →
    base + address.depth ≤ Text.maxWord) {address parent : Address}
  (hcounted : parent.CountedFrom base) (hpath : parent.IsElementPath)

include hiterable hspace hcounted hpath

theorem offer_not_mem_memberRows {levels : Nat} {record : Instance} {bindings : Bindings}
    {element : Xml.Element} (hone : record.elements (parent.substitute bindings) = [element])
    (node : SchemaNode) (name : PrefixedName) : offer parent address node bindings ∉
      scope.memberRows (scope.render levels) address parent record bindings name := by
  intro hmem
  rw [memberRows, Attempt.value_orSkip] at hmem
  split at hmem
  · rename_i nodes hmade
    obtain ⟨contents, hrows⟩ := areRowsOf_member hiterable hspace hcounted hpath hmade hone
    obtain ⟨i, hrow, heq⟩ := List.mem_iff_getElem.mp hmem
    have hmade := (hrows.row i hrow (hrows.length_eq ▸ hrow)).made
    rw [heq] at hmade
    cases hmade
  · cases hmem

/-- In a form for editing, a head with members offers another one while its own bound allows. -/
theorem offer_mem_iff (hedit : scope.mode = .edit) {node : SchemaNode}
    (hmembers : node.members ≠ []) {levels : Nat} {record : Instance} {bindings : Bindings}
    {element : Xml.Element} (hone : record.elements (parent.substitute bindings) = [element]) :
    offer parent address node bindings ∈
        node.members.flatMap
            (scope.memberRows (scope.render levels) address parent record bindings) ++
          fillAll record bindings (scope.editing (memberControl parent address node)) ↔
      node.occurs.max.admitsMore (record.membersIn node.members element) = true := by
  have hrows : offer parent address node bindings ∉ node.members.flatMap
      (scope.memberRows (scope.render levels) address parent record bindings) := by
    intro hmem
    obtain ⟨name, -, hname⟩ := List.mem_flatMap.mp hmem
    exact offer_not_mem_memberRows hiterable hspace hcounted hpath hone node name hname
  rw [editing_edit hedit, fillAll_memberControl parent address node hone, List.mem_append,
    or_iff_right hrows]
  split
  · rename_i hadmits
    simp [offer, hadmits.2]
  · rename_i hfull
    simpa [hmembers] using hfull

end Offer

end Scope

/-- In a form for editing, a head that repeats offers another member while its own bound allows, at
every parent that selects one element. That the offer lasts until the bound that makes the head
repeat is reached holds for all documents exactly if the head's own bound is that bound. -/
theorem offer_within_limit_iff {set : SchemaSet} {namespaces : InstanceNamespaces}
    {roots : List ExpandedName} {scope : Scope}
    (hbuild : SchemaIndex.build set namespaces roots = .ok scope.index) {base : Nat}
    (hroom : ∀ node ∈ scope.index.nodes, base + node.address.depth ≤ Text.maxWord)
    (hedit : scope.mode = .edit) {address parent : Address} {node : SchemaNode}
    (hnode : scope.node address = .ok node) {classification : Classification}
    (hclassified : scope.classify address = .ok classification)
    (hhead : classification.isHead = true) (hmembers : node.members ≠ [])
    (hrepeats : node.Repeats) (hparent : address.parent? = some parent)
    (hcounted : parent.CountedFrom base) (levels : Nat) (spelling : InstanceNamespaces)
    (bindings : Bindings) :
    ∃ nodes, (scope.renderNode (scope.render levels) address).run.value = .ok nodes ∧
      let Offers : Xml.Element → Prop := fun root =>
        Scope.offer parent address node bindings ∈ ((bindAll ⟨root, spelling⟩ nodes).run bindings).1
      let Within : MaxOccurs → Prop := fun limit => ∀ root element,
        let record : Instance := ⟨root, spelling⟩
        record.elements (parent.substitute bindings) = [element] →
          (Offers root ↔ limit.admitsMore (record.membersIn node.members element) = true)
      Within node.occurs.max ∧
        (Within (Scope.occurrenceLimit node) ↔ node.occurs.isMany = true) := by
  obtain ⟨hiterable, hspace⟩ := SchemaIndex.iterable_of_build hbuild hroom
  have hpath := (Scope.isElementPath_of_isHead hbuild hclassified hhead).of_parent? hparent
  obtain ⟨nodes, hmade, hbound⟩ := Scope.bindAll_head hiterable hspace hcounted hpath hnode
    hclassified hhead hparent levels
  refine ⟨nodes, hmade, ?_⟩
  intro Offers Within
  have hown : Within node.occurs.max := by
    intro root element record hone
    change _ ∈ _ ↔ _
    rw [hbound]
    exact Scope.offer_mem_iff hiterable hspace hcounted hpath hedit hmembers hone
  refine ⟨hown, fun hwithin => ?_, fun hmany => ?_⟩
  · -- One member below the parent: the limit leaves room for another, and so does the own bound.
    obtain ⟨name, others, hnames⟩ := List.exists_cons_of_ne_nil hmembers
    let child := Xml.Element.holding (spelling.nameFor name) []
    obtain ⟨root, element, hone, hchildren⟩ :=
      Instance.exists_elements_eq spelling (hpath.substitute bindings) [child]
    have hmatches : spelling.matchesElement name child = true :=
      InstanceNamespaces.matchesElement_of_name rfl
    have hcount : Instance.membersIn ⟨root, spelling⟩ node.members element = 1 := by
      simp [Instance.membersIn, hchildren, hnames, hmatches]
    have hlimit := hwithin root element hone
    rw [hcount, Scope.admitsMore_one_of_repeats hrepeats] at hlimit
    have hoffered := (hown root element hone).mp (hlimit.mpr rfl)
    rw [hcount] at hoffered
    cases hmax : node.occurs.max with
    | unbounded => simp [Occurs.isMany, hmax, MaxOccurs.isMany]
    | count bound =>
      simpa [Occurs.isMany, hmax, MaxOccurs.isMany, MaxOccurs.admitsMore] using hoffered
  · rw [Scope.occurrenceLimit_of_isMany hmany]
    exact hown

/-- A sequence of nothing but an abstract element, for which another one stands in. -/
def standInSequence (around own : MaxOccurs) : SchemaSet :=
  { SchemaSet.declaring [.builtin (schemaName "string"),
      .containing [.compositor .sequence ⟨1, around⟩
        [.element (.globally ⟨none, "h"⟩ "h" 0) ⟨0, own⟩]]]
      [.unqualified "r" (.anonymous ⟨1⟩), ⟨⟨none, "h"⟩, 0, .anonymous ⟨0⟩, true, none⟩,
        ⟨⟨none, "m"⟩, 0, .anonymous ⟨0⟩, false, some ⟨none, "h"⟩⟩] with
    members := [(⟨none, "h"⟩, [⟨none, "m"⟩])] }

def standInIndex (around own : MaxOccurs) : SchemaIndex :=
  (SchemaIndex.build (standInSequence around own) .disabled [⟨none, "r"⟩]).toOption.getD default

def standInScope (around own : MaxOccurs) : Scope :=
  ⟨standInIndex around own, .edit, .root (.unprefixed "r")⟩

def addressOfHead : Address := (Address.root (.unprefixed "r")).child (.unprefixed "h")

/-- What stands in for the head occurs once. -/
def withOneMember : Instance := ⟨.plain "r" "" [.plain "m" "1" []], .disabled⟩

/-- The head itself may occur twice, and after one member another one is offered. -/
theorem offer_within_limit_iff_twice :
    let scope := standInScope (.count 1) (.count 2)
    let parent := Address.root (.unprefixed "r")
    SchemaIndex.build (standInSequence (.count 1) (.count 2)) .disabled [⟨none, "r"⟩] =
      .ok scope.index ∧
    (∀ node ∈ scope.index.nodes, 0 + node.address.depth ≤ Text.maxWord) ∧
    addressOfHead.parent? = some parent ∧ parent.CountedFrom 0 ∧
    withOneMember.elements (parent.substitute []) = [withOneMember.root] ∧
    ∃ node classification nodes, scope.node addressOfHead = .ok node ∧
      scope.classify addressOfHead = .ok classification ∧ classification.isHead = true ∧
      node.members ≠ [] ∧ node.Repeats ∧
      (scope.renderNode (scope.render 2) addressOfHead).run.value = .ok nodes ∧
      Scope.offer parent addressOfHead node [] ∈ ((bindAll withOneMember nodes).run []).1 := by
  intro scope parent
  have hbuild : SchemaIndex.build (standInSequence (.count 1) (.count 2)) .disabled
      [⟨none, "r"⟩] = .ok scope.index := rfl
  have hroom : ∀ node ∈ scope.index.nodes, 0 + node.address.depth ≤ Text.maxWord := by decide
  have hnode : scope.node addressOfHead = .ok _ := rfl
  have hparent : addressOfHead.parent? = some parent := rfl
  have hcounted : parent.CountedFrom 0 := Address.counted_of_vars_nil rfl
  have hone : withOneMember.elements (parent.substitute []) = [withOneMember.root] := rfl
  obtain ⟨nodes, hmade, hown, -⟩ := offer_within_limit_iff hbuild hroom rfl hnode rfl rfl
    (List.cons_ne_nil _ _) (Or.inl rfl) hparent hcounted 2 .disabled []
  exact ⟨hbuild, hroom, hparent, hcounted, hone, _, _, nodes, hnode, rfl, rfl,
    List.cons_ne_nil _ _, Or.inl rfl, hmade, (hown _ _ hone).mpr (by decide)⟩

/-- The sequence may be repeated without bound, but after one member no other is offered. -/
theorem offer_withdrawn_below_limit :
    let scope := standInScope .unbounded (.count 1)
    let parent := Address.root (.unprefixed "r")
    SchemaIndex.build (standInSequence .unbounded (.count 1)) .disabled [⟨none, "r"⟩] =
      .ok scope.index ∧
    withOneMember.elements (parent.substitute []) = [withOneMember.root] ∧
    ∃ node classification nodes, scope.node addressOfHead = .ok node ∧
      scope.classify addressOfHead = .ok classification ∧ classification.isHead = true ∧
      classification.isRepeating = true ∧ node.members ≠ [] ∧ node.Repeats ∧
      (scope.renderNode (scope.render 2) addressOfHead).run.value = .ok nodes ∧
      (Scope.occurrenceLimit node).admitsMore
        (withOneMember.membersIn node.members withOneMember.root) = true ∧
      Scope.offer parent addressOfHead node [] ∉ ((bindAll withOneMember nodes).run []).1 := by
  intro scope parent
  have hbuild : SchemaIndex.build (standInSequence .unbounded (.count 1)) .disabled
      [⟨none, "r"⟩] = .ok scope.index := rfl
  have hroom : ∀ node ∈ scope.index.nodes, 0 + node.address.depth ≤ Text.maxWord := by decide
  have hcounted : parent.CountedFrom 0 := Address.counted_of_vars_nil rfl
  have hone : withOneMember.elements (parent.substitute []) = [withOneMember.root] := rfl
  have hnode : scope.node addressOfHead = .ok _ := rfl
  have hclassified : scope.classify addressOfHead = .ok ⟨.simple, true, true⟩ := rfl
  obtain ⟨hiterable, hspace⟩ := SchemaIndex.iterable_of_build hbuild hroom
  have hpath := (Scope.isElementPath_of_isHead hbuild hclassified rfl).of_parent?
    (rfl : addressOfHead.parent? = some parent)
  obtain ⟨nodes, hmade, hbound⟩ := Scope.bindAll_head hiterable hspace hcounted hpath hnode
    hclassified rfl rfl 2
  refine ⟨hbuild, hone, _, _, nodes, hnode, hclassified, rfl, rfl, List.cons_ne_nil _ _,
    Or.inr ⟨_, rfl, rfl, rfl⟩, hmade, rfl, ?_⟩
  rw [hbound]
  refine mt (Scope.offer_mem_iff hiterable hspace hcounted hpath rfl (List.cons_ne_nil _ _)
    hone).mp ?_
  decide

end Compile

end SchemaForms
