import SchemaForms.Proofs.Index.History

/-!
What a walk adds to the visits. The nodes that are described are those of the visits so far, apart
from what is filled in about their children. A walk adds visits, and whatever it adds it completes:
before it is over, all that the content of an added element holds and all that may stand in for the
element is known. Children are filled in where the content was walked, and no warning says that a
bound was reached. Steps of a walk compose.
-/

namespace SchemaForms.Index

variable {scope : Scope} {roots : List ExpandedName} {visits later : List Visit} {α β : Type}

theorem addresses_append :
    addresses (visits ++ later) = addresses visits ++ addresses later :=
  List.map_append

theorem mem_addresses_append {address : Address} (h : address ∈ addresses visits) :
    address ∈ addresses (visits ++ later) := by
  rw [addresses_append]
  exact List.mem_append_left _ h

/-- All that the content of a described element holds is known. -/
def Visit.ContentKnown (scope : Scope) (visit : Visit) (visits : List Visit) : Prop :=
  ∀ path placed address, visit.Holds scope path placed →
    Names scope visit.node.address placed.construct address → address ∈ addresses visits

theorem Visit.ContentKnown.append {visit : Visit} (h : visit.ContentKnown scope visits) :
    visit.ContentKnown scope (visits ++ later) :=
  fun path placed address hholds hnames =>
    mem_addresses_append (h path placed address hholds hnames)

/-- All that follows from a visit is known. -/
structure Visit.Complete (scope : Scope) (visits : List Visit) (visit : Visit) : Prop where
  content : visit.ContentKnown scope visits
  standIns : visit.node.kind = .element → ∀ parent name member type,
    visit.node.address.parent? = some parent →
      (name, member) ∈ Index.standIns scope visit.node.name →
        scope.set.types.resolve? member.type = some type →
          parent.child name ∈ addresses visits

theorem Visit.Complete.append {visit : Visit} (h : visit.Complete scope visits) :
    visit.Complete scope (visits ++ later) :=
  ⟨h.content.append, fun helement parent name member type hparent hmember htype =>
    mem_addresses_append (h.standIns helement parent name member type hparent hmember htype)⟩

/-- The address of a child or of an attribute. -/
def RightBelow (parent address : Address) : Prop :=
  ∃ name, address = parent.child name ∨ address = parent.attr name

theorem rightBelow_child (parent : Address) (name : PrefixedName) :
    RightBelow parent (parent.child name) :=
  ⟨name, Or.inl rfl⟩

theorem rightBelow_attr (parent : Address) (name : PrefixedName) :
    RightBelow parent (parent.attr name) :=
  ⟨name, Or.inr rfl⟩

/-- What is filled in about a node: nothing below a recursive one, and a child that is known and
repeats, if it is the one that repeats alone. -/
structure Filled (scope : Scope) (visits : List Visit) (node : SchemaNode) : Prop where
  recursive : node.isRecursive = true → node.children = []
  singleton : ∀ only, node.repeatingSingleton = some only →
    only ∈ addresses visits ∧ ∃ name, only = node.address.child name
  repeats : ∀ only, node.repeatingSingleton = some only → ∃ visit ∈ visits,
    visit.node.address = only ∧ visit.node.isRepeating scope.set.types = true

theorem Filled.append {node : SchemaNode} (h : Filled scope visits node) :
    Filled scope (visits ++ later) node := by
  refine ⟨h.recursive, fun only honly => (h.singleton only honly).imp_left mem_addresses_append,
    fun only honly => ?_⟩
  obtain ⟨visit, hvisit, hrepeats⟩ := h.repeats only honly
  exact ⟨visit, List.mem_append_left _ hvisit, hrepeats⟩

theorem filled_of_bare {node : SchemaNode} (h : node.bare = node) : Filled scope visits node := by
  rw [← h]
  exact ⟨fun _ => rfl, (fun _ honly => nomatch honly), fun _ honly => nomatch honly⟩

/-- The nodes of the visits are described, in their order, and no bound was reached. -/
structure Records (scope : Scope) (roots : List ExpandedName) (progress : Progress)
    (visits : List Visit) : Prop where
  history : History scope roots visits
  nodes : progress.nodes.map SchemaNode.bare = visits.map Visit.node
  filled : ∀ node ∈ progress.nodes, Filled scope visits node
  within : ∀ warning ∈ progress.warnings, ∀ here, warning ≠ .nestedTooDeep here

theorem isSome_find?_address {nodes : List SchemaNode}
    (h : nodes.map SchemaNode.bare = visits.map Visit.node) (address : Address) :
    (nodes.find? (·.address = address)).isSome = decide (address ∈ addresses visits) := by
  have haddresses : nodes.map SchemaNode.address = addresses visits := by
    have hmap := congrArg (List.map SchemaNode.address) h
    rw [List.map_map, List.map_map] at hmap
    exact hmap
  rw [← haddresses, Bool.eq_iff_iff]
  simp

namespace Records

variable {progress : Progress}

theorem isSome_node? (h : Records scope roots progress visits) (address : Address) :
    (progress.node? address).isSome = decide (address ∈ addresses visits) :=
  isSome_find?_address h.nodes address

theorem exists_visit (h : Records scope roots progress visits) {node : SchemaNode}
    (hnode : node ∈ progress.nodes) : ∃ visit ∈ visits, visit.node = node.bare := by
  have hmem : node.bare ∈ visits.map Visit.node := h.nodes ▸ List.mem_map.mpr ⟨node, hnode, rfl⟩
  exact List.mem_map.mp hmem

/-- What one more warning says is kept, unless it says that a bound was reached. -/
theorem warned (h : Records scope roots progress visits) {warning : IndexWarning}
    (hwithin : ∀ here, warning ≠ .nestedTooDeep here) :
    Records scope roots { progress with warnings := progress.warnings ++ [warning] } visits := by
  refine ⟨h.history, h.nodes, h.filled, fun found hfound => ?_⟩
  rcases List.mem_append.mp hfound with hold | hnew
  · exact h.within found hold
  · exact List.mem_singleton.mp hnew ▸ hwithin

end Records

/-- The only child that repeats is an element that is described and repeats. -/
theorem of_repeatingSingleton? {progress : Progress} {children : List Address} {only : Address}
    (h : repeatingSingleton? scope progress children = some only) :
    only ∈ children ∧ only.isAttribute = false ∧ ∃ node, progress.node? only = some node ∧
      node.isRepeating scope.set.types = true := by
  unfold repeatingSingleton? at h
  split at h
  · rename_i first hfilter
    obtain ⟨node, hnode, hfound⟩ := Option.bind_eq_some_iff.mp h
    have hfirst : first ∈ children.filter (!·.isAttribute) := by simp [hfilter]
    split at hfound
    · rename_i hrepeats
      obtain rfl := Option.some.inj hfound
      rw [List.mem_filter] at hfirst
      rw [Bool.and_eq_true] at hrepeats
      exact ⟨hfirst.1, by simpa using hfirst.2, node, hnode, hrepeats.2⟩
    · contradiction
  · contradiction

/-- A walk adds complete visits, after which something is known. -/
def Adds (scope : Scope) (roots : List ExpandedName) (visits : List Visit) (walk : Walk α)
    (known : List Visit → Prop) : Prop :=
  ∀ progress, Records scope roots progress visits → ∃ more,
    Records scope roots (walk.run progress).2 (visits ++ more) ∧
      (∀ visit ∈ more, visit.Complete scope (visits ++ more)) ∧ known (visits ++ more)

namespace Adds

variable {P Q : List Visit → Prop}

theorem pure {value : α} (h : Q visits) : Adds scope roots visits (pure value) Q := by
  intro progress hrecords
  refine ⟨[], ?_, by simp, by simpa using h⟩
  rw [List.append_nil]
  exact hrecords

theorem warn {warning : IndexWarning} (hwithin : ∀ here, warning ≠ .nestedTooDeep here)
    (h : Q visits) : Adds scope roots visits (warn warning) Q := by
  intro progress hrecords
  refine ⟨[], ?_, by simp, by simpa using h⟩
  rw [List.append_nil]
  exact hrecords.warned hwithin

/-- A walk that gives up adds nothing. -/
theorem giveUp {warning : IndexWarning} {value : α}
    (hwithin : ∀ here, warning ≠ .nestedTooDeep here) (h : Q visits) :
    Adds scope roots visits (do Index.warn warning; return value) Q := by
  intro progress hrecords
  refine ⟨[], ?_, by simp, by simpa using h⟩
  rw [List.append_nil]
  exact hrecords.warned hwithin

theorem mono {walk : Walk α} (h : Adds scope roots visits walk P)
    (himp : ∀ more, P (visits ++ more) → Q (visits ++ more)) :
    Adds scope roots visits walk Q := by
  intro progress hrecords
  obtain ⟨more, hmore, hcomplete, hmiddle⟩ := h progress hrecords
  exact ⟨more, hmore, hcomplete, himp more hmiddle⟩

/-- The rest of a walk may use what the first part answers. -/
theorem bindAnswer {first : Walk α} {next : α → Walk β} {R : α → Prop}
    (hanswer : ∀ progress, R (first.run progress).1) (hfirst : Adds scope roots visits first P)
    (hnext : ∀ value more, R value → P (visits ++ more) →
      Adds scope roots (visits ++ more) (next value) Q) :
    Adds scope roots visits (first >>= next) Q := by
  intro progress hrecords
  obtain ⟨more, hmore, hcomplete, hmiddle⟩ := hfirst progress hrecords
  obtain ⟨last, hlast, hrest, hknown⟩ :=
    hnext (first.run progress).1 more (hanswer progress) hmiddle _ hmore
  rw [List.append_assoc] at hlast hrest hknown
  refine ⟨more ++ last, hlast, ?_, hknown⟩
  intro visit hvisit
  rcases List.mem_append.mp hvisit with hold | hnew
  · simpa using (hcomplete visit hold).append
  · exact hrest visit hnew

theorem bind {first : Walk α} {next : α → Walk β} (hfirst : Adds scope roots visits first P)
    (hnext : ∀ value more, P (visits ++ more) →
      Adds scope roots (visits ++ more) (next value) Q) :
    Adds scope roots visits (first >>= next) Q :=
  bindAnswer (R := fun _ => True) (fun _ => trivial) hfirst fun value more _ => hnext value more

/-- Whether an address is known decides how the walk goes on. -/
theorem isKnown {address : Address} {next : Bool → Walk β}
    (hknown : address ∈ addresses visits → Adds scope roots visits (next true) Q)
    (hnew : address ∉ addresses visits → Adds scope roots visits (next false) Q) :
    Adds scope roots visits (isKnown address >>= next) Q := by
  intro progress hrecords
  have hsome := hrecords.isSome_node? address
  have hrun : (Index.isKnown address >>= next).run progress =
      (next (progress.node? address).isSome).run progress := rfl
  rw [hrun, hsome]
  by_cases haddress : address ∈ addresses visits
  · simpa [haddress] using hknown haddress progress hrecords
  · simpa [haddress] using hnew haddress progress hrecords

/-- The order of the visits may be used. -/
theorem of_history {walk : Walk α}
    (h : History scope roots visits → Adds scope roots visits walk Q) :
    Adds scope roots visits walk Q :=
  fun progress hrecords => h hrecords.history progress hrecords

/-- A node is described; the rest of the walk completes it. -/
theorem visit (visit : Visit) {rest : Unit → Walk β} (hfollows : Follows scope roots visits visit)
    (hnew : visit.node.address ∉ addresses visits)
    (hrest : Adds scope roots (visits ++ [visit]) (rest ())
      fun after => visit.Complete scope after ∧ Q after) :
    Adds scope roots visits (modify (·.add visit.node) >>= rest) Q := by
  intro progress hrecords
  have hsound := hfollows.sound hrecords.history.sound
  have hadded : Records scope roots (progress.add visit.node) (visits ++ [visit]) := by
    refine ⟨.visit hrecords.history hfollows hnew,
      by simp [Progress.add, hrecords.nodes, hsound.bare], fun node hnode => ?_, hrecords.within⟩
    rcases List.mem_append.mp hnode with hold | hlast
    · exact (hrecords.filled node hold).append
    · exact List.mem_singleton.mp hlast ▸ filled_of_bare hsound.bare
  obtain ⟨more, hmore, hothers, hcomplete, hafter⟩ := hrest _ hadded
  rw [List.append_assoc] at hmore hothers hcomplete hafter
  refine ⟨[visit] ++ more, hmore, ?_, hafter⟩
  intro other hother
  rcases List.mem_append.mp hother with hfirst | hlater
  · rwa [List.mem_singleton.mp hfirst]
  · exact hothers other hlater

/-- The children of an element that was walked are filled in. -/
theorem setChildren {visit : Visit} {children : List Address} (hvisit : visit ∈ visits)
    (hexpanded : visit.node.isRecursive = false)
    (hbelow : ∀ child ∈ children, RightBelow visit.node.address child) (h : Q visits) :
    Adds scope roots visits (modify fun progress =>
      progress.setChildren visit.node.address children
        (repeatingSingleton? scope progress children)) Q := by
  intro progress hrecords
  refine ⟨[], ?_, by simp, by simpa using h⟩
  rw [List.append_nil]
  change Records scope roots (progress.setChildren visit.node.address children
    (repeatingSingleton? scope progress children)) visits
  refine ⟨hrecords.history, ?_, fun node hnode => ?_, hrecords.within⟩
  · rw [← hrecords.nodes, Progress.setChildren, List.map_map]
    refine List.map_congr_left fun node _ => ?_
    simp only [Function.comp_apply]
    split <;> rfl
  · obtain ⟨old, hold, rfl⟩ := List.mem_map.mp hnode
    split
    · rename_i haddress
      refine ⟨fun hrecursive => ?_, fun only honly => ?_, fun only honly => ?_⟩
      · obtain ⟨found, hfound, hbare⟩ := hrecords.exists_visit hold
        have hsame : found = visit :=
          hrecords.history.eq_of_address_eq hfound hvisit (by rw [hbare]; exact haddress)
        subst hsame
        rw [hbare] at hexpanded
        exact absurd hrecursive (by simpa [SchemaNode.bare] using hexpanded)
      · obtain ⟨hmem, helement, node, hnode, -⟩ := of_repeatingSingleton? honly
        have hknown : (progress.node? only).isSome := by simp [hnode]
        rw [hrecords.isSome_node?, decide_eq_true_iff] at hknown
        refine ⟨hknown, ?_⟩
        obtain ⟨name, rfl | rfl⟩ := hbelow only hmem
        · exact ⟨name, by rw [haddress]⟩
        · simp at helement
      · obtain ⟨-, -, node, hnode, hrepeats⟩ := of_repeatingSingleton? honly
        obtain ⟨found, hfound, hbare⟩ := hrecords.exists_visit (List.mem_of_find?_eq_some hnode)
        refine ⟨found, hfound, ?_, ?_⟩
        · rw [hbare]
          simpa [SchemaNode.bare] using List.find?_some hnode
        · rw [hbare]
          exact hrepeats
    · exact hrecords.filled old hold

/-- Constructs are walked one after the other. -/
theorem walkAll {walk : Construct → Walk (List Address)} {constructs : List Construct}
    {P : Construct → List Visit → Prop}
    (hlater : ∀ construct visits later, P construct visits → P construct (visits ++ later))
    (hwalk : ∀ construct ∈ constructs, ∀ more,
      Adds scope roots (visits ++ more) (walk construct) (P construct)) :
    Adds scope roots visits (walkAll walk constructs)
      fun after => ∀ construct ∈ constructs, P construct after := by
  induction constructs generalizing visits with
  | nil => exact .pure (by simp)
  | cons first others ih =>
    refine .bind (P := P first)
      (by simpa using hwalk first List.mem_cons_self []) fun _ more hfirst => ?_
    refine .bind (ih fun construct hconstruct later => ?_) fun _ later hothers => .pure ?_
    · rw [List.append_assoc]
      exact hwalk construct (List.mem_cons_of_mem _ hconstruct) (more ++ later)
    · intro construct hconstruct
      rcases List.mem_cons.mp hconstruct with rfl | hother
      · exact hlater _ _ _ hfirst
      · exact hothers construct hother

theorem forM {items : List α} {walk : α → Walk PUnit} {P : α → List Visit → Prop}
    (hlater : ∀ item visits later, P item visits → P item (visits ++ later))
    (hwalk : ∀ item ∈ items, ∀ more, Adds scope roots (visits ++ more) (walk item) (P item)) :
    Adds scope roots visits (items.forM walk) fun after => ∀ item ∈ items, P item after := by
  induction items generalizing visits with
  | nil => exact .pure (by simp)
  | cons first others ih =>
    change Adds scope roots visits (walk first >>= fun _ => others.forM walk) _
    refine .bind (P := P first)
      (by simpa using hwalk first List.mem_cons_self []) fun _ more hfirst => ?_
    refine .mono (ih fun item hitem later => ?_) fun later hothers => ?_
    · rw [List.append_assoc]
      exact hwalk item (List.mem_cons_of_mem _ hitem) (more ++ later)
    · intro item hitem
      rcases List.mem_cons.mp hitem with rfl | hother
      · exact hlater _ _ _ hfirst
      · exact hothers item hother

end Adds

end SchemaForms.Index
