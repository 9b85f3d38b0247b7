import SchemaForms.Proofs.Address.Parts
import SchemaForms.Proofs.Schema.Moving

/-!
What a walk leaves alone. The walk of an attribute, or of a group of them, describes only attributes
that it declares. The walk of any other construct describes elements and what is below them, and
right below its own parent only attributes that it declares.
-/

namespace SchemaForms

theorem Address.depth_of_parent? {address parent : Address} (h : address.parent? = some parent) :
    address.depth = parent.depth + 1 := by
  obtain ⟨-, leaf, hsegments⟩ := Address.segments_of_parent? h
  simp [Address.depth, hsegments]

theorem Address.attr_inj {address : Address} {name other : PrefixedName} :
    address.attr name = address.attr other ↔ name = other := by
  simp [Address.attr]

namespace Index

section Lookups

variable {progress : Progress}

theorem Progress.node?_add (progress : Progress) (node : SchemaNode) (address : Address) :
    (progress.add node).node? address =
      (progress.node? address).or (if node.address = address then some node else none) := by
  unfold Progress.node? Progress.add
  rw [List.find?_append, List.find?_singleton]
  simp

theorem Progress.address_of_node? {address : Address} {node : SchemaNode}
    (h : progress.node? address = some node) : node.address = address := by
  simpa using List.find?_some h

theorem Progress.node?_setChildren (progress : Progress) (parent : Address)
    (children : List Address) (singleton : Option Address) (address : Address) :
    (progress.setChildren parent children singleton).node? address =
      (progress.node? address).map fun node =>
        if address = parent then
          { node with children := children, repeatingSingleton := singleton }
        else node := by
  have hsame : ∀ node : SchemaNode, (if node.address = parent then
      { node with children := children, repeatingSingleton := singleton } else node).address =
        node.address := by
    intro node
    split <;> rfl
  unfold Progress.node? Progress.setChildren
  rw [List.find?_map]
  simp only [Function.comp_def, hsame]
  cases hfound : progress.nodes.find? (·.address = address) with
  | none => rfl
  | some node =>
    have haddress : node.address = address := Progress.address_of_node? hfound
    simp [haddress]

end Lookups

variable {α β : Type} {spared : Address → Prop}

/-- Some addresses are described after the walk as they were before. -/
def Spares (spared : Address → Prop) (walk : Walk α) : Prop :=
  ∀ progress address, spared address →
    (walk.run progress).2.node? address = progress.node? address

section Rules

theorem Spares.pure (a : α) : Spares spared (Pure.pure a) := fun _ _ _ => rfl

theorem Spares.bind {first : Walk α} {next : α → Walk β} (hfirst : Spares spared first)
    (hnext : ∀ a, Spares spared (next a)) : Spares spared (first >>= next) := by
  intro progress address hspared
  rw [StateT.run_bind]
  exact (hnext _ _ address hspared).trans (hfirst progress address hspared)

theorem Spares.mono {weaker : Address → Prop} {walk : Walk α} (h : Spares weaker walk)
    (himp : ∀ address, spared address → weaker address) : Spares spared walk :=
  fun progress address hspared => h progress address (himp address hspared)

theorem spares_warn (warning : IndexWarning) : Spares spared (warn warning) := fun _ _ _ => rfl

theorem spares_isKnown (address : Address) : Spares spared (isKnown address) := fun _ _ _ => rfl

theorem spares_add {node : SchemaNode} (h : ¬ spared node.address) :
    Spares spared (modify (·.add node)) := by
  intro progress address hspared
  have hne : node.address ≠ address := fun heq => h (heq ▸ hspared)
  exact (progress.node?_add node address).trans (by rw [if_neg hne, Option.or_none])

theorem spares_setChildren {parent : Address} (h : ¬ spared parent) (children : List Address)
    (singleton : Progress → Option Address) :
    Spares spared (modify fun progress =>
      progress.setChildren parent children (singleton progress)) := by
  intro progress address hspared
  have hne : address ≠ parent := fun heq => h (heq ▸ hspared)
  refine (progress.node?_setChildren parent children _ address).trans ?_
  simp [hne]

theorem spares_giveUp (warning : IndexWarning) (a : α) :
    Spares spared (do warn warning; return a) :=
  (spares_warn warning).bind fun _ => .pure a

theorem spares_walkAll {walk : Construct → Walk (List Address)} {constructs : List Construct}
    (h : ∀ construct ∈ constructs, Spares spared (walk construct)) :
    Spares spared (walkAll walk constructs) := by
  induction constructs with
  | nil => exact .pure _
  | cons first others ih =>
    obtain ⟨hfirst, hothers⟩ := List.forall_mem_cons.mp h
    exact .bind hfirst fun _ => .bind (ih hothers) fun _ => .pure _

theorem spares_forM {items : List α} {walk : α → Walk PUnit}
    (h : ∀ item ∈ items, Spares spared (walk item)) : Spares spared (items.forM walk) := by
  induction items with
  | nil => exact .pure _
  | cons first others ih =>
    obtain ⟨hfirst, hothers⟩ := List.forall_mem_cons.mp h
    exact .bind hfirst fun _ => ih hothers

end Rules

variable {scope : Scope} {path : Path} {parent : Address}

theorem spares_walkAttribute {use : AttributeDeclaration}
    (h : ∀ name, scope.set.attributeName scope.namespaces use = .ok name →
      (scope.set.attributeType? use).isSome = true → ¬ spared (parent.attr name)) :
    Spares spared (walkAttribute scope parent use) := by
  unfold walkAttribute
  split
  · exact spares_giveUp _ _
  · rename_i name hname
    split
    · exact spares_giveUp _ _
    · rename_i type htype
      refine .bind (spares_isKnown _) fun known => ?_
      split
      · exact .pure _
      · exact .bind (spares_add (h name hname (by simp [htype]))) fun _ => .pure _

section Elements

variable {walk : ContentWalk} {level : Nat}
  (helements : ∀ address, spared address → address.isAttribute = true)
  (hwalk : ∀ path parent context construct, level ≤ parent.depth →
    Spares spared (walk path parent context construct))

include helements

theorem spares_walkWildcard (parent : Address) (occurs : Occurs)
    (context : Option CompositorContext) :
    Spares spared (walkWildcard scope parent occurs context) := by
  unfold walkWildcard
  split
  · exact .pure _
  · refine .bind (spares_isKnown _) fun known => ?_
    split
    · exact .pure _
    · refine .bind (spares_add fun hspared => ?_) fun _ => .pure _
      have hattribute := helements _ hspared
      simp at hattribute

omit helements in
theorem spares_beside {visit : Address → PrefixedName × ElementDeclaration → Walk Unit}
    {head : ExpandedName} {parent? : Option Address}
    (h : ∀ parent ∈ parent?, ∀ member, Spares spared (visit parent member)) :
    Spares spared (match parent? with
      | none => pure ()
      | some parent => (standIns scope head).forM (visit parent)) := by
  cases parent? with
  | none => exact .pure _
  | some parent => exact spares_forM fun member _ => h parent rfl member

include hwalk

/-- Only the content of elements that lie deep enough is walked. -/
theorem spares_walkElement (depth : Nat) (path : Path) {address : Address}
    (declaration : ElementDeclaration) (occurs : Occurs) (context : Option CompositorContext)
    (haddress : address.isAttribute = false) (hlevel : level ≤ address.depth) :
    Spares spared (walkElement scope walk depth path address declaration occurs context) := by
  induction depth generalizing path address declaration with
  | zero => exact spares_warn _
  | succ depth ih =>
    have hnot : ¬ spared address := fun hspared => by
      rw [helements _ hspared] at haddress
      contradiction
    have hbeside : ∀ parent ∈ address.parent?, ∀ member : PrefixedName × ElementDeclaration,
        Spares spared (walkElement scope walk depth path (parent.child member.1) member.2 occurs
          context) := by
      intro parent hparent member
      refine ih path member.2 (by simp) ?_
      rw [Address.depth_child, ← Address.depth_of_parent? hparent]
      exact hlevel
    unfold walkElement
    refine .bind (spares_isKnown _) fun known => ?_
    split
    · exact .pure _
    cases scope.set.types.resolve? declaration.type with
    | none => exact spares_warn _
    | some type =>
      refine .bind (spares_add hnot) fun _ => ?_
      dsimp only
      split
      · refine .bind (spares_walkAll fun construct _ => hwalk _ _ _ construct hlevel) ?_
        exact fun children => .bind (spares_setChildren hnot children _) fun _ =>
          spares_beside hbeside
      · exact spares_beside hbeside

theorem spares_walkParticle (reference : ElementRef) (occurs : Occurs)
    (context : Option CompositorContext) (hlevel : level ≤ parent.depth + 1) :
    Spares spared (walkParticle scope walk path parent reference occurs context) := by
  unfold walkParticle
  split
  · exact spares_giveUp _ _
  · split
    · exact spares_giveUp _ _
    · refine .bind (spares_walkElement helements hwalk _ path _ occurs context (by simp) ?_)
        fun _ => .pure _
      rw [Address.depth_child]
      exact hlevel

end Elements

/-- Attributes that the construct does not declare for the parent, none of them deeper than below
the parent unless the construct is an attribute itself; then it may be any other address too. -/
structure Untouched (scope : Scope) (parent : Address) (construct : Construct) (address : Address) :
    Prop where
  undeclared : ∀ name, scope.set.Declares scope.namespaces construct name →
    address ≠ parent.attr name
  within : construct.isAttribute = true ∨
    address.isAttribute = true ∧ address.depth ≤ parent.depth + 1

theorem Untouched.member {construct : Construct} {address : Address}
    (h : Untouched scope parent construct address) {outer : Option CompositorContext}
    {first : Path} {middle : Placed}
    (hmember : (first, middle) ∈ scope.set.opened ⟨outer, construct⟩)
    (hattribute : construct.isAttribute = true → middle.construct.isAttribute = true) :
    Untouched scope parent middle.construct address :=
  ⟨fun name hdeclares => h.undeclared name (hdeclares.of_opened hmember),
    h.within.imp_left hattribute⟩

section Members

variable {walk : ContentWalk} {construct : Construct}
  (hwalk : ∀ path parent context construct, Spares (Untouched scope parent construct)
    (walk path parent context construct))

include hwalk

/-- What a construct consists of touches no more than the construct. -/
theorem spares_members (first : Path) (inner : Option CompositorContext) {members : List Construct}
    (context : Option CompositorContext)
    (hopened : ∀ member ∈ members, (first, ⟨inner, member⟩) ∈ scope.set.opened ⟨none, construct⟩)
    (hattribute : construct.isAttribute = true → ∀ member ∈ members, member.isAttribute = true) :
    Spares (Untouched scope parent construct) (walkAll (walk path parent context) members) :=
  spares_walkAll fun member hmember => (hwalk _ _ _ _).mono fun _ hspared =>
    hspared.member (hopened member hmember) fun h => hattribute h member hmember

theorem spares_walkDerivation {method : DerivationMethod} {base : TypeRef}
    {children : List Construct} (hother : construct.isAttribute = true → False)
    (hopened : scope.set.opened ⟨none, construct⟩ = scope.set.inherited method base ++
      children.map fun child => (⟨[], []⟩, ⟨none, child⟩)) :
    Spares (Untouched scope parent construct)
      (walkDerivation scope walk path parent method base children) := by
  have hown : Spares (Untouched scope parent construct)
      (walkAll (walk path parent none) children) := by
    refine spares_members hwalk ⟨[], []⟩ none none (fun member hmember => ?_) fun h =>
      (hother h).elim
    rw [hopened]
    exact List.mem_append_right _ (List.mem_map.mpr ⟨member, hmember, rfl⟩)
  cases method with
  | restriction => exact .bind (.pure _) fun _ => .bind hown fun _ => .pure _
  | extension =>
    refine .bind ?_ fun _ => .bind hown fun _ => .pure _
    unfold walkBase
    split
    · exact .pure _
    · rename_i type htype
      split
      · exact .pure _
      · rename_i complex hcomplex
        split
        · exact .pure _
        · refine spares_members hwalk (.ofType type) none none (fun member hmember => ?_) fun h =>
            (hother h).elim
          rw [hopened]
          refine List.mem_append_left _ (SchemaSet.mem_inherited.mpr ?_)
          exact ⟨rfl, type, complex, member, htype, hcomplex, hmember, rfl, rfl⟩

end Members

/-- The walk of a construct describes nothing else than it declares and what is below elements. -/
theorem spares_walkConstruct (hgroups : scope.set.GroupsAttributes) (depth : Nat) :
    ∀ path parent context construct, Spares (Untouched scope parent construct)
      (walkConstruct scope depth path parent context construct) := by
  induction depth with
  | zero => exact fun _ _ _ _ => spares_giveUp _ _
  | succ depth ih =>
    intro path parent context construct
    cases construct with
    | attributeUse use =>
      refine spares_walkAttribute fun name hname htype hspared => ?_
      exact hspared.undeclared name ⟨none, _, none, use, .itself _, hname, htype⟩ rfl
    | attributeGroup name =>
      show Spares _ (walkAttributeGroup scope (walkConstruct scope depth) path parent name)
      unfold walkAttributeGroup
      split
      · exact spares_giveUp _ _
      · rename_i group hgroup
        split
        · exact .pure _
        · refine spares_members ih (.ofGroup name) none none (fun member hmember => ?_) fun _ =>
            hgroups name group hgroup
          simp only [SchemaSet.opened, hgroup]
          exact List.mem_map.mpr ⟨member, hmember, rfl⟩
    | simpleContent method base children => exact spares_walkDerivation ih Bool.false_ne_true rfl
    | complexContent method base children => exact spares_walkDerivation ih Bool.false_ne_true rfl
    | compositor kind occurs children =>
      exact spares_members ih ⟨[], []⟩ (some ⟨kind, occurs, children.length = 1⟩) _
        (fun member hmember => List.mem_map.mpr ⟨member, hmember, rfl⟩)
        fun h => absurd h Bool.false_ne_true
    | group name occurs =>
      show Spares _ (walkModelGroup scope (walkConstruct scope depth) path parent name occurs)
      unfold walkModelGroup
      split
      · exact spares_giveUp _ _
      · rename_i group hgroup
        split
        · exact .pure _
        · refine spares_members ih (.ofGroup name) (some (groupContext group occurs)) _
            (fun member hmember => ?_) fun h => absurd h Bool.false_ne_true
          simp only [SchemaSet.opened, hgroup]
          exact List.mem_map.mpr ⟨member, hmember, rfl⟩
    | element reference occurs =>
      refine spares_walkParticle (fun address hspared => ?_)
        (fun path lower context construct hlower => ?_) reference occurs context (Nat.le_refl _)
      · exact (hspared.within.resolve_left Bool.false_ne_true).1
      · refine (ih path lower context construct).mono fun address hspared => ?_
        obtain ⟨hattribute, hdepth⟩ := hspared.within.resolve_left Bool.false_ne_true
        refine ⟨fun name _ heq => ?_, .inr ⟨hattribute, by omega⟩⟩
        rw [heq, Address.depth_attr] at hdepth
        omega
    | wildcard occurs =>
      refine spares_walkWildcard (fun address hspared => ?_) parent occurs context
      exact (hspared.within.resolve_left Bool.false_ne_true).1
    | other tag => exact .pure _

end Index

end SchemaForms
