import SchemaForms.Proofs.Index.Walking

/-!
The walk adds what it should. Whatever a construct consists of, a walk of the construct makes the
addresses known that are named along ways which its path admits, and answers addresses right below
the element. A walk of an element makes the address of the element known, describes its content with
a type less to enter, and then the elements that may stand in for it, of which each call leaves
fewer.
-/

namespace SchemaForms.Index

variable {scope : Scope} {roots : List ExpandedName} {visits later : List Visit}

section Answers

variable {parent : Address} {walk : ContentWalk} {path : Path}

/-- Whatever is known, the walk answers addresses right below the parent. -/
def Answers (parent : Address) (walk : Walk (List Address)) : Prop :=
  ∀ progress, ∀ child ∈ (walk.run progress).1, RightBelow parent child

theorem Answers.pure {children : List Address} (h : ∀ child ∈ children, RightBelow parent child) :
    Answers parent (Pure.pure children) :=
  fun _ => h

theorem Answers.one {address : Address} (h : RightBelow parent address) :
    Answers parent (Pure.pure [address]) :=
  .pure fun _ hchild => List.mem_singleton.mp hchild ▸ h

theorem Answers.after {α : Type} {first : Walk α} {next : α → Walk (List Address)}
    (h : ∀ value, Answers parent (next value)) : Answers parent (first >>= next) :=
  fun progress => h (first.run progress).1 (first.run progress).2

theorem Answers.join {first second : Walk (List Address)} (hfirst : Answers parent first)
    (hsecond : Answers parent second) :
    Answers parent (do let left ← first; let right ← second; return left ++ right) := by
  intro progress child hchild
  rcases List.mem_append.mp hchild with hleft | hright
  · exact hfirst progress child hleft
  · exact hsecond (first.run progress).2 child hright

theorem answers_walkAll {walk : Construct → Walk (List Address)}
    (h : ∀ construct, Answers parent (walk construct)) (constructs : List Construct) :
    Answers parent (walkAll walk constructs) := by
  induction constructs with
  | nil => exact .pure (by simp)
  | cons first others ih => exact .join (h first) ih

/-- A content walk that answers addresses right below the parent, inside every path. -/
def AnswersBelow (walk : ContentWalk) : Prop :=
  ∀ path parent context construct, Answers parent (walk path parent context construct)

theorem answers_walkAttribute (use : AttributeDeclaration) :
    Answers parent (walkAttribute scope parent use) := by
  unfold walkAttribute
  split
  · exact .after fun _ => .pure (by simp)
  · split
    · exact .after fun _ => .pure (by simp)
    · refine .after fun isKnown => ?_
      split
      · exact .pure (by simp)
      · exact .after fun _ => .one (rightBelow_attr _ _)

theorem answers_walkWildcard (occurs : Occurs) (context : Option CompositorContext) :
    Answers parent (walkWildcard scope parent occurs context) := by
  unfold walkWildcard
  split
  · exact .pure (by simp)
  · refine .after fun isKnown => ?_
    split
    · exact .pure (by simp)
    · exact .after fun _ => .one (rightBelow_child _ _)

theorem answers_walkParticle (reference : ElementRef) (occurs : Occurs)
    (context : Option CompositorContext) :
    Answers parent (walkParticle scope walk path parent reference occurs context) := by
  unfold walkParticle
  split
  · exact .after fun _ => .pure (by simp)
  · split
    · exact .after fun _ => .pure (by simp)
    · exact .after fun _ => .one (rightBelow_child _ _)

variable (hwalk : AnswersBelow walk)

include hwalk

theorem answers_walkDerivation (method : DerivationMethod) (base : TypeRef)
    (children : List Construct) :
    Answers parent (walkDerivation scope walk path parent method base children) := by
  have hown := answers_walkAll (hwalk path parent none) children
  have hbase : Answers parent (walkBase scope walk path parent base) := by
    unfold walkBase
    split
    · exact .pure (by simp)
    · split
      · exact .pure (by simp)
      · split
        · exact .pure (by simp)
        · exact answers_walkAll (hwalk _ _ _) _
  cases method with
  | extension => exact .join hbase hown
  | restriction => exact .join (.pure (by simp)) hown

theorem answers_walkAttributeGroup (name : ExpandedName) :
    Answers parent (walkAttributeGroup scope walk path parent name) := by
  unfold walkAttributeGroup
  split
  · exact .after fun _ => .pure (by simp)
  · split
    · exact .pure (by simp)
    · exact answers_walkAll (hwalk _ _ _) _

theorem answers_walkModelGroup (name : ExpandedName) (occurs : Occurs) :
    Answers parent (walkModelGroup scope walk path parent name occurs) := by
  unfold walkModelGroup
  split
  · exact .after fun _ => .pure (by simp)
  · split
    · exact .pure (by simp)
    · exact answers_walkAll (hwalk _ _ _) _

omit hwalk

theorem answersBelow_walkConstruct (scope : Scope) (depth : Nat) :
    AnswersBelow (walkConstruct scope depth) := by
  induction depth with
  | zero => exact fun _ _ _ _ => .after fun _ => .pure (by simp)
  | succ depth ih =>
    intro path parent context construct
    cases construct with
    | attributeUse use => exact answers_walkAttribute use
    | attributeGroup name => exact answers_walkAttributeGroup ih name
    | simpleContent method base children => exact answers_walkDerivation ih method base children
    | complexContent method base children => exact answers_walkDerivation ih method base children
    | compositor kind occurs children => exact answers_walkAll (ih _ _ _) children
    | group name occurs => exact answers_walkModelGroup ih name occurs
    | element reference occurs => exact answers_walkParticle reference occurs context
    | wildcard occurs => exact answers_walkWildcard occurs context
    | other tag => exact .pure (by simp)

end Answers

/-- Everything below a construct that a walk inside the path comes to has a known address. -/
def Covers (scope : Scope) (parent : Address) (path : Path) (placed : Placed)
    (visits : List Visit) : Prop :=
  ∀ entered found address, scope.set.Inlines placed entered found → path.Admits entered →
    Names scope parent found.construct address → address ∈ addresses visits

theorem Covers.append {parent : Address} {path : Path} {placed : Placed}
    (h : Covers scope parent path placed visits) :
    Covers scope parent path placed (visits ++ later) :=
  fun entered found address hinlines hadmits hnames =>
    mem_addresses_append (h entered found address hinlines hadmits hnames)

/-- A construct is covered when its own address is known, if it names one, and what it consists of
is covered. -/
theorem covers_of_opened {parent : Address} {path : Path} {placed : Placed}
    (hitself : ∀ address, Names scope parent placed.construct address → address ∈ addresses visits)
    (hopened : ∀ first middle, (first, middle) ∈ scope.set.opened placed → path.Admits first →
      Covers scope parent (first.append path) middle visits) :
    Covers scope parent path placed visits := by
  intro entered found address hinlines hadmits hnames
  cases hinlines with
  | itself => exact hitself address hnames
  | opened hmem hfound =>
    obtain ⟨hfirst, hrest⟩ := Path.admits_append.mp hadmits
    exact hopened _ _ hmem hfirst _ _ _ hfound hrest hnames

/-- To that depth a walk covers what the content of an element holds. -/
structure Reliable (scope : Scope) (roots : List ExpandedName) (walk : ContentWalk)
    (depth : Nat) : Prop where
  adds : ∀ visits within path placed, within ∈ visits → within.Holds scope path placed →
    room scope.set path + placed.construct.height ≤ depth →
      Adds scope roots visits (walk path within.node.address placed.compositor placed.construct)
        (Covers scope within.node.address path placed)
  below : AnswersBelow walk

section Opened

variable {walk : ContentWalk} {depth : Nat} {within : Visit} {path first : Path}
  {placed : Placed} {context : Option CompositorContext} {constructs : List Construct}

/-- What is opened from a construct is walked with enough depth left. -/
theorem adds_walkAll_opened (first : Path) (context : Option CompositorContext)
    (hwalk : Reliable scope roots walk depth) (hwithin : within ∈ visits)
    (hholds : within.Holds scope path placed)
    (hdepth : room scope.set path + placed.construct.height ≤ depth + 1)
    (hadmits : path.Admits first)
    (hopened : ∀ construct ∈ constructs, (first, ⟨context, construct⟩) ∈ scope.set.opened placed) :
    Adds scope roots visits
      (walkAll (walk (first.append path) within.node.address context) constructs)
      fun after => ∀ construct ∈ constructs,
        Covers scope within.node.address (first.append path) ⟨context, construct⟩ after := by
  refine .walkAll (fun _ _ _ h => h.append) fun construct hconstruct more => ?_
  refine .of_history fun hhistory => ?_
  have hmem := hopened construct hconstruct
  have hwithin' : within ∈ visits ++ more := List.mem_append_left _ hwithin
  have hinlines : scope.set.Inlines placed first ⟨context, construct⟩ :=
    SchemaSet.inlines_of_opened hmem
  have hinner := hholds.trans hinlines hadmits
  refine hwalk.adds _ within _ ⟨context, construct⟩ hwithin' hinner ?_
  rcases (SchemaSet.declared_of_opened hmem).2 with ⟨rfl, hheight⟩ | ⟨hsize, hheight⟩
  · rw [Path.empty_append]
    simp only at hheight ⊢
    omega
  · have hroom := room_append (hinner.path_sound (hhistory.sound within hwithin')) hsize
    have hpos := Construct.height_pos placed.construct
    simp only at hheight ⊢
    omega

/-- What a derivation inherits is covered, unless the walk is inside the base already. -/
theorem adds_walkBase {base : TypeRef} (hwalk : Reliable scope roots walk depth)
    (hwithin : within ∈ visits) (hholds : within.Holds scope path placed)
    (hdepth : room scope.set path + placed.construct.height ≤ depth + 1)
    (hopened : scope.set.inherited .extension base ⊆ scope.set.opened placed) :
    Adds scope roots visits (walkBase scope walk path within.node.address base)
      fun after => ∀ first middle, (first, middle) ∈ scope.set.inherited .extension base →
        path.Admits first → Covers scope within.node.address (first.append path) middle after := by
  have hcovers : ∀ after, (∀ type complex construct, scope.set.types.resolve? base = some type →
      (scope.set.types.definition type).complex? = some complex → construct ∈ complex.content →
        type ∉ path.types → Covers scope within.node.address ((Path.ofType type).append path)
          ⟨none, construct⟩ after) →
      ∀ first middle, (first, middle) ∈ scope.set.inherited .extension base →
        path.Admits first →
          Covers scope within.node.address (first.append path) middle after := by
    intro after hafter first middle hmem hadmits
    obtain ⟨-, type, complex, construct, htype, hcomplex, hconstruct, rfl, rfl⟩ :=
      SchemaSet.mem_inherited.mp hmem
    exact hafter type complex construct htype hcomplex hconstruct (Path.admits_ofType.mp hadmits)
  unfold walkBase
  split
  case h_1 hnone => exact .pure (hcovers _ (by simp [hnone]))
  case h_2 type htype =>
    split
    case h_1 hnone =>
      refine .pure (hcovers _ fun other complex _ hother hcomplex => ?_)
      obtain rfl := Option.some.inj (htype.symm.trans hother)
      simp [hnone] at hcomplex
    case h_2 complex hcomplex =>
      split
      case isTrue hinside =>
        refine .pure (hcovers _ fun other _ _ hother _ _ hnew => ?_)
        obtain rfl := Option.some.inj (htype.symm.trans hother)
        exact absurd hinside hnew
      case isFalse hnew =>
        refine .mono (adds_walkAll_opened (.ofType type) none hwalk hwithin hholds hdepth
          (Path.admits_ofType.mpr hnew) fun construct hconstruct =>
            hopened (SchemaSet.mem_inherited.mpr
              ⟨rfl, type, complex, construct, htype, hcomplex, hconstruct, rfl, rfl⟩))
          fun more hall => hcovers _ fun other found construct hother hfound hconstruct _ => ?_
        obtain rfl := Option.some.inj (htype.symm.trans hother)
        obtain rfl := Option.some.inj (hcomplex.symm.trans hfound)
        exact hall construct hconstruct

theorem adds_walkDerivation {method : DerivationMethod} {base : TypeRef}
    {children : List Construct} (hwalk : Reliable scope roots walk depth)
    (hwithin : within ∈ visits) (hholds : within.Holds scope path placed)
    (hdepth : room scope.set path + placed.construct.height ≤ depth + 1)
    (hopened : scope.set.opened placed = scope.set.inherited method base ++
      children.map fun child => (⟨[], []⟩, ⟨none, child⟩))
    (hitself : ∀ address, ¬ Names scope within.node.address placed.construct address) :
    Adds scope roots visits
      (walkDerivation scope walk path within.node.address method base children)
      (Covers scope within.node.address path placed) := by
  have hown : ∀ inherited more, (∀ first middle, (first, middle) ∈ scope.set.inherited method base →
      path.Admits first →
        Covers scope within.node.address (first.append path) middle (visits ++ more)) →
      Adds scope roots (visits ++ more)
        (do let own ← walkAll (walk path within.node.address none) children
            return inherited ++ own)
        (Covers scope within.node.address path placed) := by
    intro inherited more hinherited
    refine .bind (adds_walkAll_opened ⟨[], []⟩ none hwalk (List.mem_append_left _ hwithin) hholds
      hdepth (Path.admits_empty _) fun construct hconstruct => ?_)
        fun _ later hown => .pure (covers_of_opened (fun address h => (hitself address h).elim) ?_)
    · rw [hopened]
      exact List.mem_append_right _ (List.mem_map.mpr ⟨construct, hconstruct, rfl⟩)
    · intro first middle hmem hadmits
      rw [hopened] at hmem
      rcases List.mem_append.mp hmem with h | h
      · exact (hinherited first middle h hadmits).append
      · obtain ⟨child, hchild, heq⟩ := List.mem_map.mp h
        obtain ⟨rfl, rfl⟩ := Prod.mk.inj heq
        exact hown child hchild
  unfold walkDerivation
  cases method with
  | extension =>
    exact .bind (adds_walkBase hwalk hwithin hholds hdepth
      (hopened ▸ List.subset_append_left _ _)) hown
  | restriction =>
    refine .bind (P := fun _ => True) (.pure trivial) fun inherited more _ => ?_
    exact hown inherited more (by simp [SchemaSet.inherited])

/-- What a group consists of is covered, unless the walk is inside a group of that name already. -/
theorem adds_walkGroup {name : ExpandedName} {constructs : List Construct}
    (hwalk : Reliable scope roots walk depth) (hwithin : within ∈ visits)
    (hholds : within.Holds scope path placed)
    (hdepth : room scope.set path + placed.construct.height ≤ depth + 1)
    (hopened : scope.set.opened placed =
      constructs.map fun child => (.ofGroup name, ⟨context, child⟩))
    (hitself : ∀ address, ¬ Names scope within.node.address placed.construct address) :
    Adds scope roots visits
      (if name ∈ path.groups then pure []
        else walkAll (walk { path with groups := name :: path.groups } within.node.address context)
          constructs)
      (Covers scope within.node.address path placed) := by
  have hcovers : ∀ after, (∀ child ∈ constructs, name ∉ path.groups →
      Covers scope within.node.address ((Path.ofGroup name).append path) ⟨context, child⟩ after) →
      Covers scope within.node.address path placed after := by
    intro after hafter
    refine covers_of_opened (fun address h => absurd h (hitself address)) ?_
    intro first middle hmem hadmits
    rw [hopened] at hmem
    obtain ⟨child, hchild, heq⟩ := List.mem_map.mp hmem
    obtain ⟨rfl, rfl⟩ := Prod.mk.inj heq
    exact hafter child hchild (Path.admits_ofGroup.mp hadmits)
  split
  case isTrue hinside => exact .pure (hcovers _ fun _ _ hnew => absurd hinside hnew)
  case isFalse hnew =>
    refine .mono (adds_walkAll_opened (.ofGroup name) context hwalk hwithin hholds hdepth
      (Path.admits_ofGroup.mpr hnew) fun child hchild => ?_)
      fun more hall => hcovers _ fun child hchild _ => hall child hchild
    rw [hopened]
    exact List.mem_map.mpr ⟨child, hchild, rfl⟩

theorem adds_walkAttributeGroup {name : ExpandedName} (hwalk : Reliable scope roots walk depth)
    (hwithin : within ∈ visits)
    (hholds : within.Holds scope path ⟨context, .attributeGroup name⟩)
    (hdepth : room scope.set path + 1 ≤ depth + 1) :
    Adds scope roots visits (walkAttributeGroup scope walk path within.node.address name)
      (Covers scope within.node.address path ⟨context, .attributeGroup name⟩) := by
  have hitself : ∀ address, ¬ Names scope within.node.address (.attributeGroup name) address :=
    fun _ hnames => by cases hnames
  unfold walkAttributeGroup
  split
  case h_1 hnone =>
    exact .giveUp (by simp) (covers_of_opened (fun address h => absurd h (hitself address))
      (by simp [SchemaSet.opened, hnone]))
  case h_2 group hgroup =>
    exact adds_walkGroup hwalk hwithin hholds hdepth (by simp [SchemaSet.opened, hgroup]) hitself

theorem adds_walkModelGroup {name : ExpandedName} {occurs : Occurs}
    (hwalk : Reliable scope roots walk depth) (hwithin : within ∈ visits)
    (hholds : within.Holds scope path ⟨context, .group name occurs⟩)
    (hdepth : room scope.set path + 1 ≤ depth + 1) :
    Adds scope roots visits (walkModelGroup scope walk path within.node.address name occurs)
      (Covers scope within.node.address path ⟨context, .group name occurs⟩) := by
  have hitself : ∀ address, ¬ Names scope within.node.address (.group name occurs) address :=
    fun _ hnames => by cases hnames
  unfold walkModelGroup
  split
  case h_1 hnone =>
    exact .giveUp (by simp) (covers_of_opened (fun address h => absurd h (hitself address))
      (by simp [SchemaSet.opened, hnone]))
  case h_2 group hgroup =>
    exact adds_walkGroup hwalk hwithin hholds hdepth
      (by simp [SchemaSet.opened, hgroup, groupContext]) hitself

end Opened

section Leaf

variable {within : Visit} {path : Path} {context : Option CompositorContext}

/-- Nothing follows from attributes and wildcards. -/
theorem complete_of_not_element {visit : Visit} (h : visit.node.kind ≠ .element) :
    visit.Complete scope visits :=
  ⟨fun _ _ _ hholds => absurd hholds.element h, fun helement => absurd helement h⟩

theorem adds_walkAttribute {use : AttributeDeclaration} (hwithin : within ∈ visits)
    (hholds : within.Holds scope path ⟨context, .attributeUse use⟩) :
    Adds scope roots visits (walkAttribute scope within.node.address use)
      (Covers scope within.node.address path ⟨context, .attributeUse use⟩) := by
  unfold walkAttribute
  split
  case h_1 error hname =>
    refine .giveUp (by simp) (covers_of_opened ?_ (by simp [SchemaSet.opened]))
    intro address hnames
    cases hnames with
    | attributeUse hother htype => simp [hname] at hother
  case h_2 name hname =>
    have hcovers : ∀ after, ((scope.set.attributeType? use).isSome →
        within.node.address.attr name ∈ addresses after) →
        Covers scope within.node.address path ⟨context, .attributeUse use⟩ after := by
      intro after hafter
      refine covers_of_opened ?_ (by simp [SchemaSet.opened])
      intro address hnames
      cases hnames with
      | attributeUse hother htype =>
        obtain rfl := Except.ok.inj (hname.symm.trans hother)
        exact hafter (by simp [htype])
    split
    case h_1 htype => exact .giveUp (by simp) (hcovers _ (by simp [htype]))
    case h_2 type htype =>
      refine .isKnown (fun hknown => .pure (hcovers _ fun _ => hknown)) fun hnew => ?_
      refine .visit ⟨attributeNode _ use type, path⟩
        (.attributeUse hwithin hholds hname htype) hnew (.pure ⟨?_, hcovers _ fun _ => ?_⟩)
      · exact complete_of_not_element (by simp [attributeNode])
      · simp [addresses, attributeNode]

theorem adds_walkWildcard {occurs : Occurs} (hwithin : within ∈ visits)
    (hholds : within.Holds scope path ⟨context, .wildcard occurs⟩) :
    Adds scope roots visits (walkWildcard scope within.node.address occurs context)
      (Covers scope within.node.address path ⟨context, .wildcard occurs⟩) := by
  have hcovers : ∀ after, ((scope.set.types.namedType? (schemaName "anyType")).isSome →
      within.node.address.child scope.set.wildcardName ∈ addresses after) →
      Covers scope within.node.address path ⟨context, .wildcard occurs⟩ after := by
    intro after hafter
    refine covers_of_opened ?_ (by simp [SchemaSet.opened])
    intro address hnames
    cases hnames with
    | wildcard htype => exact hafter (by simp [htype])
  unfold walkWildcard
  split
  case h_1 htype => exact .pure (hcovers _ (by simp [htype]))
  case h_2 type htype =>
    refine .isKnown (fun hknown => .pure (hcovers _ fun _ => hknown)) fun hnew => ?_
    refine .visit ⟨wildcardNode _ type occurs context, path⟩
      (.wildcard hwithin hholds htype) hnew (.pure ⟨?_, hcovers _ fun _ => ?_⟩)
    · exact complete_of_not_element (by simp [wildcardNode])
    · simp [addresses, wildcardNode]

end Leaf

section Element

/-- The global elements that a walk may still describe below a parent. -/
def pending (scope : Scope) (parent : Address) (known : List Address) : List ExpandedName :=
  (scope.set.elements.map Prod.fst).filter fun name =>
    parent.child (scope.namespaces.prefixedName name) ∉ known

theorem pending_length_le {parent : Address} {known : List Address} :
    (pending scope parent known).length ≤ scope.set.elements.length := by
  have h := List.length_filter_le (fun name =>
    decide (parent.child (scope.namespaces.prefixedName name) ∉ known))
      (scope.set.elements.map Prod.fst)
  simpa [pending] using h

theorem pending_eq_filter {parent : Address} {known later : List Address}
    (hsubset : known ⊆ later) : pending scope parent later =
      (pending scope parent known).filter fun name =>
        parent.child (scope.namespaces.prefixedName name) ∉ later := by
  rw [pending, pending, List.filter_filter]
  refine List.filter_congr fun other _ => ?_
  by_cases hother : parent.child (scope.namespaces.prefixedName other) ∈ later
  · simp [hother]
  · have hnew : parent.child (scope.namespaces.prefixedName other) ∉ known :=
      fun h => hother (hsubset h)
    simp [hother, hnew]

theorem pending_length_anti (scope : Scope) (parent : Address) {known later : List Address}
    (hsubset : known ⊆ later) :
    (pending scope parent later).length ≤ (pending scope parent known).length := by
  rw [pending_eq_filter hsubset]
  exact List.length_filter_le _ _

/-- Describing one of them leaves fewer. -/
theorem pending_length_lt {parent : Address} {known : List Address} {name : ExpandedName}
    (hname : name ∈ pending scope parent known) (later : List Address) (hsubset : known ⊆ later)
    (hlater : parent.child (scope.namespaces.prefixedName name) ∈ later) :
    (pending scope parent later).length < (pending scope parent known).length := by
  rw [pending_eq_filter hsubset, List.length_filter_lt_length_iff_exists]
  exact ⟨name, hname, by simpa using hlater⟩

theorem exists_of_mem_standIns {head : ExpandedName} {name : PrefixedName}
    {member : ElementDeclaration} (h : (name, member) ∈ standIns scope head) :
    ∃ declared, (declared, member) ∈ scope.set.elements ∧
      name = scope.namespaces.prefixedName declared := by
  obtain ⟨declared, -, hdeclared⟩ := List.mem_filterMap.mp h
  obtain ⟨found, hfound, heq⟩ := Option.map_eq_some_iff.mp hdeclared
  obtain ⟨rfl, rfl⟩ := Prod.mk.inj heq
  exact ⟨declared, mem_of_lookup hfound, rfl⟩

variable {walk : ContentWalk} {depth : Nat}

/-- The content of a described element is walked, unless it is not there or the element is
recursive; then nothing is held by it. -/
theorem adds_content (hwalk : Reliable scope roots walk depth) {visit : Visit}
    {complex : ComplexType} (hvisit : visit ∈ visits) (helement : visit.node.kind = .element)
    (hexpanded : visit.node.isRecursive = false)
    (hcomplex : (scope.set.types.definition visit.node.type).complex? = some complex)
    (hroom : room scope.set visit.path ≤ depth) :
    Adds scope roots visits (walkAll (walk visit.inner visit.node.address none) complex.content)
      (visit.ContentKnown scope) := by
  refine .of_history fun hhistory => ?_
  have hinner := (hhistory.sound visit hvisit).inner helement hexpanded hcomplex
  have hleft := room_append hinner rfl
  refine .mono (.walkAll (P := fun construct =>
      Covers scope visit.node.address visit.inner ⟨none, construct⟩)
    (fun _ _ _ h => h.append) fun construct hconstruct more => ?_) fun more hcovers => ?_
  · have hheight := Nat.le_trans (Construct.height_le_heights hconstruct)
      (SchemaSet.heights_content_le hcomplex)
    refine hwalk.adds _ visit visit.inner ⟨none, construct⟩ (List.mem_append_left _ hvisit) ?_ ?_
    · exact ⟨helement, hexpanded, complex, construct, ⟨[], []⟩, hcomplex, hconstruct, .itself _,
        Path.admits_empty _, by simp⟩
    · simp only [Visit.inner] at hleft ⊢
      omega
  · intro path placed address hholds hnames
    obtain ⟨_, construct, entered, hother, hconstruct, hinlines, hadmits, rfl⟩ := hholds.content
    obtain rfl := Option.some.inj (hcomplex.symm.trans hother)
    exact hcovers construct hconstruct entered placed address hinlines hadmits hnames

/-- A walk of an element makes its address known, if so many elements may still be described beside
it. -/
def Describes (scope : Scope) (roots : List ExpandedName) (walk : ContentWalk) (depth fuel : Nat) :
    Prop :=
  ∀ visits path address declaration occurs compositor,
    (∀ type, scope.set.types.resolve? declaration.type = some type → Follows scope roots visits
      ⟨elementNode scope path address declaration type occurs compositor, path⟩) →
    room scope.set path ≤ depth → 0 < fuel →
    (∀ parent, address.parent? = some parent → address ∉ addresses visits →
      (pending scope parent (address :: addresses visits)).length + 2 ≤ fuel) →
    Adds scope roots visits
      (walkElement scope walk fuel path address declaration occurs compositor)
      fun after => (scope.set.types.resolve? declaration.type).isSome → address ∈ addresses after

/-- The elements that may stand in for a described one are described. -/
theorem adds_standIns {fuel : Nat} (hdescribes : Describes scope roots walk depth fuel)
    {head : Visit} {parent : Address} (hhead : head ∈ visits) (helement : head.node.kind = .element)
    (hparent : head.node.address.parent? = some parent) (hroom : room scope.set head.path ≤ depth)
    (hfuel : (pending scope parent (addresses visits)).length + 1 ≤ fuel) :
    Adds scope roots visits
      ((standIns scope head.node.name).forM fun (name, member) =>
        walkElement scope walk fuel head.path (parent.child name) member head.node.occurs
          head.node.compositor)
      fun after => ∀ standIn ∈ standIns scope head.node.name,
        (scope.set.types.resolve? standIn.2.type).isSome →
          parent.child standIn.1 ∈ addresses after := by
  refine .forM (fun _ _ _ h hsome => mem_addresses_append (h hsome)) ?_
  rintro ⟨name, member⟩ hmember more
  refine hdescribes _ _ _ _ _ _ (fun type htype => ?_) hroom (by omega) fun other hother hnew => ?_
  · exact .standIn (List.mem_append_left _ hhead) helement hparent hmember htype
  · obtain ⟨hne, -⟩ := Address.segments_of_parent? hparent
    obtain rfl := Option.some.inj ((Address.parent?_child _ _ hne).symm.trans hother)
    obtain ⟨declared, hdeclared, rfl⟩ := exists_of_mem_standIns hmember
    have hpending : declared ∈ pending scope parent (addresses visits) := by
      refine List.mem_filter.mpr ⟨List.mem_map.mpr ⟨_, hdeclared, rfl⟩, ?_⟩
      simpa using fun h => hnew (mem_addresses_append h)
    have hlt := pending_length_lt hpending
      (parent.child (scope.namespaces.prefixedName declared) :: addresses (visits ++ more))
      (fun _ h => List.mem_cons_of_mem _ (mem_addresses_append h)) List.mem_cons_self
    omega

/-- A described element whose content is known is complete after what may stand in for it. -/
theorem adds_beside {fuel : Nat} (hdescribes : Describes scope roots walk depth fuel)
    {visit : Visit} (hvisit : visit ∈ visits) (helement : visit.node.kind = .element)
    (hcontent : visit.ContentKnown scope visits) (hroom : room scope.set visit.path ≤ depth)
    (hfuel : ∀ parent, visit.node.address.parent? = some parent →
      (pending scope parent (addresses visits)).length + 1 ≤ fuel) :
    Adds scope roots visits
      (match visit.node.address.parent? with
        | none => pure ()
        | some parent => (standIns scope visit.node.name).forM fun (name, member) =>
            walkElement scope walk fuel visit.path (parent.child name) member visit.node.occurs
              visit.node.compositor)
      (visit.Complete scope) := by
  cases hparent : visit.node.address.parent? with
  | none =>
    refine .pure ⟨hcontent, fun _ parent _ _ _ hother => ?_⟩
    simp [hparent] at hother
  | some parent =>
    refine .mono (adds_standIns hdescribes hvisit helement hparent hroom (hfuel parent hparent))
      fun later hstandIns => ⟨hcontent.append, ?_⟩
    intro _ other name member type hother hmember htype
    obtain rfl := Option.some.inj (hparent.symm.trans hother)
    exact hstandIns (name, member) hmember (by simp [htype])

theorem describes (hwalk : Reliable scope roots walk depth) (fuel : Nat) :
    Describes scope roots walk depth fuel := by
  induction fuel with
  | zero =>
    intro visits path address declaration occurs compositor _ _ hpos
    omega
  | succ fuel ih =>
    intro visits path address declaration occurs compositor hfollows hroom _ hfuel
    unfold walkElement
    refine .isKnown (fun hknown => .pure fun _ => hknown) fun hnew => ?_
    simp only [Bool.false_eq_true, if_false]
    cases htype : scope.set.types.resolve? declaration.type with
    | none => exact .warn (by simp) (by simp)
    | some type =>
      let visit : Visit :=
        ⟨elementNode scope path address declaration type occurs compositor, path⟩
      refine .visit visit (hfollows type htype) hnew ?_
      have hmem : ∀ more, visit ∈ visits ++ [visit] ++ more := by simp
      have haddress : ∀ more, address ∈ addresses (visits ++ [visit] ++ more) :=
        fun more => List.mem_map.mpr ⟨visit, hmem more, rfl⟩
      have hpending : ∀ more parent, address.parent? = some parent →
          (pending scope parent (addresses (visits ++ [visit] ++ more))).length + 1 ≤ fuel := by
        intro more parent hparent
        have hleft := hfuel parent hparent hnew
        have hknown : address :: addresses visits ⊆ addresses (visits ++ [visit] ++ more) := by
          refine List.cons_subset.mpr ⟨haddress more, fun other hother => ?_⟩
          exact mem_addresses_append (mem_addresses_append hother)
        have hfewer := pending_length_anti scope parent hknown
        omega
      have hbeside := fun more hcontent =>
        adds_beside ih (hmem more) rfl hcontent hroom (hpending more)
      split
      case h_1 complex hcomplex hexpanded =>
        have hlast : visit ∈ visits ++ [visit] := by simp
        refine .bindAnswer (R := fun children => ∀ child ∈ children, RightBelow address child)
          (answers_walkAll (hwalk.below _ _ _) _)
          (adds_content hwalk hlast rfl hexpanded hcomplex hroom)
          fun children more hbelow hcontent => ?_
        refine .bind (P := visit.ContentKnown scope)
          (.setChildren (List.mem_append_left _ hlast) hexpanded hbelow hcontent)
          fun _ later hcontent => ?_
        rw [List.append_assoc] at hcontent ⊢
        exact .mono (hbeside _ hcontent) fun _ hcomplete =>
          ⟨hcomplete, fun _ => mem_addresses_append (haddress _)⟩
      case h_2 hnone =>
        have hcontent : visit.ContentKnown scope (visits ++ [visit] ++ []) := by
          intro path placed found hholds
          obtain ⟨complex, -, -, hcomplex, -⟩ := hholds.content
          exact (hnone complex hcomplex hholds.expanded).elim
        have hrest := hbeside [] hcontent
        rw [List.append_nil] at hrest
        exact .mono hrest fun _ hcomplete =>
          ⟨hcomplete, fun _ => mem_addresses_append (by simpa using haddress [])⟩

theorem adds_walkParticle {reference : ElementRef} {occurs : Occurs} {within : Visit} {path : Path}
    {context : Option CompositorContext} (hwalk : Reliable scope roots walk depth)
    (hwithin : within ∈ visits)
    (hholds : within.Holds scope path ⟨context, .element reference occurs⟩)
    (hroom : room scope.set path ≤ depth) :
    Adds scope roots visits
      (walkParticle scope walk path within.node.address reference occurs context)
      (Covers scope within.node.address path ⟨context, .element reference occurs⟩) := by
  unfold walkParticle
  split
  case h_1 error hname =>
    refine .giveUp (by simp) (covers_of_opened ?_ (by simp [SchemaSet.opened]))
    intro address hnames
    cases hnames with
    | element hother => simp [hname] at hother
  case h_2 name hname =>
    split
    case h_1 hnone =>
      refine .giveUp (by simp) (covers_of_opened ?_ (by simp [SchemaSet.opened]))
      intro address hnames
      cases hnames with
      | element _ hdeclaration => simp [hnone] at hdeclaration
    case h_2 declaration hdeclaration =>
      refine .bind (describes hwalk _ _ _ _ _ _ _ (fun type htype =>
        .element hwithin hholds hname hdeclaration htype) hroom (Nat.succ_pos _)
          fun parent _ _ => Nat.add_le_add_right pending_length_le 2) fun _ more hknown => .pure ?_
      refine covers_of_opened ?_ (by simp [SchemaSet.opened])
      intro address hnames
      cases hnames with
      | element hother hfound htype =>
        obtain rfl := Except.ok.inj (hname.symm.trans hother)
        obtain rfl := Option.some.inj (hdeclaration.symm.trans hfound)
        exact hknown (by simp [htype])

end Element

/-- The walk covers what it comes to, to whatever depth it goes. -/
theorem reliable_walkConstruct (depth : Nat) :
    Reliable scope roots (walkConstruct scope depth) depth := by
  refine ⟨?_, answersBelow_walkConstruct scope depth⟩
  induction depth with
  | zero =>
    intro visits within path placed _ _ hdepth
    have := Construct.height_pos placed.construct
    omega
  | succ depth hadds =>
    have ih : Reliable scope roots (walkConstruct scope depth) depth :=
      ⟨hadds, answersBelow_walkConstruct scope depth⟩
    rintro visits within path ⟨context, construct⟩ hwithin hholds hdepth
    have hroom : room scope.set path ≤ depth := by
      have := Construct.height_pos construct
      simp only at hdepth
      omega
    cases construct with
    | attributeUse use => exact adds_walkAttribute hwithin hholds
    | attributeGroup name => exact adds_walkAttributeGroup ih hwithin hholds hdepth
    | simpleContent method base children =>
      exact adds_walkDerivation ih hwithin hholds hdepth rfl fun _ hnames => by cases hnames
    | complexContent method base children =>
      exact adds_walkDerivation ih hwithin hholds hdepth rfl fun _ hnames => by cases hnames
    | compositor kind occurs children =>
      refine .mono (adds_walkAll_opened ⟨[], []⟩ (some ⟨kind, occurs, children.length = 1⟩) ih
        hwithin hholds hdepth (Path.admits_empty _)
          fun construct hconstruct => ?_) fun more hall => ?_
      · simp [SchemaSet.opened, hconstruct]
      · refine covers_of_opened (fun _ hnames => by cases hnames) ?_
        intro first middle hmem hadmits
        obtain ⟨child, hchild, heq⟩ := List.mem_map.mp hmem
        obtain ⟨rfl, rfl⟩ := Prod.mk.inj heq
        exact hall child hchild
    | group name occurs => exact adds_walkModelGroup ih hwithin hholds hdepth
    | element reference occurs => exact adds_walkParticle ih hwithin hholds hroom
    | wildcard occurs => exact adds_walkWildcard hwithin hholds
    | other tag =>
      exact .pure (covers_of_opened (fun _ hnames => by cases hnames)
        (by simp [SchemaSet.opened]))

end SchemaForms.Index
