import SchemaForms.Proofs.Compile.Rendering
import SchemaForms.Proofs.Index.Listing
import Mathlib.Logic.Relation

/-!
Compiling ends by itself. Every bound that is exhausted is an error, and every error on the way ends
in the log, so a log without such errors tells that no bound was ever reached. The levels of
addresses end because no node of the index lies deeper than the index is high. The nesting of
constructs ends because a group that does not reach itself is entered at most once inside a group,
and because derivations stand directly in a type, where the steps along the bases are counted.
Attribute groups are opened once each. Cycles of element types, of bases, of attribute groups or of
substitution groups do not matter.
-/

namespace SchemaForms

open Index

mutual

/-- The model groups that a construct refers to through compositors alone. -/
def Construct.groupsInside : Construct → List ExpandedName
  | .group name _ => [name]
  | .compositor _ _ children => Construct.groupsInsideAll children
  | _ => []

def Construct.groupsInsideAll : List Construct → List ExpandedName
  | [] => []
  | construct :: others => construct.groupsInside ++ Construct.groupsInsideAll others

end

mutual

/-- Whether a construct is a derivation or has one inside compositors. -/
def Construct.derives : Construct → Bool
  | .simpleContent .. => true
  | .complexContent .. => true
  | .compositor _ _ children => Construct.someDerives children
  | _ => false

def Construct.someDerives : List Construct → Bool
  | [] => false
  | construct :: others => construct.derives || Construct.someDerives others

end

/-- A derivation that holds no other one, or a construct without derivations. -/
def Construct.derivesOnTop : Construct → Bool
  | .simpleContent _ _ children => !Construct.someDerives children
  | .complexContent _ _ children => !Construct.someDerives children
  | construct => !construct.derives

namespace SchemaSet

/-- Simple and complex content stand directly in complex types only. -/
def derivesOnTop (set : SchemaSet) : Bool :=
  (set.types.definitions.all fun definition =>
    ((definition.complex?.map ComplexType.content).getD []).all Construct.derivesOnTop) &&
  set.modelGroups.all fun (_, group) => !Construct.someDerives group.children

/-- A model group refers to another, through compositors alone. -/
def GroupRefers (set : SchemaSet) (outer inner : ExpandedName) : Prop :=
  ∃ group, set.modelGroup? outer = some group ∧ inner ∈ Construct.groupsInsideAll group.children

/-- No model group reaches itself through compositors and references to groups alone. -/
def GroupsEnd (set : SchemaSet) : Prop :=
  ∀ name, ¬ Relation.TransGen set.GroupRefers name name

/-- Groups end when every reference leads to a group of a lower rank. -/
theorem groupsEnd_of_rank {set : SchemaSet} (rank : ExpandedName → Nat)
    (h : ∀ outer inner, set.GroupRefers outer inner → rank inner < rank outer) :
    set.GroupsEnd := by
  have hdescends : ∀ outer inner, Relation.TransGen set.GroupRefers outer inner →
      rank inner < rank outer := by
    intro outer inner hreaches
    induction hreaches with
    | single href => exact h _ _ href
    | tail hreaches href ih => exact Nat.lt_trans (h _ _ href) ih
  exact fun name hreaches => Nat.lt_irrefl _ (hdescends name name hreaches)

end SchemaSet

namespace Construct

variable {child : Construct} {children : List Construct}

theorem mem_groupsInsideAll {name : ExpandedName} (hchild : child ∈ children)
    (h : name ∈ child.groupsInside) : name ∈ groupsInsideAll children := by
  induction children with
  | nil => contradiction
  | cons first others ih =>
    rw [groupsInsideAll, List.mem_append]
    rcases List.mem_cons.mp hchild with rfl | hother
    · exact Or.inl h
    · exact Or.inr (ih hother)

theorem derives_of_mem (h : someDerives children = false) (hchild : child ∈ children) :
    child.derives = false := by
  induction children with
  | nil => contradiction
  | cons first others ih =>
    rw [someDerives, Bool.or_eq_false_iff] at h
    rcases List.mem_cons.mp hchild with rfl | hother
    · exact h.1
    · exact ih h.2 hother

end Construct

/-- The first derivation in the content of a type, if there is one, is what the type shows. -/
theorem ContentModel.shown_of_first? {content : List Construct} {model : ContentModel}
    (h : first? content = some model) : ∃ method base,
      .simpleContent method base model.shown ∈ content ∨
        .complexContent method base model.shown ∈ content := by
  fun_induction first? content with
  | case1 => contradiction
  | case2 method base children others =>
    obtain rfl := Option.some.inj h
    exact ⟨method, base, Or.inl List.mem_cons_self⟩
  | case3 method base children others =>
    obtain rfl := Option.some.inj h
    exact ⟨method, base, Or.inr List.mem_cons_self⟩
  | case4 others first hsimple hcomplex ih =>
    obtain ⟨method, base, hmem⟩ := ih h
    exact ⟨method, base, hmem.imp (List.mem_cons_of_mem _) (List.mem_cons_of_mem _)⟩

theorem ContentModel.derives_of_first? {content : List Construct} (h : first? content = none)
    {construct : Construct} (hmem : construct ∈ content) (htop : construct.derivesOnTop = true) :
    construct.derives = false := by
  fun_induction first? content with
  | case1 => contradiction
  | case2 => contradiction
  | case3 => contradiction
  | case4 others first hsimple hcomplex ih =>
    rcases List.mem_cons.mp hmem with rfl | hother
    · cases construct with
      | simpleContent method base children => exact absurd rfl (hsimple method base children)
      | complexContent method base children => exact absurd rfl (hcomplex method base children)
      | compositor kind occurs children => simpa [Construct.derivesOnTop] using htop
      | _ => rfl
    · exact ih h hother

/-- What a type shows is nested no deeper than what it contains. -/
theorem ComplexType.heights_shown_le (type : ComplexType) :
    Construct.heights type.model.shown ≤ Construct.heights type.content := by
  unfold ComplexType.model
  cases hfirst : ContentModel.first? type.content with
  | none => exact Nat.le_refl _
  | some model =>
    obtain ⟨method, base, hmem | hmem⟩ := ContentModel.shown_of_first? hfirst
    all_goals
      have hheight := Construct.height_le_heights hmem
      simp only [Construct.height] at hheight
      simpa using Nat.le_of_succ_le hheight

namespace SchemaSet

variable {set : SchemaSet}

/-- What complex types show holds no derivations, and its nesting is bounded. -/
theorem shows_of_derivesOnTop (h : set.derivesOnTop = true) :
    set.Shows fun construct => construct.derives = false ∧
      construct.height ≤ set.contentHeight := by
  intro id complex hdefinition construct hconstruct
  have hcomplex : (set.types.definition id).complex? = some complex := by
    simp [hdefinition, TypeDefinition.complex?]
  have hheight : construct.height ≤ set.contentHeight :=
    calc construct.height ≤ Construct.heights complex.model.shown :=
          Construct.height_le_heights hconstruct
      _ ≤ Construct.heights complex.content := complex.heights_shown_le
      _ ≤ set.contentHeight := heights_content_le hcomplex
  have htop : ∀ own ∈ complex.content, own.derivesOnTop = true := by
    simp only [derivesOnTop, Bool.and_eq_true, List.all_eq_true] at h
    simpa [hcomplex] using h.1 _ (mem_definitions_of_complex? hcomplex)
  refine ⟨?_, hheight⟩
  unfold ComplexType.model at hconstruct
  cases hfirst : ContentModel.first? complex.content with
  | none =>
    rw [hfirst, Option.getD_none, ContentModel.shown] at hconstruct
    exact ContentModel.derives_of_first? hfirst hconstruct (htop construct hconstruct)
  | some model =>
    rw [hfirst, Option.getD_some] at hconstruct
    have hplain : Construct.someDerives model.shown = false := by
      obtain ⟨method, base, hown | hown⟩ := ContentModel.shown_of_first? hfirst
      · simpa [Construct.derivesOnTop] using htop _ hown
      · simpa [Construct.derivesOnTop] using htop _ hown
    exact Construct.derives_of_mem hplain hconstruct

/-- A construct without derivations that is met inside groups which reach whatever it refers to. -/
structure Meets (set : SchemaSet) (path : Path) (construct : Construct) : Prop where
  sound : path.Sound set
  reached : ∀ outer ∈ path.groups, ∀ inner ∈ construct.groupsInside,
    Relation.TransGen set.GroupRefers outer inner
  plain : construct.derives = false
  height_le : construct.height ≤ set.contentHeight

theorem Meets.anew {path : Path} {construct : Construct} (h : set.Meets path construct) :
    set.Meets ⟨[], []⟩ construct :=
  ⟨Path.sound_empty, by simp, h.plain, h.height_le⟩

theorem Meets.child {path : Path} {kind : Compositor} {occurs : Occurs} {child : Construct}
    {children : List Construct} (h : set.Meets path (.compositor kind occurs children))
    (hchild : child ∈ children) :
    set.Meets path child ∧
      child.height < (Construct.compositor kind occurs children).height := by
  have hheight := Construct.height_le_heights hchild
  have hle := h.height_le
  have hplain := h.plain
  simp only [Construct.height] at hle ⊢
  simp only [Construct.derives] at hplain
  refine ⟨⟨h.sound, fun outer houter inner hinner => ?_, Construct.derives_of_mem hplain hchild,
    by omega⟩, by omega⟩
  refine h.reached outer houter inner ?_
  rw [Construct.groupsInside]
  exact Construct.mem_groupsInsideAll hchild hinner

/-- A group that is referred to is not entered already, or it would reach itself. -/
theorem Meets.member {path : Path} {name : ExpandedName} {occurs : Occurs} {group : ModelGroup}
    {child : Construct} (hgroups : set.GroupsEnd) (htop : set.derivesOnTop = true)
    (h : set.Meets path (.group name occurs)) (hgroup : set.modelGroup? name = some group)
    (hchild : child ∈ group.children) :
    set.Meets ((Path.ofGroup name).append path) child := by
  have hself : name ∈ (Construct.group name occurs).groupsInside := by simp [Construct.groupsInside]
  have hnew : name ∉ path.groups := fun hmem => hgroups name (h.reached name hmem name hself)
  have hdeclared : name ∈ set.groupNames :=
    List.mem_append_right _ (List.mem_map.mpr ⟨_, mem_of_lookup hgroup, rfl⟩)
  have hrefers : ∀ inner ∈ child.groupsInside, set.GroupRefers name inner := fun inner hinner =>
    ⟨group, hgroup, Construct.mem_groupsInsideAll hchild hinner⟩
  have hplain : Construct.someDerives group.children = false := by
    simp only [derivesOnTop, Bool.and_eq_true, List.all_eq_true] at htop
    simpa using htop.2 _ (mem_of_lookup hgroup)
  refine ⟨h.sound.append (Path.declared_ofGroup hdeclared) (Path.admits_ofGroup.mpr hnew), ?_,
    Construct.derives_of_mem hplain hchild,
    Nat.le_trans (Construct.height_le_heights hchild) (heights_children_le hgroup)⟩
  intro outer houter inner hinner
  rcases List.mem_append.mp houter with hentered | habove
  · obtain rfl := List.mem_singleton.mp hentered
    exact .single (hrefers inner hinner)
  · exact .tail (h.reached outer habove name hself) (hrefers inner hinner)

/-- What the groups that are left to enter and the construct itself are nested is within a depth. -/
def Fits (set : SchemaSet) (depth : Nat) (construct : Construct) : Prop :=
  ∃ path, set.Meets path construct ∧ room set path + construct.height ≤ depth

theorem room_empty (set : SchemaSet) : room set ⟨[], []⟩ + set.contentHeight < set.walkDepth := by
  simp only [room, Path.size, pathBound, walkDepth, List.length_nil, Nat.sub_zero, Nat.add_zero,
    Nat.succ_mul]
  omega

theorem Meets.fits {path : Path} {construct : Construct} (h : set.Meets path construct) :
    set.Fits (set.walkDepth + 1) construct := by
  have hroom := room_empty set
  have hheight := h.height_le
  exact ⟨⟨[], []⟩, h.anew, by omega⟩

end SchemaSet

namespace Compile.Scope

/-- Where groups end and derivations stand in types only, no nesting is too deep. -/
theorem nesting_ordinary {scope : Scope} (hgroups : scope.index.set.GroupsEnd)
    (htop : scope.index.set.derivesOnTop = true) :
    scope.Nesting scope.Ordinary scope.index.set.Fits where
  ordinary := fun _ h => h
  exhausted := by
    rintro construct here ⟨path, hmeets, hdepth⟩
    have hpos := construct.height_pos
    omega
  compositor := by
    rintro depth kind occurs children ⟨path, hmeets, hdepth⟩ child hchild
    obtain ⟨hinner, hheight⟩ := hmeets.child hchild
    exact ⟨path, hinner, by omega⟩
  group := by
    rintro depth name occurs group ⟨path, hmeets, hdepth⟩ hgroup child hchild
    have hinner := hmeets.member hgroups htop hgroup hchild
    have hroom := room_append hinner.sound rfl
    have hheight := hinner.height_le
    exact ⟨_, hinner, by omega⟩
  simpleContent := by
    rintro depth method base children ⟨path, hmeets, -⟩
    exact absurd hmeets.plain (by simp [Construct.derives])
  complexContent := by
    rintro depth method base children ⟨path, hmeets, -⟩
    exact absurd hmeets.plain (by simp [Construct.derives])
  types := by
    intro id complex hdefinition construct hconstruct
    obtain ⟨hplain, hheight⟩ := SchemaSet.shows_of_derivesOnTop htop id complex hdefinition
      construct hconstruct
    exact SchemaSet.Meets.fits ⟨Path.sound_empty, by simp, hplain, hheight⟩

end Compile.Scope

/-- No address of an index is empty. -/
theorem SchemaIndex.depth_pos {set : SchemaSet} {namespaces : InstanceNamespaces}
    {roots : List ExpandedName} {index : SchemaIndex}
    (hbuild : SchemaIndex.build set namespaces roots = .ok index) {address : Address}
    (hindexed : (index.nodeOf? address).isSome) : 1 ≤ address.depth := by
  obtain ⟨-, -, visits, hlists⟩ := SchemaIndex.exists_lists hbuild
  obtain ⟨node, hnode⟩ := Option.isSome_iff_exists.mp hindexed
  obtain ⟨visit, hvisit, hbare⟩ := hlists.exists_visit (List.mem_of_find?_eq_some hnode)
  have haddress : node.address = address.schemaAddress := by simpa using List.find?_some hnode
  have hne := (hlists.history.sound visit hvisit).ne_nil
  rw [hbare] at hne
  have hpos : 0 < node.address.depth := List.length_pos_iff.mpr hne
  rwa [haddress, Address.depth_schemaAddress] at hpos

/-- Where groups end and derivations stand in types only, no bound is reached from any node. -/
theorem SchemaIndex.rendered_ends {set : SchemaSet} {namespaces : InstanceNamespaces}
    {roots : List ExpandedName} {index : SchemaIndex} (hgroups : set.GroupsEnd)
    (htop : set.derivesOnTop = true) (hbuild : SchemaIndex.build set namespaces roots = .ok index)
    (mode : Mode) {address : Address} (hindexed : (index.nodeOf? address).isSome) :
    (index.rendered mode address).Ended := by
  have hdepth := SchemaIndex.depth_pos hbuild hindexed
  obtain ⟨rfl, -, -, -⟩ := SchemaIndex.exists_lists hbuild
  let scope : Compile.Scope := ⟨index, mode, address⟩
  have hnesting : scope.Nesting scope.Ordinary scope.index.set.Fits :=
    Compile.Scope.nesting_ordinary hgroups htop
  have hfaithful : scope.Faithful scope.Ordinary 1 (scope.render index.height) :=
    Compile.Scope.faithful_render hnesting index.height 1 (Or.inl (by simp [scope]))
  have hyields := Compile.Scope.yields_renderGuarded hnesting.ordinary hfaithful address hdepth
  refine fun entry hentry => LogEntry.exhausted?_eq_none_iff.mpr fun here hnote => ?_
  exact (hyields.log entry hentry _ hnote).within here rfl

/-- There whatever is indexed is compiled. -/
theorem SchemaIndex.isOk_compile {set : SchemaSet} {namespaces : InstanceNamespaces}
    {roots : List ExpandedName} {index : SchemaIndex} (hgroups : set.GroupsEnd)
    (htop : set.derivesOnTop = true) (hbuild : SchemaIndex.build set namespaces roots = .ok index)
    (mode : Mode) {address : Address} (hindexed : (index.nodeOf? address).isSome) :
    ∃ compilation, index.compile mode address = .ok compilation :=
  ⟨_, compile_eq_ok_iff.mpr ⟨hindexed, rendered_ends hgroups htop hbuild mode hindexed, rfl⟩⟩

/-- Whatever is indexed is compiled, in either mode, and no bound is reached on the way. -/
theorem compile_ends {set : SchemaSet} {namespaces : InstanceNamespaces}
    {roots : List ExpandedName} {index : SchemaIndex} (hgroups : set.GroupsEnd)
    (htop : set.derivesOnTop = true) (hbuild : SchemaIndex.build set namespaces roots = .ok index)
    (mode : Mode) {address : Address} (hindexed : (index.nodeOf? address).isSome) :
    ∃ compilation, index.compile mode address = .ok compilation ∧
      ∀ entry ∈ compilation.log, ∀ here, entry.note ≠ .skipped (.nestedTooDeep here) := by
  obtain ⟨compilation, hcompile⟩ := SchemaIndex.isOk_compile hgroups htop hbuild mode hindexed
  obtain ⟨-, hended, rfl⟩ := SchemaIndex.compile_eq_ok_iff.mp hcompile
  exact ⟨_, hcompile, fun entry hentry => LogEntry.exhausted?_eq_none_iff.mp (hended entry hentry)⟩

/-- A type that holds an element of its own type, a type that is its own base, attribute groups that
refer to each other and elements that stand in for each other; of two model groups, one refers to
the other. -/
def cyclicSchema : SchemaSet :=
  { SchemaSet.declaring [.builtin (schemaName "string"),
      .containing [.attributeGroup ⟨none, "a"⟩, .group ⟨none, "outer"⟩ .once,
        .particle "same" (.anonymous ⟨1⟩) ⟨0, .count 1⟩,
        .particle "based" (.anonymous ⟨2⟩) ⟨0, .count 1⟩],
      .containing [.complexContent .extension (.anonymous ⟨2⟩)
        [.particle "own" (.anonymous ⟨0⟩) .once]]]
      [.unqualified "r" (.anonymous ⟨1⟩), .unqualified "first" (.anonymous ⟨0⟩),
        .unqualified "second" (.anonymous ⟨0⟩)] with
    attributeGroups := [
      (⟨none, "a"⟩, ⟨⟨none, "a"⟩, 0, [.attributeGroup ⟨none, "b"⟩]⟩),
      (⟨none, "b"⟩, ⟨⟨none, "b"⟩, 0, [.attributeGroup ⟨none, "a"⟩]⟩)]
    modelGroups := [
      (⟨none, "outer"⟩, ⟨⟨none, "outer"⟩, 0, .sequence, .once,
        [.compositor .choice .once [.group ⟨none, "inner"⟩ .once]]⟩),
      (⟨none, "inner"⟩, ⟨⟨none, "inner"⟩, 0, .sequence, .once,
        [.element (.globally ⟨none, "first"⟩ "first" 0) .once]⟩)]
    members := [(⟨none, "first"⟩, [⟨none, "second"⟩]), (⟨none, "second"⟩, [⟨none, "first"⟩])] }

def cyclicIndex : SchemaIndex :=
  (SchemaIndex.build cyclicSchema .disabled [⟨none, "r"⟩]).toOption.getD default

theorem groupsEnd_cyclicSchema : cyclicSchema.GroupsEnd := by
  refine SchemaSet.groupsEnd_of_rank (fun name => if name = ⟨none, "outer"⟩ then 1 else 0) ?_
  rintro outer inner ⟨group, hgroup, hinner⟩
  have hmem := mem_of_lookup hgroup
  simp only [cyclicSchema, List.mem_cons, Prod.mk.injEq, List.not_mem_nil, or_false] at hmem
  rcases hmem with ⟨rfl, rfl⟩ | ⟨rfl, rfl⟩
  · simp only [Construct.groupsInsideAll, Construct.groupsInside, List.append_nil,
      List.mem_singleton] at hinner
    subst hinner
    decide
  · simp [Construct.groupsInsideAll, Construct.groupsInside] at hinner

theorem compile_ends_cyclicSchema :
    cyclicSchema.GroupsEnd ∧ cyclicSchema.derivesOnTop = true ∧
      SchemaIndex.build cyclicSchema .disabled [⟨none, "r"⟩] = .ok cyclicIndex ∧
      ∃ compilation, cyclicIndex.compile .edit (.root (.unprefixed "r")) = .ok compilation ∧
        ∀ entry ∈ compilation.log, ∀ here, entry.note ≠ .skipped (.nestedTooDeep here) := by
  have hbuild : SchemaIndex.build cyclicSchema .disabled [⟨none, "r"⟩] = .ok cyclicIndex := rfl
  have hindexed : (cyclicIndex.nodeOf? (.root (.unprefixed "r"))).isSome := by decide
  exact ⟨groupsEnd_cyclicSchema, by decide, hbuild,
    compile_ends groupsEnd_cyclicSchema (by decide) hbuild .edit hindexed⟩

/-- A model group that refers to itself. -/
def endlessSchema : SchemaSet :=
  { SchemaSet.declaring [.containing [.group ⟨none, "g"⟩ .once]]
      [.unqualified "r" (.anonymous ⟨0⟩)] with
    modelGroups := [(⟨none, "g"⟩, ⟨⟨none, "g"⟩, 0, .sequence, .once, [.group ⟨none, "g"⟩ .once]⟩)] }

def endlessIndex : SchemaIndex :=
  (SchemaIndex.build endlessSchema .disabled [⟨none, "r"⟩]).toOption.getD default

/-- Without the condition on groups a bound is reached, and there is no template. -/
example : endlessIndex.compile .edit (.root (.unprefixed "r")) =
    .error (.nestedTooDeep (.root (.unprefixed "r"))) := rfl

end SchemaForms
