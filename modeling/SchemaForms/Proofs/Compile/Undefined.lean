import SchemaForms.Proofs.Compile.Bounds

/-!
What a reference to a group that is not defined costs. Where constructs are shown one by one, it
costs itself. A choice is opened as a whole before anything of it is shown, and so is an attribute
group: the reference fails the opening, wherever it is met, and with the opening all that was
offered. The opening follows every reference once, so what it has opened when it succeeds is closed
under references, and all of it is defined.
-/

namespace SchemaForms

theorem Construct.mem_groupsInsideAll_iff {name : ExpandedName} {children : List Construct} :
    name ∈ groupsInsideAll children ↔ ∃ child ∈ children, name ∈ child.groupsInside := by
  induction children with
  | nil => simp [groupsInsideAll]
  | cons first others ih => simp [groupsInsideAll, ih]

namespace SchemaSet

/-- An attribute group refers to another. -/
def AttributeGroupRefers (set : SchemaSet) (outer inner : ExpandedName) : Prop :=
  ∃ group, set.attributeGroup? outer = some group ∧ .attributeGroup inner ∈ group.attributes

/-- A particle that one more reference to an undefined model group was added to, somewhere inside:
to a compositor, or to the compositor of a group that is referred to. -/
inductive ParticleGains (before after : SchemaSet) : Construct → Construct → Prop
  | here {kind : Compositor} {occurs bounds : Occurs} (left right : List Construct)
      {missing : ExpandedName} (hmissing : after.modelGroup? missing = none) :
      ParticleGains before after (.compositor kind occurs (left ++ right))
        (.compositor kind occurs (left ++ .group missing bounds :: right))
  | inside {kind : Compositor} {occurs : Occurs} {left right : List Construct}
      {inner gained : Construct} (h : ParticleGains before after inner gained) :
      ParticleGains before after (.compositor kind occurs (left ++ inner :: right))
        (.compositor kind occurs (left ++ gained :: right))
  | group {name : ExpandedName} {occurs : Occurs} {group : ModelGroup} {gained : List Construct}
      (hbefore : before.modelGroup? name = some group)
      (hafter : after.modelGroup? name = some { group with children := gained })
      (h : ParticleGains before after (.compositor group.kind group.occurs group.children)
        (.compositor group.kind group.occurs gained)) :
      ParticleGains before after (.group name occurs) (.group name occurs)

/-- An attribute group that one more reference to an undefined attribute group was added to, or a
group that it refers to. -/
inductive AttributesGain (before after : SchemaSet) : ExpandedName → Prop
  | here {name missing : ExpandedName} (group : AttributeGroup) (left right : List Construct)
      (hbefore : before.attributeGroup? name = some { group with attributes := left ++ right })
      (hafter : after.attributeGroup? name =
        some { group with attributes := left ++ .attributeGroup missing :: right })
      (hmissing : after.attributeGroup? missing = none) : AttributesGain before after name
  | inside {name nested : ExpandedName} {group : AttributeGroup}
      (hbefore : before.attributeGroup? name = some group)
      (hafter : after.attributeGroup? name = some group)
      (hnested : .attributeGroup nested ∈ group.attributes)
      (h : AttributesGain before after nested) : AttributesGain before after name

/-- A choice or an attribute group that gained a reference, as it is written where it is shown. -/
inductive Gains (before after : SchemaSet) : Construct → Construct → Prop
  | choice {occurs : Occurs} {children gained : List Construct}
      (h : ParticleGains before after (.compositor .choice occurs children)
        (.compositor .choice occurs gained)) :
      Gains before after (.compositor .choice occurs children) (.compositor .choice occurs gained)
  | choiceGroup {name : ExpandedName} {occurs : Occurs} {group : ModelGroup}
      (hgroup : after.modelGroup? name = some group) (hkind : group.kind = .choice)
      (h : ParticleGains before after (.group name occurs) (.group name occurs)) :
      Gains before after (.group name occurs) (.group name occurs)
  | attributeGroup {name : ExpandedName} (h : AttributesGain before after name) :
      Gains before after (.attributeGroup name) (.attributeGroup name)

variable {before after : SchemaSet}

theorem ParticleGains.reaches {particle gained : Construct}
    (h : ParticleGains before after particle gained) :
    ∃ name ∈ gained.groupsInside, ∃ missing,
      Relation.ReflTransGen after.GroupRefers name missing ∧ after.modelGroup? missing = none := by
  induction h with
  | @here kind occurs bounds left right missing hmissing =>
    refine ⟨missing, ?_, missing, .refl, hmissing⟩
    rw [Construct.groupsInside, Construct.mem_groupsInsideAll_iff]
    exact ⟨.group missing bounds, by simp, by simp [Construct.groupsInside]⟩
  | @inside kind occurs left right inner gained _ ih =>
    obtain ⟨name, hname, hreaches⟩ := ih
    refine ⟨name, ?_, hreaches⟩
    rw [Construct.groupsInside, Construct.mem_groupsInsideAll_iff]
    exact ⟨gained, by simp, hname⟩
  | @group name occurs group gained _ hafter _ ih =>
    obtain ⟨inner, hinner, missing, hreaches, hmissing⟩ := ih
    have hrefers : after.GroupRefers name inner := ⟨_, hafter, hinner⟩
    exact ⟨name, by simp [Construct.groupsInside], missing, .head hrefers hreaches, hmissing⟩

theorem AttributesGain.reaches {name : ExpandedName} (h : AttributesGain before after name) :
    ∃ missing, Relation.ReflTransGen after.AttributeGroupRefers name missing ∧
      after.attributeGroup? missing = none := by
  induction h with
  | @here name missing group left right hbefore hafter hmissing =>
    have hrefers : after.AttributeGroupRefers name missing := ⟨_, hafter, by simp⟩
    exact ⟨missing, .single hrefers, hmissing⟩
  | inside _ hafter hnested _ ih =>
    obtain ⟨missing, hreaches, hmissing⟩ := ih
    exact ⟨missing, .head ⟨_, hafter, hnested⟩ hreaches, hmissing⟩

end SchemaSet

namespace Compile

/-- Collecting that succeeds only adds to what was opened. In the end it has opened its targets, and
all that it added is defined and has had its own references opened. -/
def Opening.Closes (defined : ExpandedName → Prop) (refers : ExpandedName → ExpandedName → Prop)
    (targets : ExpandedName → Prop) (collect : Opening α) : Prop :=
  ∀ opened a reached, collect.run opened = .ok (a, reached) →
    opened ⊆ reached ∧ (∀ name, targets name → name ∈ reached) ∧
      ∀ name ∈ reached, name ∈ opened ∨
        (defined name ∧ ∀ other, refers name other → other ∈ reached)

namespace Opening

variable {α β : Type} {defined : ExpandedName → Prop}
  {refers : ExpandedName → ExpandedName → Prop}

theorem Closes.pure (a : α) : Closes defined refers (fun _ => False) (Pure.pure a : Opening α) := by
  intro opened result reached hrun
  obtain ⟨-, rfl⟩ := Prod.mk.inj (Except.ok.inj hrun)
  exact ⟨List.Subset.refl _, fun _ => False.elim, fun _ => Or.inl⟩

theorem Closes.throw {targets : ExpandedName → Prop} (error : CompileError) :
    Closes defined refers targets (MonadExcept.throw error : Opening α) :=
  fun _ _ _ hrun => nomatch hrun

/-- A look-up opens nothing. -/
theorem Closes.except (lookup : Except CompileError α) :
    Closes defined refers (fun _ => False) (liftM lookup : Opening α) := by
  cases lookup with
  | ok a => exact .pure a
  | error error => exact .throw error

theorem Closes.mono {collect : Opening α} {targets fewer : ExpandedName → Prop}
    (h : collect.Closes defined refers targets) (hfewer : ∀ name, fewer name → targets name) :
    collect.Closes defined refers fewer := by
  intro opened a reached hrun
  obtain ⟨hsubset, htargets, hclosed⟩ := h opened a reached hrun
  exact ⟨hsubset, fun name hname => htargets name (hfewer name hname), hclosed⟩

theorem Closes.bind {collect : Opening α} {next : α → Opening β}
    {first second : ExpandedName → Prop} (hcollect : collect.Closes defined refers first)
    (hnext : ∀ a, (next a).Closes defined refers second) :
    (collect >>= next).Closes defined refers fun name => first name ∨ second name := by
  intro opened b reached hrun
  rw [StateT.run_bind] at hrun
  cases hfirst : collect.run opened with
  | error error =>
    rw [hfirst] at hrun
    cases hrun
  | ok result =>
    rw [hfirst] at hrun
    obtain ⟨hsubset, htargets, hclosed⟩ := hcollect opened result.1 result.2 hfirst
    obtain ⟨hmore, hothers, hclosed'⟩ := hnext result.1 result.2 b reached hrun
    refine ⟨List.Subset.trans hsubset hmore, ?_, fun name hname => ?_⟩
    · rintro name (hname | hname)
      · exact hmore (htargets name hname)
      · exact hothers name hname
    · rcases hclosed' name hname with hearlier | hnew
      · refine (hclosed name hearlier).imp_right fun ⟨hdefined, hrefers⟩ => ?_
        exact ⟨hdefined, fun other href => hmore (hrefers other href)⟩
      · exact Or.inr hnew

/-- A group is looked up and, if it is defined, what it refers to is opened. -/
theorem Closes.openOnce {name : ExpandedName} {lookup : Except CompileError β}
    {next : β → Opening (List α)}
    (h : ∀ group, lookup = .ok group →
      defined name ∧ (next group).Closes defined refers (refers name)) :
    (openOnce name (liftM lookup >>= next)).Closes defined refers (· = name) := by
  intro opened a reached hrun
  by_cases hname : name ∈ opened
  · simp only [Compile.openOnce, StateT.run_bind, StateT.run_get, pure_bind, if_pos hname] at hrun
    obtain ⟨-, rfl⟩ := Prod.mk.inj (Except.ok.inj hrun)
    exact ⟨List.Subset.refl _, by rintro _ rfl; exact hname, fun _ => Or.inl⟩
  · simp only [Compile.openOnce, StateT.run_bind, StateT.run_get, pure_bind, if_neg hname] at hrun
    cases lookup with
    | error error => cases hrun
    | ok group =>
      obtain ⟨hdefined, hnext⟩ := h group rfl
      obtain ⟨hsubset, hrefers, hclosed⟩ := hnext (name :: opened) a reached hrun
      have hself : name ∈ reached := hsubset List.mem_cons_self
      refine ⟨fun other hother => hsubset (List.mem_cons_of_mem _ hother),
        by rintro _ rfl; exact hself, fun other hother => ?_⟩
      rcases hclosed other hother with hbefore | hnew
      · rcases List.mem_cons.mp hbefore with rfl | hopened
        · exact Or.inr ⟨hdefined, hrefers⟩
        · exact Or.inl hopened
      · exact Or.inr hnew

theorem Closes.openAll {collect : Construct → Opening (List α)}
    {targets : Construct → ExpandedName → Prop} {constructs : List Construct}
    (h : ∀ construct ∈ constructs, (collect construct).Closes defined refers (targets construct)) :
    (openAll collect constructs).Closes defined refers
      fun name => ∃ construct ∈ constructs, targets construct name := by
  induction constructs with
  | nil => exact (Closes.pure []).mono (by simp)
  | cons construct others ih =>
    have hothers := ih fun other hother => h other (List.mem_cons_of_mem _ hother)
    have hall := Closes.bind (h construct List.mem_cons_self)
      fun first => hothers.bind fun rest => .pure (first ++ rest)
    refine hall.mono fun name hname => ?_
    simpa using hname

/-- From nothing opened, everything that the targets reach is opened, and it is defined. -/
theorem Closes.opens_reached {collect : Opening α} {targets : ExpandedName → Prop}
    (h : collect.Closes defined refers targets) {result : α × List ExpandedName}
    (hrun : collect.run [] = .ok result) {name other : ExpandedName} (hname : targets name)
    (hreaches : Relation.ReflTransGen refers name other) : other ∈ result.2 ∧ defined other := by
  obtain ⟨-, htargets, hclosed⟩ := h [] result.1 result.2 hrun
  have hgood := fun name hname => (hclosed name hname).resolve_left List.not_mem_nil
  have hopened : other ∈ result.2 := by
    induction hreaches with
    | refl => exact htargets name hname
    | tail _ href ih => exact (hgood _ ih).2 _ href
  exact ⟨hopened, (hgood other hopened).1⟩

end Opening

namespace Scope

variable {scope : Scope} {here : Address}

theorem closes_leavesOf (scope : Scope) (here : Address) (depth : Nat) :
    ∀ construct, (scope.leavesOf here depth construct).Closes
      (fun name => (scope.index.set.modelGroup? name).isSome) scope.index.set.GroupRefers
      (· ∈ construct.groupsInside) := by
  induction depth with
  | zero => exact fun construct => .throw _
  | succ depth ih =>
    intro construct
    cases construct with
    | group name occurs =>
      refine (Opening.Closes.openOnce fun group hgroup => ?_).mono fun other hother =>
        List.mem_singleton.mp hother
      have hdefined := modelGroup_eq_ok hgroup
      refine ⟨by simp [hdefined], (Opening.Closes.openAll fun child _ => ih child).mono ?_⟩
      rintro inner ⟨group', hgroup', hinner⟩
      obtain rfl := Option.some.inj (hdefined.symm.trans hgroup')
      exact Construct.mem_groupsInsideAll_iff.mp hinner
    | compositor kind occurs children =>
      exact (Opening.Closes.openAll fun child _ => ih child).mono fun name hname =>
        Construct.mem_groupsInsideAll_iff.mp hname
    | element reference occurs =>
      exact (Opening.Closes.bind (.except _) fun name => .pure _).mono fun _ => by
        simp [Construct.groupsInside]
    | _ => exact (Opening.Closes.pure _).mono fun _ => by simp [Construct.groupsInside]

theorem closes_usesOf (scope : Scope) (here : Address) (depth : Nat) :
    ∀ name, (scope.usesOf here depth name).Closes
      (fun name => (scope.index.set.attributeGroup? name).isSome)
      scope.index.set.AttributeGroupRefers (· = name) := by
  induction depth with
  | zero => exact fun name => .throw _
  | succ depth ih =>
    refine fun name => .openOnce fun group hgroup => ?_
    have hdefined := attributeGroup_eq_ok hgroup
    refine ⟨by simp [hdefined], ?_⟩
    refine (@Opening.Closes.openAll _ _ _ _
      (fun construct other => construct = .attributeGroup other) group.attributes
      fun construct _ => ?_).mono ?_
    · cases construct with
      | attributeGroup nested =>
        exact (ih nested).mono fun other hother => (Construct.attributeGroup.inj hother).symm
      | _ => exact (Opening.Closes.pure _).mono fun _ hother => absurd hother (by simp)
    · rintro inner ⟨group', hgroup', hinner⟩
      obtain rfl := Option.some.inj (hdefined.symm.trans hgroup')
      exact ⟨_, hinner, rfl⟩

/-- The names that a choice offers are only known if all groups it opens are defined. -/
theorem leafNames_fails {children : List Construct} {name missing : ExpandedName}
    (hname : name ∈ Construct.groupsInsideAll children)
    (hreaches : Relation.ReflTransGen scope.index.set.GroupRefers name missing)
    (hmissing : scope.index.set.modelGroup? missing = none) :
    ∃ error, scope.leafNames here children = .error error := by
  have hcloses : ∀ child ∈ children, _ := fun child _ =>
    closes_leavesOf scope here (scope.leavesDepth children) child
  cases hrun : (openAll (scope.leavesOf here (scope.leavesDepth children)) children).run [] with
  | error error => exact ⟨error, by rw [leafNames_eq_map, hrun]; rfl⟩
  | ok result =>
    have hdefined := ((Opening.Closes.openAll hcloses).opens_reached hrun
      (Construct.mem_groupsInsideAll_iff.mp hname) hreaches).2
    simp [hmissing] at hdefined

theorem groupAttributes_fails {name missing : ExpandedName}
    (hreaches : Relation.ReflTransGen scope.index.set.AttributeGroupRefers name missing)
    (hmissing : scope.index.set.attributeGroup? missing = none) :
    ∃ error, scope.groupAttributes here name = .error error := by
  have huses : scope.groupAttributes here name =
      ((scope.usesOf here (scope.index.set.attributeGroups.length + 2) name).run []).map
        Prod.fst := rfl
  cases hrun : (scope.usesOf here (scope.index.set.attributeGroups.length + 2) name).run [] with
  | error error => exact ⟨error, by rw [huses, hrun]; rfl⟩
  | ok result =>
    have hdefined := ((closes_usesOf scope here _ name).opens_reached hrun rfl hreaches).2
    simp [hmissing] at hdefined

end Scope

theorem attributesFirst_insert (left right : List Construct) (construct : Construct) :
    ∃ first rest, attributesFirst (left ++ right) = first ++ rest ∧
      attributesFirst (left ++ construct :: right) = first ++ construct :: rest := by
  by_cases hattribute : construct.isAttribute = true
  · exact ⟨left.filter Construct.isAttribute, right.filter Construct.isAttribute ++
      (left ++ right).filter (!·.isAttribute), by simp [attributesFirst],
      by simp [attributesFirst, hattribute]⟩
  · exact ⟨(left ++ right).filter Construct.isAttribute ++ left.filter (!·.isAttribute),
      right.filter (!·.isAttribute), by simp [attributesFirst],
      by simp [attributesFirst, hattribute]⟩

/-- A construct that fails leaves the others as they are, and a warning. -/
theorem renderAll_insert {each : ConstructRenderer} {here : Address} {construct : Construct}
    {error : CompileError} (hfails : (each construct).run = ⟨.error error, []⟩)
    (left right : List Construct) :
    (renderAll each here (left ++ construct :: right)).value =
        (renderAll each here (left ++ right)).value ∧
      ∃ first rest, (renderAll each here (left ++ right)).log = first ++ rest ∧
        (renderAll each here (left ++ construct :: right)).log =
          first ++ ⟨here, .skipped error⟩ :: rest := by
  obtain ⟨first, rest, hwithout, hwith⟩ := attributesFirst_insert left right construct
  have hvalue : (Attempt.orSkip here (each construct)).value = [] := by
    rw [Attempt.value_orSkip, hfails]
  have hlog : (Attempt.orSkip here (each construct)).log = [⟨here, .skipped error⟩] := by
    rw [Attempt.log_orSkip, hfails]
    rfl
  simp only [renderAll, Logged.value_collect, Logged.log_collect, hwithout, hwith,
    List.flatMap_append, List.flatMap_cons, hvalue, hlog]
  exact ⟨rfl, _, _, rfl, rfl⟩

namespace Scope

variable {scope : Scope}

/-- What is shown of a construct where it stands, or nothing and a warning. -/
def shown (scope : Scope) (render : Renderer) (here : Address) (depth : Nat)
    (construct : Construct) : Logged (List TemplateNode) :=
  Attempt.orSkip here (scope.renderConstruct render here depth construct)

/-- What is shown of a member of a choice: all its occurrences where the choice can be made several
times, else the one there is. -/
def shownMember (scope : Scope) (render : Renderer) (here : Address) (occurs : Occurs)
    (name : PrefixedName) : Logged (List TemplateNode) :=
  Attempt.orSkip here (if occurs.isMany then branch scope render (here.child name) false
    else scope.alternative render (here.child name))

/-- The question which member to create. -/
def question (scope : Scope) (here : Address) (occurs : Occurs) (names : List PrefixedName) :
    List TemplateNode :=
  scope.editing [if occurs.isMany then repeatedPrompt here occurs names
    else singlePrompt here occurs names]

/-- The constructs of a choice can be opened, and there is a question which of them to create, or
one of them is shown. -/
def OffersMember (scope : Scope) (render : Renderer) (here : Address) (occurs : Occurs)
    (children : List Construct) : Prop :=
  ∃ names, scope.leafNames here children = .ok names ∧
    (scope.mode = .edit ∨ ∃ name ∈ names, (scope.shownMember render here occurs name).value ≠ [])

/-- A choice offers a member; an attribute group declares an attribute that is shown. -/
def Offers (scope : Scope) (render : Renderer) (here : Address) : Construct → Prop
  | .compositor .choice occurs children => scope.OffersMember render here occurs children
  | .group name occurs => ∃ group, scope.index.set.modelGroup? name = some group ∧
      scope.OffersMember render here (group.effectiveOccurs occurs) group.children
  | .attributeGroup name => ∃ uses, scope.groupAttributes here name = .ok uses ∧
      ∃ use ∈ uses, (Attempt.orSkip here (scope.renderUse render here use)).value ≠ []
  | _ => False

variable {render : Renderer} {here : Address} {occurs : Occurs} {children : List Construct}

theorem run_renderChoice_of_error {error : CompileError}
    (h : scope.leafNames here children = .error error) :
    (scope.renderChoice render here occurs children).run = ⟨.error error, []⟩ := by
  unfold renderChoice
  rw [h]
  rfl

theorem value_renderChoice {names : List PrefixedName}
    (h : scope.leafNames here children = .ok names) :
    (scope.renderChoice render here occurs children).run.value =
      .ok (names.flatMap (fun name => (scope.shownMember render here occurs name).value) ++
        scope.question here occurs names) := by
  unfold renderChoice shownMember question
  rw [h]
  cases hmany : occurs.isMany with
  | true =>
    exact congrArg (fun branches => Except.ok (branches ++ _)) (Logged.value_collect _ names)
  | false =>
    exact congrArg (fun branches => Except.ok (branches ++ _)) (Logged.value_collect _ names)

/-- A choice gives nothing exactly if it offers nothing. -/
theorem value_renderChoice_eq_nil_iff :
    (Attempt.orSkip here (scope.renderChoice render here occurs children)).value = [] ↔
      ¬ scope.OffersMember render here occurs children := by
  rw [Attempt.value_orSkip]
  cases hnames : scope.leafNames here children with
  | error error =>
    rw [run_renderChoice_of_error hnames]
    simp [OffersMember, hnames]
  | ok names =>
    have hquestion : scope.question here occurs names = [] ↔ scope.mode ≠ .edit := by
      simp [question, editing, isEdit]
    rw [value_renderChoice hnames]
    simp only [List.append_eq_nil_iff, List.flatMap_eq_nil_iff, hquestion, OffersMember, hnames,
      Except.ok.injEq, exists_eq_left', not_or, not_exists, not_and, not_not]
    exact and_comm

theorem run_attributeGroup_of_error {name : ExpandedName} {error : CompileError} (depth : Nat)
    (h : scope.groupAttributes here name = .error error) :
    (scope.renderConstruct render here (depth + 1) (.attributeGroup name)).run =
      ⟨.error error, []⟩ := by
  simp only [renderConstruct]
  rw [h]
  rfl

/-- The attributes of a group are shown one by one. -/
theorem value_attributeGroup {name : ExpandedName} {uses : List AttributeDeclaration} (depth : Nat)
    (h : scope.groupAttributes here name = .ok uses) :
    (scope.renderConstruct render here (depth + 1) (.attributeGroup name)).run.value =
      .ok (uses.flatMap fun use =>
        (Attempt.orSkip here (scope.renderUse render here use)).value) := by
  simp only [renderConstruct]
  rw [h]
  exact congrArg Except.ok (Logged.value_collect _ uses)

/-- An attribute group gives nothing exactly if none of its attributes is shown. -/
theorem value_attributeGroup_eq_nil_iff {name : ExpandedName} {depth : Nat} :
    (scope.shown render here (depth + 1) (.attributeGroup name)).value = [] ↔
      ¬ scope.Offers render here (.attributeGroup name) := by
  rw [shown, Attempt.value_orSkip]
  cases huses : scope.groupAttributes here name with
  | error error =>
    rw [run_attributeGroup_of_error depth huses]
    simp [Offers, huses]
  | ok uses =>
    rw [value_attributeGroup depth huses]
    simp [Offers, huses, List.flatMap_eq_nil_iff]

/-- A group that is a choice is shown as a choice with the bounds that the reference gives it. -/
theorem run_choiceGroup {name : ExpandedName} {group : ModelGroup} (depth : Nat)
    (hgroup : scope.index.set.modelGroup? name = some group) (hkind : group.kind = .choice) :
    (scope.renderConstruct render here (depth + 1) (.group name occurs)).run =
      (scope.renderChoice render here (group.effectiveOccurs occurs) group.children).run := by
  cases group
  cases hkind
  simp only [renderConstruct, modelGroup, hgroup]
  rfl

variable {before after : Scope} {written gained : Construct}

/-- After the reference was added, the construct fails, and nothing else is noted. -/
theorem fails_of_gains (h : before.index.set.Gains after.index.set written gained)
    (render : Renderer) (here : Address) (depth : Nat) :
    ∃ error, (after.renderConstruct render here depth gained).run = ⟨.error error, []⟩ := by
  cases depth with
  | zero => exact ⟨.nestedTooDeep here, rfl⟩
  | succ depth =>
    cases h with
    | choice hparticle =>
      obtain ⟨name, hname, missing, hreaches, hmissing⟩ := hparticle.reaches
      obtain ⟨error, herror⟩ := leafNames_fails hname hreaches hmissing
      exact ⟨error, run_renderChoice_of_error herror⟩
    | choiceGroup hgroup hkind hparticle =>
      obtain ⟨name, hname, missing, hreaches, hmissing⟩ := hparticle.reaches
      obtain rfl := List.mem_singleton.mp hname
      rcases Relation.ReflTransGen.cases_head hreaches with rfl | ⟨inner, hrefers, hinner⟩
      · rw [hmissing] at hgroup
        cases hgroup
      obtain ⟨group', hgroup', hmem⟩ := hrefers
      obtain rfl := Option.some.inj (hgroup.symm.trans hgroup')
      obtain ⟨error, herror⟩ := leafNames_fails hmem hinner hmissing
      exact ⟨error, by rw [run_choiceGroup depth hgroup hkind, run_renderChoice_of_error herror]⟩
    | attributeGroup hattributes =>
      obtain ⟨missing, hreaches, hmissing⟩ := hattributes.reaches
      obtain ⟨error, herror⟩ := groupAttributes_fails hreaches hmissing
      exact ⟨error, run_attributeGroup_of_error depth herror⟩

/-- Before it was added, the construct gives nothing exactly if it offers nothing. -/
theorem value_shown_eq_nil_iff (h : before.index.set.Gains after.index.set written gained)
    (render : Renderer) (here : Address) (depth : Nat) :
    (before.shown render here (depth + 1) written).value = [] ↔
      ¬ before.Offers render here written := by
  cases h with
  | choice => exact value_renderChoice_eq_nil_iff
  | @choiceGroup name occurs group hgroup hkind hparticle =>
    cases hparticle with
    | @group _ _ group' gained hbefore hafter =>
      obtain rfl := Option.some.inj (hafter.symm.trans hgroup)
      have hchoice : group'.kind = .choice := hkind
      rw [shown, Attempt.value_orSkip, run_choiceGroup depth hbefore hchoice,
        ← Attempt.value_orSkip, value_renderChoice_eq_nil_iff]
      simp [Offers, hbefore]
  | attributeGroup => exact value_attributeGroup_eq_nil_iff

end Scope

end Compile

open Compile in
/-- One more reference to an undefined group in a choice or an attribute group costs all that the
construct gave, unless it gave nothing. The cost ends there: of the construct there is left one
warning, and its siblings are shown as they are without it. -/
theorem undefined_reference_loses_iff {before after : Compile.Scope} {written gained : Construct}
    (h : before.index.set.Gains after.index.set written gained) (render render' : Renderer)
    (here : Address) (depth depth' : Nat) :
    ((∀ node ∈ (before.shown render here (depth + 1) written).value,
        node ∈ (after.shown render' here depth' gained).value) ↔
      ¬ before.Offers render here written) ∧
    (after.shown render' here depth' gained).value = [] ∧
    ∃ error, (after.shown render' here depth' gained).log = [⟨here, .skipped error⟩] ∧
      ∀ left right,
        let each := after.renderConstruct render' here depth'
        (renderAll each here (left ++ gained :: right)).value =
            (renderAll each here (left ++ right)).value ∧
          ∃ first rest, (renderAll each here (left ++ right)).log = first ++ rest ∧
            (renderAll each here (left ++ gained :: right)).log =
              first ++ ⟨here, .skipped error⟩ :: rest := by
  obtain ⟨error, hfails⟩ := Compile.Scope.fails_of_gains h render' here depth'
  have hvalue : (after.shown render' here depth' gained).value = [] := by
    rw [Compile.Scope.shown, Attempt.value_orSkip, hfails]
  have hlog : (after.shown render' here depth' gained).log = [⟨here, .skipped error⟩] := by
    rw [Compile.Scope.shown, Attempt.log_orSkip, hfails]
    rfl
  refine ⟨?_, hvalue, error, hlog, fun left right => renderAll_insert hfails left right⟩
  rw [hvalue, ← Compile.Scope.value_shown_eq_nil_iff h render here depth,
    List.eq_nil_iff_forall_not_mem]
  simp

/-- An element whose content is an attribute group and a choice, which may have references beside
the one attribute and the one element. -/
def offering (uses members : List Construct) : SchemaSet :=
  { SchemaSet.declaring [.builtin (schemaName "string"),
      .containing [.attributeGroup ⟨none, "g"⟩,
        .compositor .choice .once (.particle "a" (.anonymous ⟨0⟩) .once :: members)]]
      [.unqualified "r" (.anonymous ⟨1⟩)] with
    attributeGroups := [(⟨none, "g"⟩, ⟨⟨none, "g"⟩, 0,
      .attributeUse ⟨⟨none, "b"⟩, "b", 0, false, .anonymous ⟨0⟩, false⟩ :: uses⟩)] }

def offeringIndex (uses members : List Construct) : SchemaIndex :=
  (SchemaIndex.build (offering uses members) .disabled [⟨none, "r"⟩]).toOption.getD default

/-- The addresses of the fields of a template. -/
def Template.fields (template : Template) : List Address :=
  template.walk.filterMap fun node =>
    match node with
    | .field address .. => some address
    | _ => none

/-- The names that a template asks to choose from. -/
def Template.candidates (template : Template) : List PrefixedName :=
  template.walk.flatMap fun node =>
    match node with
    | .choicePrompt _ _ candidates => candidates
    | _ => []

theorem gains_choice_offering : (offering [] []).Gains (offering [] [.group ⟨none, "n"⟩ .once])
    (.compositor .choice .once [.particle "a" (.anonymous ⟨0⟩) .once])
    (.compositor .choice .once
      [.particle "a" (.anonymous ⟨0⟩) .once, .group ⟨none, "n"⟩ .once]) :=
  .choice (.here [.particle "a" (.anonymous ⟨0⟩) .once] [] (by decide))

theorem gains_attributeGroup_offering :
    (offering [] []).Gains (offering [.attributeGroup ⟨none, "n"⟩] [])
      (.attributeGroup ⟨none, "g"⟩) (.attributeGroup ⟨none, "g"⟩) :=
  .attributeGroup (.here ⟨⟨none, "g"⟩, 0, []⟩
    [.attributeUse ⟨⟨none, "b"⟩, "b", 0, false, .anonymous ⟨0⟩, false⟩] [] rfl rfl rfl)

/-- The choice offered a member; with the reference it gives nothing, and the attribute group beside
it gives what it gave. -/
theorem undefined_reference_loses_iff_offering :
    let root : Address := .root (.unprefixed "r")
    let before : Compile.Scope := ⟨offeringIndex [] [], .edit, root⟩
    let after : Compile.Scope := ⟨offeringIndex [] [.group ⟨none, "n"⟩ .once], .edit, root⟩
    let choice := Construct.compositor .choice .once [.particle "a" (.anonymous ⟨0⟩) .once]
    let broken := Construct.compositor .choice .once
      [.particle "a" (.anonymous ⟨0⟩) .once, .group ⟨none, "n"⟩ .once]
    before.index.set.Gains after.index.set choice broken ∧
      ¬ (∀ node ∈ (before.shown (before.render 2) root 1 choice).value,
        node ∈ (after.shown (after.render 2) root 1 broken).value) ∧
      (Compile.renderAll (after.renderConstruct (after.render 2) root 1) root
          [.attributeGroup ⟨none, "g"⟩, broken]).value =
        (Compile.renderAll (after.renderConstruct (after.render 2) root 1) root
          [.attributeGroup ⟨none, "g"⟩]).value := by
  intro root before after choice broken
  have hgains : before.index.set.Gains after.index.set choice broken := gains_choice_offering
  obtain ⟨hkeeps, -, _, -, hsiblings⟩ := undefined_reference_loses_iff hgains (before.render 2)
    (after.render 2) root 0 1
  refine ⟨hgains, fun hall => hkeeps.mp hall ?_, (hsiblings [.attributeGroup ⟨none, "g"⟩] []).1⟩
  exact ⟨[.unprefixed "a"], rfl, Or.inl rfl⟩

/-- A reference to an undefined model group takes the field and the place among the candidates from
the element that the choice offers, and one to an undefined attribute group takes the field from the
attribute that the group declares. -/
theorem undefined_reference_loses_offered :
    let root : Address := .root (.unprefixed "r")
    let compiled := fun uses members =>
      ((offeringIndex uses members).compile .edit root).toOption.map fun compilation =>
        (compilation.template.fields, compilation.template.candidates)
    (offering [] []).Gains (offering [] [.group ⟨none, "n"⟩ .once])
        (.compositor .choice .once [.particle "a" (.anonymous ⟨0⟩) .once])
        (.compositor .choice .once
          [.particle "a" (.anonymous ⟨0⟩) .once, .group ⟨none, "n"⟩ .once]) ∧
      (offering [] []).Gains (offering [.attributeGroup ⟨none, "n"⟩] [])
        (.attributeGroup ⟨none, "g"⟩) (.attributeGroup ⟨none, "g"⟩) ∧
      compiled [] [] = some ([root.attr (.unprefixed "b"), root.child (.unprefixed "a")],
        [.unprefixed "a"]) ∧
      compiled [] [.group ⟨none, "n"⟩ .once] = some ([root.attr (.unprefixed "b")], []) ∧
      compiled [.attributeGroup ⟨none, "n"⟩] [] =
        some ([root.child (.unprefixed "a")], [.unprefixed "a"]) :=
  ⟨gains_choice_offering, gains_attributeGroup_offering, by decide, by decide, by decide⟩

end SchemaForms
