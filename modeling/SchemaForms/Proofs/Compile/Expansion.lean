import SchemaForms.Proofs.Compile.Undefined
import Mathlib.Data.Fintype.Card
import Mathlib.Data.Set.Finite.Basic

/-!
The names that a choice offers are those of its full expansion, each where it comes up first. In the
full expansion a group is replaced by its content wherever it is referred to. The names are told
without that: a group that was opened before tells nothing new, unless it is still being opened, and
then it reaches itself. When groups reach themselves there is no full expansion, but the names are
told all the same.
-/

namespace SchemaForms

/-- Whether a construct can tell names of elements. -/
def Construct.isParticle : Construct → Bool
  | .compositor .. => true
  | .group .. => true
  | .element .. => true
  | .wildcard _ => true
  | _ => false

/-- The constructs that the expansion of others comes to: those, what compositors among them hold,
and what is in the groups that they refer to. -/
inductive SchemaSet.Involves (set : SchemaSet) (constructs : List Construct) : Construct → Prop
  | listed {construct} (h : construct ∈ constructs) : Involves set constructs construct
  | inside {kind occurs children child}
      (h : Involves set constructs (.compositor kind occurs children)) (hchild : child ∈ children) :
      Involves set constructs child
  | member {name occurs group child} (h : Involves set constructs (.group name occurs))
      (hgroup : set.modelGroup? name = some group) (hchild : child ∈ group.children) :
      Involves set constructs child

namespace Compile

namespace Scope

/-- What a construct refers to by name is there. -/
def Resolves (scope : Scope) : Construct → Prop
  | .element reference _ => ∃ name, scope.elementName reference = .ok name
  | .group name _ => ∃ group, scope.index.set.modelGroup? name = some group
  | _ => True

/-- The plain expansion of constructs, in order. Whatever is no particle tells no names. -/
inductive Expands (scope : Scope) (here : Address) : List Construct → List PrefixedName → Prop
  | nil : Expands scope here [] []
  | element {reference occurs name others names}
      (hname : scope.elementName reference = .ok name)
      (hordinary : ∀ node, scope.index.nodeOf? (here.child name) = some node →
        node.isSubstitutionHead = false)
      (hothers : Expands scope here others names) :
      Expands scope here (.element reference occurs :: others) (name :: names)
  | head {reference occurs name node others names}
      (hname : scope.elementName reference = .ok name)
      (hnode : scope.index.nodeOf? (here.child name) = some node)
      (hhead : node.isSubstitutionHead = true) (hothers : Expands scope here others names) :
      Expands scope here (.element reference occurs :: others) (node.members ++ names)
  | compositor {kind occurs children inner others names}
      (hchildren : Expands scope here children inner) (hothers : Expands scope here others names) :
      Expands scope here (.compositor kind occurs children :: others) (inner ++ names)
  | group {name occurs group inner others names}
      (hgroup : scope.index.set.modelGroup? name = some group)
      (hchildren : Expands scope here group.children inner)
      (hothers : Expands scope here others names) :
      Expands scope here (.group name occurs :: others) (inner ++ names)
  | wildcard {occurs others names} (hothers : Expands scope here others names) :
      Expands scope here (.wildcard occurs :: others) (scope.index.wildcardName :: names)
  | nothing {construct others names} (hnothing : construct.isParticle = false)
      (hothers : Expands scope here others names) :
      Expands scope here (construct :: others) names

/-- Every group that was opened has told all its names, unless it is still being opened. -/
def Settled (scope : Scope) (here : Address) (path opened : List ExpandedName)
    (seen : List PrefixedName) : Prop :=
  ∀ name ∈ opened, name ∈ path ∨ ∃ group full, scope.index.set.modelGroup? name = some group ∧
    scope.Expands here group.children full ∧ full ⊆ seen

/-- After whatever was seen, what is collected is as good as the names in full. -/
def Tells (scope : Scope) (here : Address) (path : List ExpandedName) (full : List PrefixedName)
    (collect : Opening (List PrefixedName)) : Prop :=
  ∀ opened seen found reached, scope.Settled here path opened seen →
    collect.run opened = .ok (found, reached) →
      scope.Settled here path reached (seen ++ found) ∧
        (seen ++ found).eraseDups = (seen ++ full).eraseDups

variable {scope : Scope} {here : Address} {constructs : List Construct}
  {full full' inner names : List PrefixedName} {path opened : List ExpandedName}

theorem Expands.unique (h : scope.Expands here constructs full)
    (h' : scope.Expands here constructs full') : full = full' := by
  induction h generalizing full' with
  | nil =>
    cases h'
    rfl
  | element hname hordinary _ ih =>
    cases h' with
    | element hname' _ hothers' =>
      obtain rfl := Except.ok.inj (hname.symm.trans hname')
      rw [ih hothers']
    | head hname' hnode hhead =>
      obtain rfl := Except.ok.inj (hname.symm.trans hname')
      rw [hordinary _ hnode] at hhead
      cases hhead
    | nothing hnothing => cases hnothing
  | head hname hnode hhead _ ih =>
    cases h' with
    | element hname' hordinary =>
      obtain rfl := Except.ok.inj (hname.symm.trans hname')
      rw [hordinary _ hnode] at hhead
      cases hhead
    | head hname' hnode' _ hothers' =>
      obtain rfl := Except.ok.inj (hname.symm.trans hname')
      obtain rfl := Option.some.inj (hnode.symm.trans hnode')
      rw [ih hothers']
    | nothing hnothing => cases hnothing
  | compositor _ _ ihchildren ih =>
    cases h' with
    | compositor hchildren' hothers' => rw [ihchildren hchildren', ih hothers']
    | nothing hnothing => cases hnothing
  | group hgroup _ _ ihchildren ih =>
    cases h' with
    | group hgroup' hchildren' hothers' =>
      obtain rfl := Option.some.inj (hgroup.symm.trans hgroup')
      rw [ihchildren hchildren', ih hothers']
    | nothing hnothing => cases hnothing
  | wildcard _ ih =>
    cases h' with
    | wildcard hothers' => rw [ih hothers']
    | nothing hnothing => cases hnothing
  | nothing hnothing _ ih =>
    cases h' with
    | nothing _ hothers' => exact ih hothers'
    | _ => cases hnothing

/-- What can be expanded refers to no group that reaches itself. -/
theorem Expands.not_circular (h : scope.Expands here constructs full) {name : ExpandedName}
    (hname : name ∈ Construct.groupsInsideAll constructs) :
    ¬ Relation.TransGen scope.index.set.GroupRefers name name := by
  induction h generalizing name with
  | nil => cases hname
  | @compositor kind occurs children _ others _ _ _ ihchildren ih =>
    rw [Construct.groupsInsideAll, Construct.groupsInside, List.mem_append] at hname
    exact hname.elim ihchildren ih
  | @group own occurs group _ others _ hgroup _ _ ihchildren ih =>
    rw [Construct.groupsInsideAll, Construct.groupsInside, List.mem_append,
      List.mem_singleton] at hname
    rcases hname with rfl | hother
    · intro hcycle
      obtain ⟨next, hrefers, hback⟩ := Relation.TransGen.head'_iff.mp hcycle
      obtain ⟨group', hgroup', hnext⟩ := hrefers
      obtain rfl := Option.some.inj (hgroup.symm.trans hgroup')
      exact ihchildren hnext (.tail' hback ⟨group, hgroup, hnext⟩)
    · exact ih hother
  | @nothing construct others _ hnothing _ ih =>
    have hnone : construct.groupsInside = [] := by
      cases construct <;> first | rfl | cases hnothing
    rw [Construct.groupsInsideAll, hnone, List.nil_append] at hname
    exact ih hname
  | element _ _ _ ih => exact ih hname
  | head _ _ _ _ ih => exact ih hname
  | wildcard _ ih => exact ih hname

theorem Settled.mono {seen more : List PrefixedName} (h : scope.Settled here path opened seen)
    (hmore : seen ⊆ more) : scope.Settled here path opened more := by
  intro name hname
  refine (h name hname).imp_right ?_
  rintro ⟨group, full, hgroup, hfull, hseen⟩
  exact ⟨group, full, hgroup, hfull, List.Subset.trans hseen hmore⟩

namespace Tells

theorem pure (names : List PrefixedName) :
    scope.Tells here path names (Pure.pure names : Opening (List PrefixedName)) := by
  intro opened seen found reached hsettled hrun
  obtain ⟨rfl, rfl⟩ := Prod.mk.inj (Except.ok.inj hrun)
  exact ⟨hsettled.mono (List.subset_append_left _ _), rfl⟩

theorem throw (error : CompileError) :
    scope.Tells here path names (MonadExcept.throw error : Opening (List PrefixedName)) :=
  fun _ _ _ _ _ hrun => nomatch hrun

theorem append {first rest : Opening (List PrefixedName)}
    (hfirst : scope.Tells here path full first)
    (hrest : scope.Tells here path names rest) :
    scope.Tells here path (full ++ names) (do return (← first) ++ (← rest)) := by
  intro opened seen found reached hsettled hrun
  rw [StateT.run_bind] at hrun
  cases hrunFirst : first.run opened with
  | error error =>
    rw [hrunFirst] at hrun
    cases hrun
  | ok result =>
    obtain ⟨told, middle⟩ := result
    obtain ⟨hmiddle, htold⟩ := hfirst opened seen told middle hsettled hrunFirst
    rw [hrunFirst] at hrun
    change (rest >>= fun others => Pure.pure (told ++ others)).run middle = _ at hrun
    rw [StateT.run_bind] at hrun
    cases hrunRest : rest.run middle with
    | error error =>
      rw [hrunRest] at hrun
      cases hrun
    | ok result =>
      obtain ⟨others, last⟩ := result
      obtain ⟨hlast, hothers⟩ := hrest middle (seen ++ told) others last hmiddle hrunRest
      rw [hrunRest] at hrun
      obtain ⟨rfl, rfl⟩ := Prod.mk.inj (Except.ok.inj hrun)
      rw [← List.append_assoc, ← List.append_assoc]
      exact ⟨hlast, hothers.trans (eraseDups_append_congr htold names)⟩

theorem cons {collect : Construct → Opening (List PrefixedName)} {construct : Construct}
    (hfirst : scope.Tells here path full (collect construct))
    (hrest : scope.Tells here path names (openAll collect constructs)) :
    scope.Tells here path (full ++ names) (openAll collect (construct :: constructs)) :=
  append hfirst hrest

/-- A group that was opened has nothing to tell any more, and it is not being opened. -/
theorem openOnce {name : ExpandedName} {group : ModelGroup} {collect : Opening (List PrefixedName)}
    (hgroup : scope.index.set.modelGroup? name = some group)
    (hfull : scope.Expands here group.children full) (hname : name ∉ path)
    (h : scope.Tells here (name :: path) full collect) :
    scope.Tells here path full (Compile.openOnce name collect) := by
  intro opened seen found reached hsettled hrun
  by_cases hopened : name ∈ opened
  · simp only [Compile.openOnce, StateT.run_bind, StateT.run_get, pure_bind, if_pos hopened] at hrun
    obtain ⟨rfl, rfl⟩ := Prod.mk.inj (Except.ok.inj hrun)
    obtain ⟨group', full', hgroup', hfull', hseen⟩ := (hsettled name hopened).resolve_left hname
    obtain rfl := Option.some.inj (hgroup.symm.trans hgroup')
    obtain rfl := hfull.unique hfull'
    rw [List.append_nil, eraseDups_append_of_subset hseen]
    exact ⟨hsettled, rfl⟩
  · simp only [Compile.openOnce, StateT.run_bind, StateT.run_get, pure_bind, if_neg hopened] at hrun
    have hopening : scope.Settled here (name :: path) (name :: opened) seen := by
      intro other hother
      rcases List.mem_cons.mp hother with rfl | hother
      · exact .inl List.mem_cons_self
      · exact (hsettled other hother).imp_left (List.mem_cons_of_mem name)
    obtain ⟨hreached, htold⟩ := h (name :: opened) seen found reached hopening hrun
    refine ⟨fun other hother => ?_, htold⟩
    -- now the group itself has told all its names
    rcases hreached other hother with hpath | hother
    · rcases List.mem_cons.mp hpath with rfl | hpath
      · refine .inr ⟨group, full, hgroup, hfull, fun member hmember => ?_⟩
        rw [← List.mem_eraseDups, htold, List.mem_eraseDups]
        exact List.mem_append_right _ hmember
      · exact .inl hpath
    · exact .inr hother

end Tells

theorem memberNames_eq_singleton {name : PrefixedName}
    (hordinary : ∀ node, scope.index.nodeOf? (here.child name) = some node →
      node.isSubstitutionHead = false) : scope.memberNames here name = [name] := by
  unfold memberNames
  cases hnode : scope.index.nodeOf? (here.child name) with
  | none => rfl
  | some node => simp [Option.filter, hordinary node hnode]

theorem memberNames_eq_members {name : PrefixedName} {node : SchemaNode}
    (hnode : scope.index.nodeOf? (here.child name) = some node)
    (hhead : node.isSubstitutionHead = true) : scope.memberNames here name = node.members := by
  unfold memberNames
  simp [hnode, Option.filter, hhead]

theorem tells_element {reference : ElementRef} {name : PrefixedName}
    (hname : scope.elementName reference = .ok name)
    (hnames : scope.memberNames here name = names) (depth : Nat) (occurs : Occurs) :
    scope.Tells here path names (scope.leavesOf here depth (.element reference occurs)) := by
  cases depth with
  | zero => exact .throw _
  | succ depth =>
    rw [leavesOf, hname, ← hnames]
    exact .pure _

theorem tells_wildcard (depth : Nat) (occurs : Occurs) :
    scope.Tells here path [scope.index.wildcardName]
      (scope.leavesOf here depth (.wildcard occurs)) := by
  cases depth with
  | zero => exact .throw _
  | succ depth => exact .pure _

theorem tells_nothing {construct : Construct} (hnothing : construct.isParticle = false)
    (depth : Nat) : scope.Tells here path [] (scope.leavesOf here depth construct) := by
  cases depth with
  | zero => exact .throw _
  | succ depth => cases construct <;> first | exact .pure [] | cases hnothing

/-- Constructs tell their expansion. The groups that they are reached from may be open still. -/
theorem Expands.tells (h : scope.Expands here constructs full) :
    ∀ depth path, (∀ outer ∈ path, ∀ inner ∈ Construct.groupsInsideAll constructs,
      Relation.TransGen scope.index.set.GroupRefers outer inner) →
      scope.Tells here path full (openAll (scope.leavesOf here depth) constructs) := by
  induction h with
  | nil => exact fun depth path _ => .pure []
  | element hname hordinary _ ih =>
    intro depth path hreaches
    exact .cons (tells_element hname (memberNames_eq_singleton hordinary) depth _)
      (ih depth path hreaches)
  | head hname hnode hhead _ ih =>
    intro depth path hreaches
    exact .cons (tells_element hname (memberNames_eq_members hnode hhead) depth _)
      (ih depth path hreaches)
  | wildcard _ ih =>
    intro depth path hreaches
    exact .cons (tells_wildcard depth _) (ih depth path hreaches)
  | compositor _ _ ihchildren ih =>
    intro depth path hreaches
    refine .cons ?_ (ih depth path fun outer houter inner hinner =>
      hreaches outer houter inner (List.mem_append_right _ hinner))
    cases depth with
    | zero => exact .throw _
    | succ depth =>
      exact ihchildren depth path fun outer houter inner hinner =>
        hreaches outer houter inner (List.mem_append_left _ hinner)
  | @group name occurs group full others names hgroup hchildren hothers ihchildren ih =>
    intro depth path hreaches
    have hself : name ∈ Construct.groupsInsideAll (.group name occurs :: others) :=
      List.mem_cons_self
    have hnew : name ∉ path := fun hpath =>
      (Expands.group hgroup hchildren hothers).not_circular hself (hreaches name hpath name hself)
    refine .cons ?_ (ih depth path fun outer houter inner hinner =>
      hreaches outer houter inner (List.mem_append_right _ hinner))
    cases depth with
    | zero => exact .throw _
    | succ depth =>
      refine .openOnce hgroup hchildren hnew ?_
      have hrefers : ∀ inner ∈ Construct.groupsInsideAll group.children,
          scope.index.set.GroupRefers name inner := fun inner hinner => ⟨group, hgroup, hinner⟩
      rw [modelGroup, hgroup]
      refine ihchildren depth (name :: path) fun outer houter inner hinner => ?_
      rcases List.mem_cons.mp houter with rfl | houter
      · exact .single (hrefers inner hinner)
      · exact .tail (hreaches outer houter name hself) (hrefers inner hinner)
  | nothing hnothing _ ih =>
    intro depth path hreaches
    exact .cons (tells_nothing hnothing depth) (ih depth path fun outer houter inner hinner =>
      hreaches outer houter inner (List.mem_append_right _ hinner))

section Ending

variable {top : List Construct}

/-- As long as what is involved resolves, the names are told unless for want of depth. -/
theorem fails_leavesOf (here : Address)
    (hresolves : ∀ construct, scope.index.set.Involves top construct → scope.Resolves construct)
    (depth : Nat) :
    ∀ construct, scope.index.set.Involves top construct →
      (scope.leavesOf here depth construct).Ensures (fun _ => True) (fun _ => True)
        (fun error => error = .nestedTooDeep here) fun _ => True := by
  induction depth with
  | zero => exact fun construct _ => .throw rfl
  | succ depth ih =>
    intro construct hinvolved
    cases construct with
    | element reference occurs =>
      obtain ⟨name, hname⟩ := hresolves _ hinvolved
      rw [leavesOf, hname]
      exact .pure trivial
    | compositor kind occurs children =>
      exact .openAll trivial (fun _ _ _ _ => trivial) fun child hchild =>
        ih child (.inside hinvolved hchild)
    | group name occurs =>
      obtain ⟨group, hgroup⟩ := hresolves _ hinvolved
      rw [leavesOf, modelGroup, hgroup]
      refine @Opening.Ensures.openOnce _ _ (fun _ => True) _ _ _ _ _ trivial (fun _ _ => trivial)
        (fun _ _ _ => trivial) ?_
      exact .openAll trivial (fun _ _ _ _ => trivial) fun child hchild =>
        ih child (.member hinvolved hgroup hchild)
    | _ => exact .pure trivial

theorem exists_leafNames (here : Address)
    (hresolves : ∀ construct, scope.index.set.Involves top construct → scope.Resolves construct) :
    ∃ found reached, (openAll (scope.leavesOf here (scope.leavesDepth top)) top).run [] =
      .ok (found, reached) := by
  have hall : (openAll (scope.leavesOf here (scope.leavesDepth top)) top).Ensures
      (fun _ => True) (fun _ => True) (fun error => error = .nestedTooDeep here) fun _ => True :=
    .openAll trivial (fun _ _ _ _ => trivial) fun construct hconstruct =>
      fails_leavesOf here hresolves _ construct (.listed hconstruct)
  have hrun := hall [] trivial
  have hnames := scope.leafNames_eq_map here top
  cases hresult : (openAll (scope.leavesOf here (scope.leavesDepth top)) top).run [] with
  | error error =>
    rw [hresult] at hrun hnames
    exact absurd hrun ((ordinary_leafNames hnames).within here)
  | ok result => exact ⟨result.1, result.2, rfl⟩

end Ending

section Existing

variable {top : List Construct}

theorem Expands.append {left right : List Construct} (h : scope.Expands here left full)
    (hright : scope.Expands here right names) :
    scope.Expands here (left ++ right) (full ++ names) := by
  induction h with
  | nil => exact hright
  | element hname hordinary _ ih => exact .element hname hordinary ih
  | head hname hnode hhead _ ih =>
    rw [List.append_assoc]
    exact .head hname hnode hhead ih
  | compositor hchildren _ _ ih =>
    rw [List.append_assoc]
    exact .compositor hchildren ih
  | group hgroup hchildren _ _ ih =>
    rw [List.append_assoc]
    exact .group hgroup hchildren ih
  | wildcard _ ih => exact .wildcard ih
  | nothing hnothing _ ih => exact .nothing hnothing ih

/-- The content of a group has an expansion, if it is involved. -/
def GroupExpands (scope : Scope) (here : Address) (top : List Construct) (name : ExpandedName) :
    Prop :=
  ∀ group, scope.index.set.modelGroup? name = some group →
    (∀ child ∈ group.children, scope.index.set.Involves top child) →
      ∃ inner, scope.Expands here group.children inner

mutual

/-- A construct expands if the groups do that it refers to. -/
theorem exists_expands
    (hresolves : ∀ construct, scope.index.set.Involves top construct → scope.Resolves construct) :
    ∀ construct, scope.index.set.Involves top construct →
      (∀ name ∈ construct.groupsInside, scope.GroupExpands here top name) →
      ∃ names, scope.Expands here [construct] names
  | .element reference occurs, hinvolved, _ => by
    obtain ⟨name, hname⟩ := hresolves _ hinvolved
    cases hnode : scope.index.nodeOf? (here.child name) with
    | none => exact ⟨_, .element hname (by simp [hnode]) .nil⟩
    | some node =>
      cases hhead : node.isSubstitutionHead with
      | true => exact ⟨_, .head hname hnode hhead .nil⟩
      | false => exact ⟨_, .element hname (by simp [hnode, hhead]) .nil⟩
  | .compositor kind occurs children, hinvolved, hgroups => by
    obtain ⟨inner, hinner⟩ := exists_expandsAll hresolves children
      (fun child hchild => .inside hinvolved hchild) hgroups
    exact ⟨_, .compositor hinner .nil⟩
  | .group name occurs, hinvolved, hgroups => by
    obtain ⟨group, hgroup⟩ := hresolves _ hinvolved
    obtain ⟨inner, hinner⟩ := hgroups name List.mem_cons_self group hgroup fun child hchild =>
      .member hinvolved hgroup hchild
    exact ⟨_, .group hgroup hinner .nil⟩
  | .wildcard occurs, _, _ => ⟨_, .wildcard .nil⟩
  | .attributeUse use, _, _ => ⟨_, .nothing rfl .nil⟩
  | .attributeGroup name, _, _ => ⟨_, .nothing rfl .nil⟩
  | .simpleContent method base children, _, _ => ⟨_, .nothing rfl .nil⟩
  | .complexContent method base children, _, _ => ⟨_, .nothing rfl .nil⟩
  | .other tag, _, _ => ⟨_, .nothing rfl .nil⟩

theorem exists_expandsAll
    (hresolves : ∀ construct, scope.index.set.Involves top construct → scope.Resolves construct) :
    ∀ constructs, (∀ construct ∈ constructs, scope.index.set.Involves top construct) →
      (∀ name ∈ Construct.groupsInsideAll constructs, scope.GroupExpands here top name) →
      ∃ names, scope.Expands here constructs names
  | [], _, _ => ⟨_, .nil⟩
  | construct :: others, hinvolved, hgroups => by
    obtain ⟨first, hfirst⟩ := exists_expands hresolves construct
      (hinvolved construct List.mem_cons_self)
      fun name hname => hgroups name (List.mem_append_left _ hname)
    obtain ⟨rest, hrest⟩ := exists_expandsAll hresolves others
      (fun other hother => hinvolved other (List.mem_cons_of_mem _ hother))
      fun name hname => hgroups name (List.mem_append_right _ hname)
    exact ⟨_, hfirst.append hrest⟩

end

/-- Where no group reaches itself, references to groups can be followed to the end. -/
theorem acc_groupRefers {set : SchemaSet} (h : set.GroupsEnd) (name : ExpandedName) :
    Acc (fun inner outer => set.GroupRefers outer inner) name := by
  let Declared := { name // name ∈ set.modelGroups.map Prod.fst }
  let reaches (inner outer : Declared) : Prop :=
    Relation.TransGen set.GroupRefers outer.1 inner.1
  have : Finite Declared := (List.finite_toSet (set.modelGroups.map Prod.fst)).to_subtype
  have : IsTrans Declared reaches := ⟨fun _ _ _ hleft hright => hright.trans hleft⟩
  have : Std.Irrefl reaches := ⟨fun name => h name.1⟩
  have hwf : WellFounded reaches := Finite.wellFounded_of_trans_of_irrefl reaches
  -- a name without a group refers to nothing
  have hdeclared : ∀ {outer inner}, set.GroupRefers outer inner →
      outer ∈ set.modelGroups.map Prod.fst := by
    rintro outer inner ⟨group, hgroup, -⟩
    exact List.mem_map.mpr ⟨_, mem_of_lookup hgroup, rfl⟩
  have hacc : ∀ outer : Declared, Acc (fun inner outer => set.GroupRefers outer inner) outer.1 := by
    intro outer
    induction outer using hwf.induction with
    | _ outer ih =>
      refine ⟨_, fun inner hrefers => ⟨_, fun next hnext => ?_⟩⟩
      exact (ih ⟨inner, hdeclared hnext⟩ (.single hrefers)).inv hnext
  exact ⟨_, fun inner hrefers => (hacc ⟨name, hdeclared hrefers⟩).inv hrefers⟩

theorem exists_expansion (hends : scope.index.set.GroupsEnd)
    (hresolves : ∀ construct, scope.index.set.Involves top construct → scope.Resolves construct) :
    ∃ full, scope.Expands here top full := by
  have hgroups : ∀ name, scope.GroupExpands here top name := by
    intro name
    induction acc_groupRefers hends name with
    | intro name _ ih =>
      intro group hgroup hinvolved
      exact exists_expandsAll hresolves group.children hinvolved fun inner hinner =>
        ih inner ⟨group, hgroup, hinner⟩
  exact exists_expandsAll hresolves top (fun construct h => .listed h) fun name _ => hgroups name

end Existing

/-- As long as what is involved resolves, the names that a choice offers are told, each of them
once, whatever refers to what. Where no group reaches itself there is a full expansion, and the
names are those of the full expansion in the order in which they come up first. -/
theorem leafNames_eq_expansion {scope : Scope} {here : Address} {constructs : List Construct}
    (hresolves : ∀ construct, scope.index.set.Involves constructs construct →
      scope.Resolves construct) :
    ∃ names, scope.leafNames here constructs = .ok names ∧ names.Nodup ∧
      (scope.index.set.GroupsEnd → ∃ full, scope.Expands here constructs full) ∧
      ∀ full, scope.Expands here constructs full → names = full.eraseDups := by
  obtain ⟨found, reached, hrun⟩ := exists_leafNames here hresolves
  refine ⟨found.eraseDups, ?_, nodup_eraseDups found, fun hends => exists_expansion hends hresolves,
    fun full hfull => ?_⟩
  · rw [leafNames_eq_map, hrun]
    rfl
  · have htells := hfull.tells (scope.leavesDepth constructs) [] (by simp)
    exact (htells [] [] found reached (by simp [Settled]) hrun).2

end Scope

/-- A choice that comes to the same group directly and through another one, and a head. -/
def sharedChoice : List Construct :=
  [.compositor .sequence .once [.group ⟨none, "inner"⟩ .once], .group ⟨none, "outer"⟩ .once,
    .element (.globally ⟨none, "h"⟩ "h" 0) .once]

def sharedGroups : SchemaSet :=
  { SchemaSet.declaring [.builtin (schemaName "string"),
      .containing [.compositor .choice .once sharedChoice]]
      [.unqualified "r" (.anonymous ⟨1⟩), .unqualified "h" (.anonymous ⟨0⟩),
        .unqualified "m" (.anonymous ⟨0⟩)] with
    modelGroups := [
      (⟨none, "outer"⟩, ⟨⟨none, "outer"⟩, 0, .sequence, .once,
        [.particle "a" (.anonymous ⟨0⟩) .once, .group ⟨none, "inner"⟩ .once]⟩),
      (⟨none, "inner"⟩, ⟨⟨none, "inner"⟩, 0, .sequence, .once,
        [.particle "b" (.anonymous ⟨0⟩) .once, .wildcard .once]⟩)]
    members := [(⟨none, "h"⟩, [⟨none, "m"⟩])] }

def sharedScope : Scope :=
  ⟨(SchemaIndex.build sharedGroups .disabled [⟨none, "r"⟩]).toOption.getD default, .edit,
    .root (.unprefixed "r")⟩

theorem group_sharedGroups {name : ExpandedName} {group : ModelGroup}
    (h : sharedGroups.modelGroup? name = some group) :
    (name = ⟨none, "outer"⟩ ∧ group.children =
        [.particle "a" (.anonymous ⟨0⟩) .once, .group ⟨none, "inner"⟩ .once]) ∨
      (name = ⟨none, "inner"⟩ ∧ group.children =
        [.particle "b" (.anonymous ⟨0⟩) .once, .wildcard .once]) := by
  have hmem := mem_of_lookup h
  simp only [sharedGroups, List.mem_cons, Prod.mk.injEq, List.not_mem_nil, or_false] at hmem
  rcases hmem with ⟨rfl, rfl⟩ | ⟨rfl, rfl⟩
  · exact .inl ⟨rfl, rfl⟩
  · exact .inr ⟨rfl, rfl⟩

/-- Everything that the choice comes to resolves, and it holds only one compositor. -/
theorem resolves_sharedGroups {construct : Construct}
    (h : sharedGroups.Involves sharedChoice construct) :
    sharedScope.Resolves construct ∧ ∀ kind occurs children,
      construct = .compositor kind occurs children → children = [.group ⟨none, "inner"⟩ .once] := by
  have hinner : sharedScope.Resolves (.group ⟨none, "inner"⟩ .once) := ⟨_, rfl⟩
  induction h with
  | listed h =>
    simp only [sharedChoice, List.mem_cons, List.not_mem_nil, or_false] at h
    rcases h with rfl | rfl | rfl
    · exact ⟨trivial, fun _ _ _ h => (Construct.compositor.inj h).2.2.symm⟩
    · exact ⟨⟨_, rfl⟩, nofun⟩
    · exact ⟨⟨_, rfl⟩, nofun⟩
  | inside _ hchild ih =>
    obtain rfl := ih.2 _ _ _ rfl
    obtain rfl := List.mem_singleton.mp hchild
    exact ⟨hinner, nofun⟩
  | member _ hgroup hchild =>
    rcases group_sharedGroups hgroup with ⟨-, hchildren⟩ | ⟨-, hchildren⟩
    · rw [hchildren, List.mem_cons, List.mem_singleton] at hchild
      rcases hchild with rfl | rfl
      · exact ⟨⟨_, rfl⟩, nofun⟩
      · exact ⟨hinner, nofun⟩
    · rw [hchildren, List.mem_cons, List.mem_singleton] at hchild
      rcases hchild with rfl | rfl
      · exact ⟨⟨_, rfl⟩, nofun⟩
      · exact ⟨trivial, nofun⟩

theorem groupsEnd_sharedGroupsInside : sharedGroups.GroupsEnd := by
  refine SchemaSet.groupsEnd_of_rank (fun name => if name = ⟨none, "outer"⟩ then 1 else 0) ?_
  rintro outer inner ⟨group, hgroup, hinner⟩
  rcases group_sharedGroups hgroup with ⟨rfl, hchildren⟩ | ⟨rfl, hchildren⟩
  · rw [hchildren] at hinner
    obtain rfl : inner = ⟨none, "inner"⟩ := List.mem_singleton.mp hinner
    decide
  · rw [hchildren] at hinner
    cases hinner

/-- The second way to the inner group tells nothing new, and the head is replaced by itself and its
member. -/
theorem leafNames_eq_expansion_sharedGroups :
    let wildcard : PrefixedName := ⟨some "xs", "any"⟩
    (∀ construct, sharedGroups.Involves sharedChoice construct → sharedScope.Resolves construct) ∧
    sharedGroups.GroupsEnd ∧
    ∃ full, sharedScope.Expands sharedScope.root sharedChoice full ∧
      full = [.unprefixed "b", wildcard, .unprefixed "a", .unprefixed "b", wildcard,
        .unprefixed "h", .unprefixed "m"] ∧
      sharedScope.leafNames sharedScope.root sharedChoice = .ok full.eraseDups := by
  intro wildcard
  have hresolves : ∀ construct, sharedScope.index.set.Involves sharedChoice construct →
      sharedScope.Resolves construct := fun _ h => (resolves_sharedGroups h).1
  have hinner : sharedScope.Expands sharedScope.root
      [.particle "b" (.anonymous ⟨0⟩) .once, .wildcard .once] [.unprefixed "b", wildcard] :=
    .element rfl (by decide) (.wildcard .nil)
  have houter : sharedScope.Expands sharedScope.root
      [.particle "a" (.anonymous ⟨0⟩) .once, .group ⟨none, "inner"⟩ .once]
      (.unprefixed "a" :: ([.unprefixed "b", wildcard] ++ [])) :=
    .element rfl (by decide) (.group rfl hinner .nil)
  have hfull : sharedScope.Expands sharedScope.root sharedChoice _ :=
    .compositor (.group rfl hinner .nil) (.group rfl houter (.head rfl rfl (by decide) .nil))
  obtain ⟨names, hnames, -, -, hexpansion⟩ := Scope.leafNames_eq_expansion hresolves
  refine ⟨hresolves, groupsEnd_sharedGroupsInside, _, hfull, rfl, ?_⟩
  rw [hnames, hexpansion _ hfull]

/-- Two groups that refer to each other. -/
def circularGroups : SchemaSet :=
  { sharedGroups with
    modelGroups := [
      (⟨none, "outer"⟩, ⟨⟨none, "outer"⟩, 0, .sequence, .once,
        [.particle "a" (.anonymous ⟨0⟩) .once, .group ⟨none, "inner"⟩ .once]⟩),
      (⟨none, "inner"⟩, ⟨⟨none, "inner"⟩, 0, .sequence, .once,
        [.group ⟨none, "outer"⟩ .once, .particle "b" (.anonymous ⟨0⟩) .once]⟩)] }

/-- Without a full expansion the names are told as well. -/
example : (SchemaIndex.build circularGroups .disabled [⟨none, "r"⟩]).toOption.map (fun index =>
    (Scope.leafNames ⟨index, .edit, .root (.unprefixed "r")⟩ (.root (.unprefixed "r"))
      [.group ⟨none, "inner"⟩ .once]).toOption) =
    some (some [.unprefixed "a", .unprefixed "b"]) := by
  decide

end Compile

end SchemaForms
