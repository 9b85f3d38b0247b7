import SchemaForms.Proofs.Compile.Undefined

/-!
The attributes that a reference to an attribute group declares. The group is opened and with it all
groups that it reaches, each of them once, in whatever circles they refer to each other; what is
gathered are the attributes that stand in these groups themselves. The groups that were opened are
forgotten after the reference, so a group that two references reach is opened for each of them.
-/

namespace SchemaForms

/-- The attribute that a construct declares itself. -/
def Construct.use? : Construct → Option AttributeDeclaration
  | .attributeUse use => some use
  | _ => none

namespace SchemaSet

/-- The attributes that stand in a group itself. -/
def ownUses (set : SchemaSet) (name : ExpandedName) : List AttributeDeclaration :=
  (((set.attributeGroup? name).map AttributeGroup.attributes).getD []).filterMap Construct.use?

/-- The groups that are opened for a reference to one: all that it reaches, and nothing is missing
among them. -/
structure OpensGroups (set : SchemaSet) (name : ExpandedName) (groups : List ExpandedName) :
    Prop where
  nodup : groups.Nodup
  reached : ∀ other, other ∈ groups ↔ Relation.ReflTransGen set.AttributeGroupRefers name other
  defined : ∀ other ∈ groups, (set.attributeGroup? other).isSome

variable {set : SchemaSet} {name : ExpandedName} {groups others : List ExpandedName}

/-- Whatever order they are opened in, the groups of a reference are the same. -/
theorem OpensGroups.perm (h : set.OpensGroups name groups) (hothers : set.OpensGroups name others) :
    groups.Perm others :=
  (List.perm_ext_iff_of_nodup h.nodup hothers.nodup).mpr fun other =>
    (h.reached other).trans (hothers.reached other).symm

end SchemaSet

namespace Compile

/-- Collecting opens groups that are reached and were not opened before, and gathers what they have
of their own beside what stands where it is collected. -/
def Opening.Gathers {β : Type} (reaches : ExpandedName → Prop) (own : ExpandedName → List β)
    (direct : List β) (collect : Opening (List β)) : Prop :=
  ∀ opened uses reached, collect.run opened = .ok (uses, reached) →
    ∃ groups : List ExpandedName, reached.Perm (groups ++ opened) ∧
      uses.Perm (direct ++ groups.flatMap own) ∧ (opened.Nodup → reached.Nodup) ∧
        ∀ group ∈ groups, reaches group

namespace Opening

variable {α β : Type} {reaches : ExpandedName → Prop} {own : ExpandedName → List β}
  {direct : List β}

theorem Gathers.pure (uses : List β) : Gathers reaches own uses (Pure.pure uses) := by
  intro opened found reached hrun
  obtain ⟨rfl, rfl⟩ := Prod.mk.inj (Except.ok.inj hrun)
  exact ⟨[], .refl _, by simp, id, by simp⟩

theorem Gathers.throw (error : CompileError) : Gathers reaches own direct (throw error) :=
  fun _ _ _ hrun => nomatch hrun

/-- A look-up opens nothing. -/
theorem Gathers.except {lookup : Except CompileError α} {next : α → Opening (List β)}
    (h : ∀ a, lookup = .ok a → Gathers reaches own direct (next a)) :
    Gathers reaches own direct (liftM lookup >>= next) := by
  intro opened uses reached hrun
  cases lookup with
  | error error => cases hrun
  | ok a => exact h a rfl opened uses reached hrun

theorem Gathers.openAll {collect : Construct → Opening (List β)}
    {directly : Construct → List β} {constructs : List Construct}
    (h : ∀ construct ∈ constructs, Gathers reaches own (directly construct) (collect construct)) :
    Gathers reaches own (constructs.flatMap directly) (openAll collect constructs) := by
  induction constructs with
  | nil => exact .pure []
  | cons construct others ih =>
    intro opened uses reached hrun
    rw [Compile.openAll, StateT.run_bind] at hrun
    cases hfirst : (collect construct).run opened with
    | error error => rw [hfirst] at hrun; cases hrun
    | ok first =>
      obtain ⟨found, middle⟩ := first
      rw [hfirst] at hrun
      change ((Compile.openAll collect others >>= fun rest =>
        Pure.pure (found ++ rest)).run middle) = _ at hrun
      rw [StateT.run_bind] at hrun
      cases hothers : (Compile.openAll collect others).run middle with
      | error error => rw [hothers] at hrun; cases hrun
      | ok rest =>
        rw [hothers] at hrun
        obtain ⟨rfl, rfl⟩ := Prod.mk.inj (Except.ok.inj hrun)
        obtain ⟨groups, hreached, huses, hnodup, hall⟩ :=
          h construct List.mem_cons_self opened found middle hfirst
        obtain ⟨more, hreached', huses', hnodup', hall'⟩ :=
          ih (fun other hother => h other (List.mem_cons_of_mem _ hother)) middle rest.1 rest.2
            hothers
        refine ⟨more ++ groups, ?_, ?_, hnodup' ∘ hnodup, ?_⟩
        · rw [List.append_assoc]
          exact hreached'.trans (hreached.append_left more)
        · refine (huses.append huses').trans ?_
          rw [List.append_assoc]
          refine (List.perm_append_comm.append_left _).trans ?_
          simp
        · intro group hgroup
          exact (List.mem_append.mp hgroup).elim (hall' group) (hall group)

theorem Gathers.openOnce {name : ExpandedName} {collect : Opening (List β)} (hname : reaches name)
    (h : Gathers reaches own (own name) collect) :
    Gathers reaches own [] (openOnce name collect) := by
  intro opened uses reached hrun
  by_cases hopened : name ∈ opened
  · simp only [Compile.openOnce, StateT.run_bind, StateT.run_get, pure_bind, if_pos hopened] at hrun
    obtain ⟨rfl, rfl⟩ := Prod.mk.inj (Except.ok.inj hrun)
    exact ⟨[], .refl _, by simp, id, by simp⟩
  · simp only [Compile.openOnce, StateT.run_bind, StateT.run_get, pure_bind, if_neg hopened] at hrun
    obtain ⟨groups, hreached, huses, hnodup, hall⟩ := h (name :: opened) uses reached hrun
    refine ⟨name :: groups, ?_, ?_, ?_, ?_⟩
    · exact hreached.trans List.perm_middle
    · simpa using huses
    · exact fun hfresh => hnodup (List.nodup_cons.mpr ⟨hopened, hfresh⟩)
    · exact List.forall_mem_cons.mpr ⟨hname, hall⟩

end Opening

namespace Scope

variable {scope : Scope} {here : Address} {name : ExpandedName}

theorem gathers_usesOf (scope : Scope) (here : Address) (depth : Nat) {root : ExpandedName} :
    ∀ name, Relation.ReflTransGen scope.index.set.AttributeGroupRefers root name →
      (scope.usesOf here depth name).Gathers
        (Relation.ReflTransGen scope.index.set.AttributeGroupRefers root)
        scope.index.set.ownUses [] := by
  induction depth with
  | zero => exact fun name _ => .throw _
  | succ depth ih =>
    intro name hname
    refine .openOnce hname (.except fun group hgroup => ?_)
    have hdefined := attributeGroup_eq_ok hgroup
    have hown : scope.index.set.ownUses name =
        group.attributes.flatMap fun construct => construct.use?.toList := by
      simp [SchemaSet.ownUses, hdefined, List.filterMap_eq_flatMap_toList]
    rw [hown]
    refine .openAll fun construct hconstruct => ?_
    cases construct with
    | attributeUse use => exact .pure [use]
    | attributeGroup nested => exact ih nested (.tail hname ⟨group, hdefined, hconstruct⟩)
    | _ => exact .pure []

/-- Opening a group fails for want of depth, or because a group that it reaches is not defined. -/
theorem fails_usesOf (scope : Scope) (here : Address) (depth : Nat) {root : ExpandedName} :
    ∀ name, Relation.ReflTransGen scope.index.set.AttributeGroupRefers root name →
      (scope.usesOf here depth name).Ensures (fun _ => True) (fun _ => True)
        (fun error => error = .nestedTooDeep here ∨ ∃ missing,
          Relation.ReflTransGen scope.index.set.AttributeGroupRefers root missing ∧
            scope.index.set.attributeGroup? missing = none) fun _ => True := by
  induction depth with
  | zero => exact fun name _ => .throw (Or.inl rfl)
  | succ depth ih =>
    intro name hname
    refine @Opening.Ensures.openOnce _ _ (fun _ => True) _ _ _ _ _ trivial (fun _ _ => trivial)
      (fun _ _ _ => trivial) ?_
    refine .bind (.except (fun _ => attributeGroup_eq_ok) fun error herror => ?_)
      fun group hgroup => ?_
    · refine Or.inr ⟨name, hname, ?_⟩
      unfold attributeGroup at herror
      cases hgroup : scope.index.set.attributeGroup? name <;> simp_all
    · refine .openAll trivial (fun _ _ _ _ => trivial) fun construct hconstruct => ?_
      cases construct with
      | attributeGroup nested => exact ih nested (.tail hname ⟨group, hgroup, hconstruct⟩)
      | _ => exact .pure trivial

/-- Where all groups that are reached are defined, their own attributes are gathered. -/
theorem groupAttributes_eq (here : Address) (hdefined : ∀ other,
    Relation.ReflTransGen scope.index.set.AttributeGroupRefers name other →
      (scope.index.set.attributeGroup? other).isSome) :
    ∃ uses groups, scope.groupAttributes here name = .ok uses ∧
      scope.index.set.OpensGroups name groups ∧
        uses.Perm (groups.flatMap scope.index.set.ownUses) := by
  set depth := scope.index.set.attributeGroups.length + 2
  have huses : scope.groupAttributes here name =
      ((scope.usesOf here depth name).run []).map Prod.fst := rfl
  have hrun := fails_usesOf scope here depth name .refl [] trivial
  cases hresult : (scope.usesOf here depth name).run [] with
  | error error =>
    rw [hresult] at hrun huses
    have hwithin := (ordinary_groupAttributes huses).within here
    obtain ⟨missing, hreaches, hmissing⟩ := hrun.resolve_left hwithin
    exact absurd (hdefined missing hreaches) (by simp [hmissing])
  | ok result =>
    rw [hresult] at huses
    obtain ⟨groups, hreached, hgathered, hnodup, hall⟩ :=
      gathers_usesOf scope here depth name .refl [] result.1 result.2 hresult
    rw [List.append_nil] at hreached
    have hopens : scope.index.set.OpensGroups name groups := by
      refine ⟨hreached.nodup_iff.mp (hnodup List.nodup_nil),
        fun other => ⟨hall other, fun hreaches => ?_⟩, fun other hother => ?_⟩
      · exact hreached.mem_iff.mp
          ((closes_usesOf scope here depth name).opens_reached hresult rfl hreaches).1
      · exact hdefined other (hall other hother)
    exact ⟨result.1, groups, huses, hopens, by simpa using hgathered⟩

end Scope

end Compile

end SchemaForms
