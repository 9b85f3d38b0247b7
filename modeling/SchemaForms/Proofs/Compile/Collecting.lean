import SchemaForms.Proofs.Address.Parts
import SchemaForms.Proofs.Compile.Leaves
import SchemaForms.Proofs.Compile.Rendered
import SchemaForms.Proofs.Index.Depth
import Mathlib.Tactic.Set

/-!
What is looked up and collected on the way: the names that a choice offers and the attributes of a
group. Groups of either kind are opened at most once each, so the bounds of both are never
exhausted, whatever refers to what.
-/

namespace SchemaForms

/-- The constructs that the model of a complex type shows. -/
def ContentModel.shown : ContentModel → List Construct
  | textOnly derivation => derivation.children
  | derived derivation => derivation.children
  | constructs content => content

/-- A property of everything that complex types show. -/
def SchemaSet.Shows (set : SchemaSet) (P : Construct → Prop) : Prop :=
  ∀ id complex, set.types.definition id = .complex complex →
    ∀ construct ∈ complex.model.shown, P construct

namespace Compile

/-- Collecting that begins when the groups that were opened are as described ends so too, with what
is described or with an error that has the property. -/
def Opening.Ensures (before after : List ExpandedName → Prop) (failed : CompileError → Prop)
    (made : α → Prop) (collect : Opening α) : Prop :=
  ∀ opened, before opened →
    match collect.run opened with
    | .ok (a, reached) => made a ∧ after reached
    | .error error => failed error

namespace Opening

variable {α β : Type} {before middle after : List ExpandedName → Prop}
  {failed : CompileError → Prop}

theorem Ensures.pure {P : α → Prop} {a : α} (h : P a) :
    Ensures before before failed P (Pure.pure a : Opening α) :=
  fun _ hbefore => ⟨h, hbefore⟩

theorem Ensures.throw {P : α → Prop} {error : CompileError} (h : failed error) :
    Ensures before after failed P (MonadExcept.throw error : Opening α) :=
  fun _ _ => h

theorem Ensures.bind {collect : Opening α} {next : α → Opening β} {P : α → Prop} {Q : β → Prop}
    (hcollect : collect.Ensures before middle failed P)
    (hnext : ∀ a, P a → (next a).Ensures middle after failed Q) :
    Ensures before after failed Q (collect >>= next) := by
  intro opened hbefore
  have hfirst := hcollect opened hbefore
  rw [StateT.run_bind]
  cases hrun : collect.run opened with
  | error error =>
    rw [hrun] at hfirst
    exact hfirst
  | ok result =>
    rw [hrun] at hfirst
    exact hnext result.1 hfirst.1 result.2 hfirst.2

theorem Ensures.weaken {stronger weaker : List ExpandedName → Prop} {collect : Opening α}
    {P : α → Prop} (h : collect.Ensures before after failed P)
    (hbefore : ∀ opened, stronger opened → before opened)
    (hafter : ∀ opened, after opened → weaker opened) :
    collect.Ensures stronger weaker failed P := by
  intro opened hstronger
  have hrun := h opened (hbefore opened hstronger)
  split
  · rename_i heq
    rw [heq] at hrun
    exact ⟨hrun.1, hafter _ hrun.2⟩
  · rename_i heq
    rw [heq] at hrun
    exact hrun

/-- A look-up opens nothing. -/
theorem Ensures.except {result : Except CompileError α} {P : α → Prop}
    (hok : ∀ a, result = .ok a → P a) (herror : ∀ error, result = .error error → failed error) :
    Ensures before before failed P (liftM result : Opening α) := by
  intro opened hbefore
  cases result with
  | ok a => exact ⟨hok a rfl, hbefore⟩
  | error error => exact herror error rfl

theorem Ensures.openOnce {name : ExpandedName} {collect : Opening (List α)} {P : List α → Prop}
    (hnil : P []) (hskipped : ∀ opened, before opened → after opened)
    (hopened : ∀ opened, before opened → name ∉ opened → middle (name :: opened))
    (h : collect.Ensures middle after failed P) :
    (openOnce name collect).Ensures before after failed P := by
  intro opened hbefore
  by_cases hname : name ∈ opened
  · have hrun : (Compile.openOnce name collect).run opened = .ok ([], opened) := by
      simp only [Compile.openOnce, StateT.run_bind, StateT.run_get, pure_bind, if_pos hname]
      rfl
    rw [hrun]
    exact ⟨hnil, hskipped opened hbefore⟩
  · have hrun : (Compile.openOnce name collect).run opened = collect.run (name :: opened) := by
      simp only [Compile.openOnce, StateT.run_bind, StateT.run_get, pure_bind, if_neg hname]
      rfl
    rw [hrun]
    exact h _ (hopened opened hbefore hname)

theorem Ensures.openAll {collect : Construct → Opening (List α)} {constructs : List Construct}
    {P : List α → Prop} (hnil : P []) (happend : ∀ left right, P left → P right → P (left ++ right))
    (h : ∀ construct ∈ constructs, (collect construct).Ensures before before failed P) :
    (openAll collect constructs).Ensures before before failed P := by
  induction constructs with
  | nil => exact .pure hnil
  | cons construct others ih =>
    refine .bind (h construct List.mem_cons_self) fun first hfirst => ?_
    refine .bind (ih fun other hother => h other (List.mem_cons_of_mem _ hother)) ?_
    exact fun rest hrest => .pure (happend first rest hfirst hrest)

end Opening

namespace Scope

variable {scope : Scope}

section Lookups

theorem ordinary_elementName {reference : ElementRef} {error : CompileError}
    (h : scope.elementName reference = .error error) : scope.Ordinary error := by
  unfold elementName at h
  cases hname : scope.index.elementName reference with
  | error cause =>
    rw [hname] at h
    obtain rfl := Except.error.inj h
    exact ordinary_of_ne (by simp) (by simp)
  | ok name =>
    rw [hname] at h
    cases h

theorem ordinary_attributeName {use : AttributeDeclaration} {error : CompileError}
    (h : scope.attributeName use = .error error) : scope.Ordinary error := by
  unfold attributeName at h
  cases hname : scope.index.attributeName use with
  | error cause =>
    rw [hname] at h
    obtain rfl := Except.error.inj h
    exact ordinary_of_ne (by simp) (by simp)
  | ok name =>
    rw [hname] at h
    cases h

theorem modelGroup_eq_ok {here : Address} {name : ExpandedName} {group : ModelGroup}
    (h : scope.modelGroup here name = .ok group) :
    scope.index.set.modelGroup? name = some group := by
  unfold modelGroup at h
  cases hgroup : scope.index.set.modelGroup? name <;> simp_all

theorem ordinary_modelGroup {here : Address} {name : ExpandedName} {error : CompileError}
    (h : scope.modelGroup here name = .error error) : scope.Ordinary error := by
  unfold modelGroup at h
  cases hgroup : scope.index.set.modelGroup? name with
  | some group => simp [hgroup] at h
  | none =>
    simp only [hgroup, Except.error.injEq] at h
    exact h ▸ ordinary_of_ne (by simp) (by simp)

theorem attributeGroup_eq_ok {here : Address} {name : ExpandedName} {group : AttributeGroup}
    (h : scope.attributeGroup here name = .ok group) :
    scope.index.set.attributeGroup? name = some group := by
  unfold attributeGroup at h
  cases hgroup : scope.index.set.attributeGroup? name <;> simp_all

theorem ordinary_attributeGroup {here : Address} {name : ExpandedName} {error : CompileError}
    (h : scope.attributeGroup here name = .error error) : scope.Ordinary error := by
  unfold attributeGroup at h
  cases hgroup : scope.index.set.attributeGroup? name with
  | some group => simp [hgroup] at h
  | none =>
    simp only [hgroup, Except.error.injEq] at h
    exact h ▸ ordinary_of_ne (by simp) (by simp)

theorem ordinary_baseType {here : Address} {base : TypeRef} {error : CompileError}
    (h : scope.baseType here base = .error error) : scope.Ordinary error := by
  unfold baseType at h
  cases htype : scope.types.resolve? base with
  | some type => simp [htype] at h
  | none =>
    simp only [htype, Except.error.injEq] at h
    exact h ▸ ordinary_of_ne (by simp) (by simp)

end Lookups

section Bounded

/-- While a bound is left, fewer groups than the schema has, with the bound, were opened. -/
structure Spares (keys : List ExpandedName) (left : Nat) (opened : List ExpandedName) : Prop where
  nodup : opened.Nodup
  subset : opened ⊆ keys
  lt : keys.length < left + opened.length

theorem not_spares_zero {keys opened : List ExpandedName} : ¬ Spares keys 0 opened := by
  intro h
  have hle := (List.subperm_of_subset h.nodup h.subset).length_le
  have hlt := h.lt
  omega

theorem Spares.more {keys opened : List ExpandedName} {left : Nat} (h : Spares keys left opened) :
    Spares keys (left + 1) opened :=
  ⟨h.nodup, h.subset, by have hlt := h.lt; omega⟩

theorem Spares.cons {keys opened : List ExpandedName} {left : Nat} {name : ExpandedName}
    (h : Spares keys (left + 1) opened) (hnew : name ∉ opened) (hname : name ∈ keys) :
    Spares keys left (name :: opened) := by
  refine ⟨List.nodup_cons.mpr ⟨hnew, h.nodup⟩, List.cons_subset.mpr ⟨hname, h.subset⟩, ?_⟩
  have hlt := h.lt
  rw [List.length_cons]
  omega

end Bounded

section Names

/-- What stands for an element: the members of a head, or its own name. -/
theorem candidate_of_memberNames {here : Address} {name member : PrefixedName}
    (h : member ∈ scope.memberNames here name) : scope.Candidate here member := by
  unfold memberNames at h
  split at h
  · rename_i head hhead
    obtain ⟨hnode, hishead⟩ := Option.filter_eq_some_iff.mp hhead
    have hbeside : (here.child name).segments = here.segments ++ [.element name none] := rfl
    exact .listed hbeside hnode hishead h
  · rename_i hnone
    obtain rfl := List.mem_singleton.mp h
    refine .itself fun node hnode => ?_
    simpa [hnode] using hnone

/-- Each group that is opened leaves fewer of them to open, and what a group holds is no higher than
the schema allows. -/
theorem ensures_leavesOf (scope : Scope) (here : Address) (depth : Nat) :
    ∀ left construct, left * (scope.index.set.contentHeight + 1) + construct.height ≤ depth →
      (scope.leavesOf here depth construct).Ensures
        (Spares (scope.index.set.modelGroups.map Prod.fst) left)
        (Spares (scope.index.set.modelGroups.map Prod.fst) left) scope.Ordinary
        fun names => ∀ name ∈ names, scope.Candidate here name := by
  have hnil : ∀ name ∈ ([] : List PrefixedName), scope.Candidate here name := by simp
  have happend : ∀ left right : List PrefixedName, (∀ name ∈ left, scope.Candidate here name) →
      (∀ name ∈ right, scope.Candidate here name) →
        ∀ name ∈ left ++ right, scope.Candidate here name := by
    intro left right hleft hright name hname
    exact (List.mem_append.mp hname).elim (hleft name) (hright name)
  induction depth with
  | zero =>
    intro left construct hdepth
    have hpos := construct.height_pos
    omega
  | succ depth ih =>
    intro left construct hdepth
    set keys := scope.index.set.modelGroups.map Prod.fst
    cases construct with
    | element reference occurs =>
      refine .bind (P := fun _ => True) (.except (fun _ _ => trivial)
        fun _ => ordinary_elementName) fun name _ => .pure ?_
      exact fun member hmember => candidate_of_memberNames hmember
    | compositor kind occurs children =>
      refine .openAll hnil happend fun child hchild => ih left child ?_
      have hheight := Construct.height_le_heights hchild
      simp only [Construct.height] at hdepth
      omega
    | group name occurs =>
      cases left with
      | zero => exact fun opened h => absurd h not_spares_zero
      | succ left =>
        -- An undefined group is entered among the opened ones before it is found to be undefined.
        refine .openOnce hnil (fun _ h => h) (fun opened h hnew hname => h.cons hnew hname)
          (?_ : Opening.Ensures (fun opened => name ∈ keys → Spares keys left opened) _ _ _ _)
        refine .bind (.except (fun _ => modelGroup_eq_ok) fun _ => ordinary_modelGroup) ?_
        intro group hgroup
        have hname : name ∈ keys := List.mem_map.mpr ⟨_, mem_of_lookup hgroup, rfl⟩
        have hheights := SchemaSet.heights_children_le hgroup
        refine .weaken (.openAll hnil happend fun child hchild => ih left child ?_)
          (fun opened h => h hname) fun opened h => h.more
        have hheight := Construct.height_le_heights hchild
        rw [Nat.succ_mul] at hdepth
        omega
    | wildcard occurs => exact .pure fun name hname => .wildcard (List.mem_singleton.mp hname)
    | _ => exact .pure hnil

/-- A choice names candidates, and the bound on its names is never exhausted. -/
theorem names_of_leafNames (scope : Scope) (here : Address) (constructs : List Construct) :
    match scope.leafNames here constructs with
    | .ok names => ∀ name ∈ names, scope.Candidate here name
    | .error error => scope.Ordinary error := by
  have hbound : (scope.index.set.modelGroups.length + 1) * (scope.index.set.contentHeight + 1) ≤
      scope.index.set.walkDepth := Nat.mul_le_mul_right _ (by omega)
  have hall : (openAll (scope.leavesOf here (scope.leavesDepth constructs)) constructs).Ensures
      (Spares (scope.index.set.modelGroups.map Prod.fst) (scope.index.set.modelGroups.length + 1))
      (Spares (scope.index.set.modelGroups.map Prod.fst) (scope.index.set.modelGroups.length + 1))
      scope.Ordinary fun names => ∀ name ∈ names, scope.Candidate here name := by
    refine .openAll (by simp) ?_ fun construct hconstruct => ?_
    · intro left right hleft hright name hname
      exact (List.mem_append.mp hname).elim (hleft name) (hright name)
    · have hheight := Construct.height_le_heights hconstruct
      refine ensures_leavesOf scope here _ _ construct ?_
      rw [leavesDepth]
      omega
  have hrun := hall [] ⟨List.nodup_nil, List.nil_subset _, by simp⟩
  rw [leafNames_eq_map]
  cases hresult : (openAll (scope.leavesOf here (scope.leavesDepth constructs)) constructs).run []
    with
  | error error =>
    rw [hresult] at hrun
    exact hrun
  | ok result =>
    rw [hresult] at hrun
    exact fun name hname => hrun.1 name (List.mem_eraseDups.mp hname)

theorem candidates_of_leafNames {here : Address} {constructs : List Construct}
    {names : List PrefixedName} (h : scope.leafNames here constructs = .ok names) :
    ∀ name ∈ names, scope.Candidate here name := by
  simpa [h] using names_of_leafNames scope here constructs

theorem ordinary_leafNames {here : Address} {constructs : List Construct} {error : CompileError}
    (h : scope.leafNames here constructs = .error error) : scope.Ordinary error := by
  simpa [h] using names_of_leafNames scope here constructs

end Names

section Attributes

theorem ensures_usesOf (scope : Scope) (here : Address) (depth : Nat) :
    ∀ name, (scope.usesOf here depth name).Ensures
      (Spares (scope.index.set.attributeGroups.map Prod.fst) depth)
      (Spares (scope.index.set.attributeGroups.map Prod.fst) depth) scope.Ordinary
      fun _ => True := by
  induction depth with
  | zero => exact fun name opened h => absurd h not_spares_zero
  | succ depth ih =>
    intro name
    set keys := scope.index.set.attributeGroups.map Prod.fst
    -- An undefined group is entered among the opened ones before it is found to be undefined.
    refine .openOnce trivial (fun _ h => h) (fun opened h hnew hname => h.cons hnew hname)
      (?_ : Opening.Ensures (fun opened => name ∈ keys → Spares keys depth opened) _ _ _ _)
    refine .bind (.except (fun _ => attributeGroup_eq_ok) fun _ => ordinary_attributeGroup) ?_
    intro group hgroup
    have hname : name ∈ keys := List.mem_map.mpr ⟨_, mem_of_lookup hgroup, rfl⟩
    refine .weaken (.openAll trivial (fun _ _ _ _ => trivial) fun construct _ => ?_)
      (fun opened h => h hname) fun opened h => h.more
    cases construct with
    | attributeGroup nested => exact ih nested
    | _ => exact .pure trivial

/-- The bound on attribute groups is never exhausted. -/
theorem ordinary_groupAttributes {here : Address} {name : ExpandedName} {error : CompileError}
    (h : scope.groupAttributes here name = .error error) : scope.Ordinary error := by
  have hrun := ensures_usesOf scope here
    (scope.index.set.attributeGroups.length + 2) name []
    ⟨List.nodup_nil, by simp, by simp⟩
  unfold groupAttributes at h
  cases hresult : (scope.usesOf here (scope.index.set.attributeGroups.length + 2) name).run [] with
  | ok result => simp [hresult, bind, Except.bind, pure, Except.pure] at h
  | error cause =>
    simp only [hresult, bind, Except.bind, Except.error.injEq] at h
    rw [hresult] at hrun
    exact h ▸ hrun

end Attributes

end Scope

end Compile

end SchemaForms
