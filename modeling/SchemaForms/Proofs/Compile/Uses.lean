import SchemaForms.Proofs.Compile.Gathering

/-!
The attributes that the content of an element shows. Each reference to an attribute group is opened
anew, so groups that refer to a common one show its attributes repeatedly, and an extension shows
beside its own attributes those of its base. Choices show no attributes, and nothing is shown of a
reference that leads to an undefined group.
-/

namespace SchemaForms.SchemaSet

variable (set : SchemaSet)

/-- A construct whose attributes, if it has any, are not shown. -/
def ShowsNoUse : Construct → Prop
  | .attributeGroup name => ∃ missing,
      Relation.ReflTransGen set.AttributeGroupRefers name missing ∧
        set.attributeGroup? missing = none
  | .compositor kind _ _ => kind = .choice
  | .group name _ => ∀ group, set.modelGroup? name = some group → group.kind = .choice
  | .element _ _ => True
  | .wildcard _ => True
  | .other _ => True
  | _ => False

/-- The attributes that constructs show, one by one: with the groups of a reference, each of them
once, those that a compositor holds, and those of model groups. -/
inductive ShowsUses : List Construct → List AttributeDeclaration → Prop
  | nil : ShowsUses [] []
  | use {use others uses} (hothers : ShowsUses others uses) :
      ShowsUses (.attributeUse use :: others) (use :: uses)
  | attributeGroup {name groups others uses} (hopens : set.OpensGroups name groups)
      (hothers : ShowsUses others uses) :
      ShowsUses (.attributeGroup name :: others) (groups.flatMap set.ownUses ++ uses)
  | compositor {kind occurs children inner others uses} (hkind : kind ≠ .choice)
      (hchildren : ShowsUses children inner) (hothers : ShowsUses others uses) :
      ShowsUses (.compositor kind occurs children :: others) (inner ++ uses)
  | group {name occurs group inner others uses} (hgroup : set.modelGroup? name = some group)
      (hkind : group.kind ≠ .choice) (hchildren : ShowsUses group.children inner)
      (hothers : ShowsUses others uses) :
      ShowsUses (.group name occurs :: others) (inner ++ uses)
  | none {construct others uses} (hnone : set.ShowsNoUse construct)
      (hothers : ShowsUses others uses) : ShowsUses (construct :: others) uses

/-- The constructs beside the text of an element, after so many steps along the bases at most. What
a restriction restates is not shown. -/
inductive ShowsBesideText : Nat → Derivation → List Construct → Prop
  | restricted {steps base children} :
      ShowsBesideText (steps + 1) ⟨.restriction, base, children⟩ []
  | value {steps base type children} (hbase : set.types.resolve? base = some type)
      (hvalue : ∀ inner derivation, set.types.definition type = .complex inner →
        inner.model ≠ .textOnly derivation) :
      ShowsBesideText (steps + 1) ⟨.extension, base, children⟩ children
  | extended {steps base type inner derivation inherited children}
      (hbase : set.types.resolve? base = some type)
      (hinner : set.types.definition type = .complex inner)
      (hmodel : inner.model = .textOnly derivation)
      (hinherited : ShowsBesideText steps derivation inherited) :
      ShowsBesideText (steps + 1) ⟨.extension, base, children⟩ (inherited ++ children)

/-- The constructs that a content model shows, after so many steps along the bases at most. -/
inductive ShowsContent : Nat → ContentModel → List Construct → Prop
  | constructs {steps content} : ShowsContent steps (.constructs content) content
  | textOnly {steps derivation constructs}
      (h : set.ShowsBesideText TypeTable.maxDerivationDepth derivation constructs) :
      ShowsContent steps (.textOnly derivation) constructs
  | restated {steps base children} :
      ShowsContent steps (.derived ⟨.restriction, base, children⟩) children
  | ofSimple {steps base type children} (hbase : set.types.resolve? base = some type)
      (hsimple : (set.types.definition type).isComplex = false) :
      ShowsContent (steps + 1) (.derived ⟨.extension, base, children⟩) children
  | extended {steps base type inner inherited children}
      (hbase : set.types.resolve? base = some type)
      (hinner : set.types.definition type = .complex inner)
      (hinherited : ShowsContent steps inner.model inherited) :
      ShowsContent (steps + 1) (.derived ⟨.extension, base, children⟩) (inherited ++ children)

variable {set} {left right : List Construct} {uses others : List AttributeDeclaration}

theorem ShowsUses.append (hleft : set.ShowsUses left uses) (hright : set.ShowsUses right others) :
    set.ShowsUses (left ++ right) (uses ++ others) := by
  induction hleft with
  | nil => exact hright
  | use _ ih => exact .use ih
  | attributeGroup hopens _ ih =>
    rw [List.append_assoc]
    exact .attributeGroup hopens ih
  | compositor hkind hchildren _ _ ih =>
    rw [List.append_assoc]
    exact .compositor hkind hchildren ih
  | group hgroup hkind hchildren _ _ ih =>
    rw [List.append_assoc]
    exact .group hgroup hkind hchildren ih
  | none hnone _ ih => exact .none hnone ih

theorem OpensGroups.not_showsNoUse {name : ExpandedName} {groups : List ExpandedName}
    (h : set.OpensGroups name groups) : ¬ set.ShowsNoUse (.attributeGroup name) := by
  rintro ⟨missing, hreaches, hmissing⟩
  have hdefined := h.defined missing ((h.reached missing).mpr hreaches)
  simp [hmissing] at hdefined

/-- What is shown does not depend on how it is come by, but for its order. -/
theorem ShowsUses.perm (h : set.ShowsUses left uses) (hothers : set.ShowsUses left others) :
    uses.Perm others := by
  induction h generalizing others with
  | nil =>
    cases hothers
    exact .refl _
  | use _ ih =>
    cases hothers with
    | use hrest => exact (ih hrest).cons _
    | none hnone => exact hnone.elim
  | attributeGroup hopens _ ih =>
    cases hothers with
    | attributeGroup hopens' hrest =>
      exact ((hopens.perm hopens').flatMap_right _).append (ih hrest)
    | none hnone => exact absurd hnone hopens.not_showsNoUse
  | compositor hkind _ _ ihchildren ih =>
    cases hothers with
    | compositor _ hchildren' hrest => exact (ihchildren hchildren').append (ih hrest)
    | none hnone => exact absurd hnone hkind
  | group hgroup hkind _ _ ihchildren ih =>
    cases hothers with
    | group hgroup' _ hchildren' hrest =>
      obtain rfl := Option.some.inj (hgroup.symm.trans hgroup')
      exact (ihchildren hchildren').append (ih hrest)
    | none hnone => exact absurd (hnone _ hgroup) hkind
  | none hnone _ ih =>
    cases hothers with
    | use => exact hnone.elim
    | attributeGroup hopens => exact absurd hnone hopens.not_showsNoUse
    | compositor hkind => exact absurd hnone hkind
    | group hgroup hkind => exact absurd (hnone _ hgroup) hkind
    | none _ hrest => exact ih hrest

end SchemaForms.SchemaSet
