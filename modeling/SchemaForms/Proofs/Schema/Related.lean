import SchemaForms.Proofs.Schema.Tied

/-!
Schemas that say the same. They are the same up to the places of types and the order of what is
found by name. This stays so while the same elements are read into both, and it comes about when two
elements are read in either order, unless both declare elements or what they declare has one name.
-/

namespace SchemaForms

namespace Component

def type? : Component → Option (ExpandedName × TypeId)
  | .type name id => some (name, id)
  | _ => none

def element? : Component → Option (ExpandedName × ElementDeclaration)
  | .element declaration => some (declaration.name, declaration)
  | _ => none

def attr? : Component → Option (ExpandedName × AttributeDeclaration)
  | .attr declaration => some (declaration.name, declaration)
  | _ => none

def attributeGroup? : Component → Option (ExpandedName × AttributeGroup)
  | .attributeGroup group => some (group.name, group)
  | _ => none

def modelGroup? : Component → Option (ExpandedName × ModelGroup)
  | .modelGroup group => some (group.name, group)
  | _ => none

/-- The members of substitution groups after the component was entered. -/
def membersWith (component : Component) (members : List (ExpandedName × List ExpandedName)) :
    List (ExpandedName × List ExpandedName) :=
  match component with
  | .element declaration => SchemaSet.membersWith members declaration
  | _ => members

section Key

variable {component : Component}

theorem key?_of_type {entry : ExpandedName × TypeId} (h : entry ∈ component.type?) :
    component.key? = some (.type, entry.1) := by
  cases component <;> cases h
  rfl

theorem key?_of_element {entry : ExpandedName × ElementDeclaration}
    (h : entry ∈ component.element?) : component.key? = some (.element, entry.1) := by
  cases component <;> cases h
  rfl

theorem key?_of_attr {entry : ExpandedName × AttributeDeclaration}
    (h : entry ∈ component.attr?) : component.key? = some (.attr, entry.1) := by
  cases component <;> cases h
  rfl

theorem key?_of_attributeGroup {entry : ExpandedName × AttributeGroup}
    (h : entry ∈ component.attributeGroup?) :
    component.key? = some (.attributeGroup, entry.1) := by
  cases component <;> cases h
  rfl

theorem key?_of_modelGroup {entry : ExpandedName × ModelGroup}
    (h : entry ∈ component.modelGroup?) : component.key? = some (.modelGroup, entry.1) := by
  cases component <;> cases h
  rfl

/-- Components that are not of one kind and name. -/
theorem ne_of_apart {left right : Component}
    (h : ∀ key ∈ left.key?, ∀ other ∈ right.key?, key ≠ other) {kind : ComponentKind}
    {name other : ExpandedName} (hleft : left.key? = some (kind, name))
    (hright : right.key? = some (kind, other)) : name ≠ other := by
  rintro rfl
  exact h _ hleft _ hright rfl

theorem element?_of_key {targetNamespace : Option String} {element : Xml.Element}
    (hkey : component.key? = Reading.declared? targetNamespace element)
    (htag : element.name.localName ≠ "element") : component.element? = none := by
  cases helement : component.element? with
  | none => rfl
  | some entry =>
    rw [key?_of_element helement] at hkey
    exact absurd (Reading.eq_element_of_declared? hkey.symm) htag

/-- Only elements change the members of substitution groups. -/
theorem membersWith_of_not_element (h : component.element? = none) :
    component.membersWith = id := by
  cases component with
  | element declaration => cases h
  | _ => rfl

end Key

section Matches

variable {matching : Matching} {left right : Component} (h : left.Matches matching right)

include h

theorem Matches.element? :
    Option.Rel (Keyed.Entry (ElementDeclaration.Matches matching)) left.element?
      right.element? := by
  cases h with
  | element h => exact .some ⟨by rw [h.same], h⟩
  | _ => exact .none

theorem Matches.attr? :
    Option.Rel (Keyed.Entry (AttributeDeclaration.Matches matching)) left.attr? right.attr? := by
  cases h with
  | attr h => exact .some ⟨by rw [h.same], h⟩
  | _ => exact .none

theorem Matches.attributeGroup? :
    Option.Rel (Keyed.Entry (AttributeGroup.Matches matching)) left.attributeGroup?
      right.attributeGroup? := by
  cases h with
  | attributeGroup h => exact .some ⟨by rw [h.same], h⟩
  | _ => exact .none

theorem Matches.modelGroup? :
    Option.Rel (Keyed.Entry (ModelGroup.Matches matching)) left.modelGroup?
      right.modelGroup? := by
  cases h with
  | modelGroup h => exact .some ⟨by rw [h.same], h⟩
  | _ => exact .none

theorem Matches.membersWith_eq : left.membersWith = right.membersWith := by
  cases h with
  | element h =>
    funext members
    rw [Component.membersWith, Component.membersWith, SchemaSet.membersWith,
      SchemaSet.membersWith, h.same]
  | _ => rfl

end Matches

theorem Matches.type? {world : World} {left right : Component}
    (h : left.Matches world.matching right) :
    Option.Rel (Keyed.Entry world.pairs) left.type? right.type? := by
  cases h with
  | type href =>
    cases href with
    | anonymous hpair => exact .some ⟨rfl, hpair⟩
  | _ => exact .none

theorem Matches.mono {matching weaker : Matching} (himplies : matching.Implies weaker)
    {left right : Component} (h : left.Matches matching right) : left.Matches weaker right := by
  cases h with
  | type href => exact .type (himplies.ref _ _ href)
  | element h => exact .element (h.mono himplies)
  | attr h => exact .attr (h.mono himplies)
  | attributeGroup h => exact .attributeGroup (h.mono himplies)
  | modelGroup h => exact .modelGroup (h.mono himplies)
  | nothing => exact .nothing

end Component

namespace SchemaSet

theorem enter_eq (set : SchemaSet) (component : Component) : set.enter component = {
    documents := set.documents
    types := set.types.call? component.type?
    elements := Keyed.put? component.element? set.elements
    attributes := Keyed.put? component.attr? set.attributes
    attributeGroups := Keyed.put? component.attributeGroup? set.attributeGroups
    modelGroups := Keyed.put? component.modelGroup? set.modelGroups
    members := component.membersWith set.members } := by
  cases component with
  | element declaration => exact addElement_eq set declaration
  | _ => rfl

def world (pairs : TypeId → TypeId → Prop) (left right : SchemaSet) : World :=
  ⟨left.types, right.types, pairs, fun _ => True⟩

/-- Schemas that say the same, when types are paired. -/
structure Related (pairs : TypeId → TypeId → Prop) (left right : SchemaSet) : Prop where
  tied : (world pairs left right).Tied
  documents : left.documents = right.documents
  elements : Keyed.Alike (ElementDeclaration.Matches (world pairs left right).matching)
    left.elements right.elements
  attributes : Keyed.Alike (AttributeDeclaration.Matches (world pairs left right).matching)
    left.attributes right.attributes
  attributeGroups : Keyed.Alike (AttributeGroup.Matches (world pairs left right).matching)
    left.attributeGroups right.attributeGroups
  modelGroups : Keyed.Alike (ModelGroup.Matches (world pairs left right).matching)
    left.modelGroups right.modelGroups
  members : left.members = right.members

variable {pairs : TypeId → TypeId → Prop} {left right set : SchemaSet} {origin : Origin}
  {element : Xml.Element}

/-- What is read into one table is read into any other one as well. -/
theorem exists_alike (right : TypeTable) {left types : TypeTable} {component : Component}
    (hrun : (Reading.component origin element).run.run left = (.ok component, types)) :
    ∃ later component', (World.start left right fun _ => True).Extends later ∧ later.Sound ∧
      later.left = types ∧ component.Matches later.matching component' ∧
      (Reading.component origin element).run.run right = (.ok component', later.right) := by
  have huniform : Reading.Uniform origin Component.Matches (Reading.component origin element) :=
    Reading.uniform_component element
  obtain ⟨later, hextends, hsound, hleft, hright, hagree⟩ :=
    huniform (World.start left right fun _ => True) trivial (World.sound_start ..)
  have hleft : ((Reading.component origin element).run.run left).2 = later.left := hleft
  have hright : ((Reading.component origin element).run.run right).2 = later.right := hright
  have hagree : Agree (Component.Matches later.matching)
    ((Reading.component origin element).run.run left).1
    ((Reading.component origin element).run.run right).1 := hagree
  rcases hrun' : (Reading.component origin element).run.run right with ⟨result, types'⟩
  rw [hrun] at hleft hagree
  rw [hrun'] at hright hagree
  cases hagree with
  | ok hmatches => exact ⟨later, _, hextends, hsound, hleft.symm, hmatches, by rw [← hright]⟩

/-- A component that was read and what the table was then. -/
theorem exists_of_read (h : (set.read origin element).1 = .ok ()) : ∃ component types,
    (Reading.component origin element).run.run set.types = (.ok component, types) ∧
      (set.read origin element).2 = enter { set with types := types } component := by
  unfold read enterRead at h ⊢
  rcases hrun : (Reading.component origin element).run.run set.types with ⟨error | component, types⟩
  · rw [hrun] at h
    cases h
  · exact ⟨component, types, rfl, rfl⟩

theorem read_of_run {component : Component} {types : TypeTable}
    (h : (Reading.component origin element).run.run set.types = (.ok component, types)) :
    set.read origin element = (.ok (), enter { set with types := types } component) := by
  rw [read, enterRead, h]

/-- What is read into two schemas that say the same is read into both, and they still do. -/
theorem Related.read (h : Related pairs left right)
    (hok : (left.read origin element).1 = .ok ()) :
    (right.read origin element).1 = .ok () ∧
      ∃ pairs', Related pairs' (left.read origin element).2 (right.read origin element).2 := by
  obtain ⟨component, types, hrun, hleft⟩ := exists_of_read hok
  obtain ⟨later, component', hextends, hsound, rfl, hmatches, hrun'⟩ :=
    exists_alike right.types hrun
  rw [hleft, read_of_run hrun', enter_eq, enter_eq]
  have hextends : (World.start (world pairs left right).left (world pairs left right).right
    (world pairs left right).documents).Extends later := hextends
  obtain ⟨himplies, hnew⟩ := hextends.implies_read
  have hread := h.tied.read hextends hsound
  have hcomponent := hmatches.mono hnew
  have hcalled := hread.call? hcomponent.type?
  have hmoved : (((world pairs left right).moved later.left later.right).join
      later.pairs).matching.Implies _ :=
    World.implies_moved (TypeTable.stays_call? later.left component.type?)
      (TypeTable.stays_call? later.right component'.type?)
  have hold := himplies.trans hmoved
  have hmade := hcomponent.mono hmoved
  refine ⟨rfl, _, hcalled, h.documents, ?_, ?_, ?_, ?_, ?_⟩
  · exact (h.elements.mono fun _ _ h => h.mono hold).put? hmade.element?
  · exact (h.attributes.mono fun _ _ h => h.mono hold).put? hmade.attr?
  · exact (h.attributeGroups.mono fun _ _ h => h.mono hold).put? hmade.attributeGroup?
  · exact (h.modelGroups.mono fun _ _ h => h.mono hold).put? hmade.modelGroup?
  · show component.membersWith left.members = component'.membersWith right.members
    rw [hmatches.membersWith_eq, h.members]

theorem Related.readAll (h : Related pairs left right) {elements : List Xml.Element}
    (hok : (left.readAll origin elements).1 = .ok ()) :
    (right.readAll origin elements).1 = .ok () ∧
      ∃ pairs', Related pairs' (left.readAll origin elements).2
        (right.readAll origin elements).2 := by
  induction elements generalizing pairs left right with
  | nil => exact ⟨rfl, pairs, h⟩
  | cons element others ih =>
    have hread := read_of_readAll hok
    rw [readAll_cons hread] at hok
    obtain ⟨hread', pairs', hrelated⟩ := h.read hread
    rw [readAll_cons hread, readAll_cons hread']
    exact ih hrelated hok

/-- No two components of one kind have the same name. -/
structure Distinct (set : SchemaSet) : Prop where
  elements : (Keyed.keys set.elements).Nodup
  attributes : (Keyed.keys set.attributes).Nodup
  attributeGroups : (Keyed.keys set.attributeGroups).Nodup
  modelGroups : (Keyed.keys set.modelGroups).Nodup

theorem lasts_distinct : Lasts Distinct where
  initial := ⟨List.nodup_nil, List.nodup_nil, List.nodup_nil, List.nodup_nil⟩
  enterDocument _ _ h := ⟨h.elements, h.attributes, h.attributeGroups, h.modelGroups⟩
  read set origin element h _ := by
    unfold read enterRead
    rcases (Reading.component origin element).run.run set.types with ⟨error | component, types⟩
    · exact ⟨h.elements, h.attributes, h.attributeGroups, h.modelGroups⟩
    · show Distinct (enter _ component)
      rw [enter_eq]
      exact ⟨Keyed.nodup_keys_put? h.elements, Keyed.nodup_keys_put? h.attributes,
        Keyed.nodup_keys_put? h.attributeGroups, Keyed.nodup_keys_put? h.modelGroups⟩

section Diagonal

variable (hclosed : set.Closed)

include hclosed

theorem Closed.reflects : ∀ link ∈ set.links,
    (World.diagonal set.types fun _ => True).matching.Reflects link := by
  intro link hlink
  have hresolves := hclosed.links link hlink
  match link, hresolves with
  | .type (.anonymous id), hid => exact .anonymous ⟨rfl, hid⟩
  | .type (.named name), hname => exact .named fun hbuiltin => ⟨hname hbuiltin, hname hbuiltin⟩
  | .document id, _ => trivial

theorem Closed.sound_diagonal : (World.diagonal set.types fun _ => True).Sound where
  one_to_one := by
    rintro left _ left' _ ⟨rfl, -⟩ ⟨rfl, -⟩
    rfl
  defined := by
    rintro left _ ⟨rfl, hlt⟩
    have hlinks := (forall_mem_links.mp hclosed.reflects).1
    have hmatches := TypeDefinition.matches_self (hlinks _ (List.getElem_mem hlt))
    exact ⟨_, _, List.getElem?_eq_getElem hlt, List.getElem?_eq_getElem hlt, hmatches⟩

/-- A schema says the same as itself. -/
theorem Closed.related_self (hdistinct : set.Distinct) :
    Related (World.diagonal set.types fun _ => True).pairs set set := by
  obtain ⟨helements, hattributes, hattributeGroups, hmodelGroups⟩ :=
    forall_mem_declaredLinks.mp (forall_mem_links.mp hclosed.reflects).2
  have hnamed : ∀ name, Option.Rel (World.diagonal set.types fun _ => True).Same
      (set.types.namedType? name) (set.types.namedType? name) := by
    intro name
    cases hname : set.types.namedType? name with
    | none => exact .none
    | some id => exact .some (.inl ⟨rfl, hclosed.named name id hname⟩)
  exact {
    tied := ⟨hclosed.sound_diagonal, hnamed, .refl _⟩
    documents := rfl
    elements := .refl hdistinct.elements fun entry hentry =>
      ElementDeclaration.matches_self (helements entry hentry)
    attributes := .refl hdistinct.attributes fun entry hentry =>
      AttributeDeclaration.matches_self (hattributes entry hentry)
    attributeGroups := .refl hdistinct.attributeGroups fun entry hentry =>
      AttributeGroup.matches_self (hattributeGroups entry hentry)
    modelGroups := .refl hdistinct.modelGroups fun entry hentry =>
      ModelGroup.matches_self (hmodelGroups entry hentry)
    members := rfl }

end Diagonal

section Swapped

variable {one other : Component} {one' other' : Component} {first second : World}

/-- Two components that are entered in this order on the left and in the other order on the right,
when they are not of one kind and name and at most one of them is an element. -/
theorem related_swapped
    (hself : Related (World.diagonal set.types fun _ => True).pairs set set)
    (hswaps : World.Swaps set.types (fun _ => True) first second one.type? one'.type? other.type?
      other'.type?)
    (hone : one.Matches first.matching one') (hother : other.Matches second.matching other')
    (hkeys : ∀ key ∈ one.key?, ∀ key' ∈ other.key?, key ≠ key')
    (hfree : one.element? = none ∨ other.element? = none) :
    Related (World.swapped set.types (fun _ => True) first second one'.type? other.type?).pairs
      (enter { enter { set with types := first.left } one with types := second.left } other)
      (enter { enter { set with types := second.right } other' with types := first.right }
        one') := by
  obtain ⟨hold, himplies, himplies'⟩ := hswaps.implies
  have hmade := hone.mono himplies
  have hmade' := hother.mono himplies'
  rw [enter_eq, enter_eq, enter_eq, enter_eq]
  refine ⟨hswaps.tied, rfl, ?_, ?_, ?_, ?_, ?_⟩
  · exact (hself.elements.mono fun _ _ h => h.mono hold).put?_swapped hmade.element?
      hmade'.element? fun entry hentry entry' hentry' => Component.ne_of_apart hkeys
        (Component.key?_of_element hentry) (Component.key?_of_element hentry')
  · exact (hself.attributes.mono fun _ _ h => h.mono hold).put?_swapped hmade.attr?
      hmade'.attr? fun entry hentry entry' hentry' => Component.ne_of_apart hkeys
        (Component.key?_of_attr hentry) (Component.key?_of_attr hentry')
  · exact (hself.attributeGroups.mono fun _ _ h => h.mono hold).put?_swapped hmade.attributeGroup?
      hmade'.attributeGroup? fun entry hentry entry' hentry' => Component.ne_of_apart hkeys
        (Component.key?_of_attributeGroup hentry) (Component.key?_of_attributeGroup hentry')
  · exact (hself.modelGroups.mono fun _ _ h => h.mono hold).put?_swapped hmade.modelGroup?
      hmade'.modelGroup? fun entry hentry entry' hentry' => Component.ne_of_apart hkeys
        (Component.key?_of_modelGroup hentry) (Component.key?_of_modelGroup hentry')
  · show other.membersWith (one.membersWith set.members) =
      one'.membersWith (other'.membersWith set.members)
    rw [← hone.membersWith_eq, ← hother.membersWith_eq]
    rcases hfree with hnone | hnone
    · rw [Component.membersWith_of_not_element hnone, id, id]
    · rw [Component.membersWith_of_not_element hnone, id, id]

end Swapped

/-- What is entered for an element has the key that the element declares. -/
theorem key?_of_run {component : Component} {types types' : TypeTable}
    (h : (Reading.component origin element).run.run types = (.ok component, types')) :
    component.key? = Reading.declared? origin.targetNamespace element :=
  (Reading.keeps_component element types trivial).2 component (by rw [h])

/-- Two elements may be read in either order, unless both declare elements or what they declare has
one kind and name. -/
theorem read_swapped (hclosed : set.Closed) (hdistinct : set.Distinct) {one other : Xml.Element}
    (hapart : ∀ key ∈ Reading.declared? origin.targetNamespace one,
      ∀ key' ∈ Reading.declared? origin.targetNamespace other, key ≠ key')
    (hfree : ¬ (one.name.localName = "element" ∧ other.name.localName = "element"))
    (hone : (set.read origin one).1 = .ok ())
    (hother : ((set.read origin one).2.read origin other).1 = .ok ()) :
    (set.read origin other).1 = .ok () ∧ ((set.read origin other).2.read origin one).1 = .ok () ∧
      ∃ pairs, Related pairs ((set.read origin one).2.read origin other).2
        ((set.read origin other).2.read origin one).2 := by
  obtain ⟨made, types, hrun, hset⟩ := exists_of_read hone
  rw [hset] at hother ⊢
  obtain ⟨made₂, types₂, hrun₂, hset₂⟩ := exists_of_read hother
  rw [hset₂]
  -- on the right, the second one is read into the schema as it is, and the first one after it
  obtain ⟨second, made₂', hextends₂, hsound₂, rfl, hmatches₂, hrun₂'⟩ :=
    exists_alike set.types hrun₂
  rw [read_of_run hrun₂']
  obtain ⟨first, made', hextends, hsound, rfl, hmatches, hrun'⟩ :=
    exists_alike (enter { set with types := second.right } made₂').types hrun
  rw [read_of_run hrun']
  rw [enter_eq] at hextends hextends₂
  have hkey := key?_of_run hrun
  have hkey₂ := key?_of_run hrun₂
  have hkeys : ∀ key ∈ made.key?, ∀ key' ∈ made₂.key?, key ≠ key' := by
    rw [hkey, hkey₂]
    exact hapart
  have hswaps : World.Swaps set.types (fun _ => True) first second made.type? made'.type?
      made₂.type? made₂'.type? :=
    { self := hclosed.sound_diagonal
      range := hclosed.named
      extends_first := hextends
      extends_second := hextends₂
      sound_first := hsound
      sound_second := hsound₂
      pair_first := hmatches.type?
      pair_second := hmatches₂.type?
      distinct := fun entry hentry entry' hentry' =>
        Component.ne_of_apart hkeys (Component.key?_of_type hentry)
          (Component.key?_of_type hentry') }
  have hnone : made.element? = none ∨ made₂.element? = none := by
    by_cases htag : one.name.localName = "element"
    · exact .inr (Component.element?_of_key hkey₂ fun htag₂ => hfree ⟨htag, htag₂⟩)
    · exact .inl (Component.element?_of_key hkey htag)
  have hself := hclosed.related_self hdistinct
  exact ⟨rfl, rfl, _, related_swapped hself hswaps hmatches hmatches₂ hkeys hnone⟩

end SchemaSet

end SchemaForms
