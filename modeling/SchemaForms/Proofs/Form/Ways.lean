import SchemaForms.Proofs.Form.Reaching

/-!
Ways to the fields of a template. What surrounds a field asks for the place that it was rendered
for, or for the parent of that place, and these are on the way to the field. The one exception are
members of a choice that other elements stand in for: their guard asks for the member, but what is
behind it is about the elements that stand in. Where no such element is beside the way, every field
is reached.
-/

namespace SchemaForms

namespace SchemaIndex

/-- Whether other elements stand in for the one at the address. -/
def isHead (index : SchemaIndex) (address : Address) : Bool :=
  (index.nodeOf? address).any SchemaNode.isSubstitutionHead

/-- No element beside the way to the address is one that others stand in for. -/
def NoHeadBeside (index : SchemaIndex) (address : Address) : Prop :=
  ∀ (parent : Address) (name head : PrefixedName), parent.segments ≠ [] →
    (parent.child name).leadsTo address = true →
      index.isHead (parent.child head) = true → head = name

end SchemaIndex

namespace TemplateNode

variable {target : Address}

theorem reachesAll_singleton {node : TemplateNode} :
    reachesAll target [node] = reaches target node := by
  simp [reachesAll]

@[simp] theorem reachesAll_append {left right : List TemplateNode} :
    reachesAll target (left ++ right) = (reachesAll target left || reachesAll target right) := by
  induction left with
  | nil => rfl
  | cons node others ih => simp [reachesAll, ih, Bool.or_assoc]

theorem reachesAll_group (kind : GroupKind) {nodes : List TemplateNode} :
    reachesAll target [.group kind nodes] = reachesAll target nodes :=
  reachesAll_singleton

theorem reachesAll_guard {place : Address} {nodes : List TemplateNode}
    (hleads : place.leadsTo target = true) (h : reachesAll target nodes = true) :
    reachesAll target [.guard .present place nodes] = true := by
  simp [reachesAll_singleton, reaches, hleads, h]

end TemplateNode

namespace Compile

open TemplateNode

variable {scope : Scope} {target : Address}

theorem reachesAll_elementGroup {address : Address} {node : SchemaNode} {row : Option Row}
    {nodes : List TemplateNode} :
    reachesAll target [scope.elementGroup address node row nodes] = reachesAll target nodes := by
  unfold Scope.elementGroup
  split
  · simp [reachesAll, reaches, Scope.header]
  · simp [reachesAll, reaches, Scope.header]

theorem reachesAll_repeated {address : Address} {node : SchemaNode} {nodes : List TemplateNode}
    (hleads : address.siblingPath.leadsTo target = true)
    (h : reachesAll target [itemIteration address nodes] = true) :
    reachesAll target (scope.repeated address node nodes) = true := by
  rw [reachesAll_singleton] at h
  have hrows : ∀ others : List TemplateNode,
      reachesAll target (itemIteration address nodes :: others) = true := by
    simp [reachesAll, h]
  rw [Scope.repeated, reachesAll_append, reachesAll_guard hleads (hrows _), Bool.true_or]

/-- Wherever the nodes have a field for the target, it is on the way and is reached. -/
def Reached (target : Address) (way : Prop) (nodes : List TemplateNode) : Prop :=
  ∀ label, .field target label ∈ skeleton nodes → way ∧ reachesAll target nodes = true

namespace Reached

variable {way : Prop} {nodes : List TemplateNode}

theorem of_controls (h : skeleton nodes = []) : Reached target way nodes := by
  simp [Reached, h]

theorem field {address : Address} {node : TemplateNode} {caption : Label}
    (hskeleton : skeleton [node] = [.field address caption])
    (hreaches : reaches address node = true) :
    Reached target (address.segments <+: target.segments) [node] := by
  intro label hfield
  rw [hskeleton] at hfield
  obtain ⟨rfl, -⟩ := Mark.field.inj (List.mem_singleton.mp hfield)
  exact ⟨List.prefix_refl _, reachesAll_singleton.trans hreaches⟩

theorem append {left right : List TemplateNode} (hleft : Reached target way left)
    (hright : Reached target way right) : Reached target way (left ++ right) := by
  intro label hfield
  rw [reachesAll_append, Bool.or_eq_true]
  rcases List.mem_append.mp (skeleton_append left right ▸ hfield) with hfound | hfound
  · exact (hleft label hfound).imp_right Or.inl
  · exact (hright label hfound).imp_right Or.inr

theorem group (kind : GroupKind) (h : Reached target way nodes) :
    Reached target way [.group kind nodes] := by
  intro label hfield
  rw [skeleton_group] at hfield
  rw [reachesAll_group]
  exact h label hfield

end Reached

/-- The target is at a place that the nodes for an address are rendered for. -/
inductive Scope.Way (scope : Scope) (target address : Address) : Prop
  | single (h : address.segments <+: target.segments)
  | repeating (hrepeating : scope.index.isRepeating address = true)
      (h : (itemAddress address).segments <+: target.segments)
  | head {parent name} (hhead : scope.index.isHead address = true)
      (hparent : address.parent? = some parent)
      (h : (itemAddress (parent.child name)).segments <+: target.segments)

/-- Where the fields are that are rendered for a place. -/
def Task.Way (scope : Scope) (target : Address) : Task → Prop
  | .occurrence address _ => address.segments <+: target.segments
  | .text address _ => address.segments <+: target.segments
  | .content here => here.segments <+: target.segments
  | .branches here => ∃ name, (itemAddress (here.child name)).segments <+: target.segments
  | .node address => scope.Way target address
  | .shown address => ∀ parent, address.parent? = some parent →
      parent.segments <+: target.segments

def Task.place : Task → Address
  | .occurrence address _ => address
  | .text address _ => address
  | .content here => here
  | .branches here => here
  | .node address => address
  | .shown address => address

theorem prefix_of_parent? {address parent : Address} (hparent : address.parent? = some parent)
    (h : address.segments <+: target.segments) : parent.segments <+: target.segments := by
  obtain ⟨-, leaf, hsegments⟩ := Address.segments_of_parent? hparent
  rw [hsegments] at h
  exact (List.prefix_append _ _).trans h

theorem parent?_itemAddress (address : Address) :
    (itemAddress address).parent? = address.parent? := by
  simp [itemAddress]

theorem itemAddress_ne_nil {address : Address} (hne : address.segments ≠ []) :
    (itemAddress address).segments ≠ [] := by
  rw [← List.length_pos_iff] at hne ⊢
  change 0 < address.depth at hne
  change 0 < (itemAddress address).depth
  simpa [itemAddress] using hne

/-- Wherever the fields are, they are below the parent. -/
theorem Scope.Way.parent {address parent : Address} (h : scope.Way target address)
    (hparent : address.parent? = some parent) : parent.segments <+: target.segments := by
  cases h with
  | single h => exact prefix_of_parent? hparent h
  | repeating hrepeating h =>
    exact prefix_of_parent? ((parent?_itemAddress address).trans hparent) h
  | head hhead hbeside h =>
    obtain rfl := Option.some.inj (hbeside.symm.trans hparent)
    obtain ⟨hne, -⟩ := Address.segments_of_parent? hparent
    exact prefix_of_parent? ((parent?_itemAddress _).trans (Address.parent?_child _ _ hne)) h

section Elements

variable (helements : ∀ segment ∈ target.segments, segment.isAttribute = false)

include helements

theorem leadsTo_of_item {address : Address} (hne : address.segments ≠ [])
    (h : (itemAddress address).segments <+: target.segments) :
    address.siblingPath.leadsTo target = true := by
  have hitem : (itemAddress address).siblingPath = address.siblingPath := by
    simp [itemAddress]
  rw [← hitem]
  exact Address.siblingPath_leadsTo_of_prefix h helements (itemAddress_ne_nil hne)

/-- A guard for a member of a choice asks for something on the way. -/
theorem Scope.Way.leadsTo (hbeside : scope.index.NoHeadBeside target) {here : Address}
    {name : PrefixedName} (hne : here.segments ≠ []) (h : scope.Way target (here.child name)) :
    (here.child name).leadsTo target = true := by
  have hchild : ∀ name : PrefixedName, (here.child name).segments ≠ [] := by
    simp [Address.child]
  have hitem : ∀ name : PrefixedName,
      (itemAddress (here.child name)).segments <+: target.segments →
        (here.child name).leadsTo target = true := by
    intro name hbegins
    have hleads := leadsTo_of_item helements (hchild name) hbegins
    simpa using hleads
  cases h with
  | single h => exact Address.leadsTo_of_prefix h helements (hchild name)
  | repeating hrepeating h => exact hitem name h
  | @head parent member hhead hparent h =>
    obtain rfl := Option.some.inj ((Address.parent?_child here name hne).symm.trans hparent)
    have hmember := hitem member h
    obtain rfl := hbeside here member name hne hmember hhead
    exact hmember

theorem reachesAll_itemIteration {address : Address} {nodes : List TemplateNode}
    (hbelow : 2 ≤ address.depth) (hbegins : (itemAddress address).segments <+: target.segments)
    (h : reachesAll target nodes = true) :
    reachesAll target [itemIteration address nodes] = true := by
  have hne : address.segments ≠ [] := by
    intro hnil
    simp [Address.depth, hnil] at hbelow
  have hleads := Address.leadsTo_of_prefix hbegins helements (itemAddress_ne_nil hne)
  have hfront := List.isPrefixOf_iff_prefix.mpr hbegins
  rw [reachesAll_singleton, itemIteration, reaches, hleads, h, hfront]
  simp [itemAddress, hbelow]

/-- A guard around what is shown asks for the place itself, or for its parent. -/
theorem reachesAll_guarded {address : Address} {nodes : List TemplateNode}
    (hne : address.segments ≠ []) (hway : scope.Way target address)
    (h : reachesAll target nodes = true) :
    reachesAll target (scope.guarded address nodes) = true := by
  unfold Scope.guarded
  cases hparent : address.parent? with
  | none => exact h
  | some parent =>
    refine reachesAll_guard ?_ h
    obtain ⟨hparentNe, -⟩ := Address.segments_of_parent? hparent
    cases hway with
    | single hbegins =>
      split
      · exact Address.leadsTo_of_prefix (prefix_of_parent? hparent hbegins) helements hparentNe
      · exact Address.leadsTo_of_prefix hbegins helements hne
    | repeating hrepeating hbegins =>
      have hway : scope.Way target address := .repeating hrepeating hbegins
      rw [if_pos (by simp [Scope.isShownByOccurrence, hrepeating])]
      exact Address.leadsTo_of_prefix (hway.parent hparent) helements hparentNe
    | head hhead hbeside hbegins =>
      have hway : scope.Way target address := .head hhead hbeside hbegins
      have hshown : scope.isShownByOccurrence address = true := by
        rw [Scope.isShownByOccurrence, Bool.or_eq_true]
        exact Or.inr hhead
      rw [if_pos (by simp [hshown])]
      exact Address.leadsTo_of_prefix (hway.parent hparent) helements hparentNe

end Elements

/-- Every field that is rendered is reached, in both modes. -/
theorem reached_of_renders {task : Task} {nodes : List TemplateNode} (h : Renders scope task nodes)
    (hne : task.place.segments ≠ [])
    (hbelow : ∀ address, scope.index.isRepeating address = true → 2 ≤ address.depth)
    (helements : ∀ segment ∈ target.segments, segment.isAttribute = false)
    (hbeside : scope.index.NoHeadBeside target) : Reached target (task.Way scope target) nodes := by
  induction h with
  | recursive => simp [Reached, mark?, contents]
  | scalar => exact .field (skeleton_scalarField _ _ _ _) (decide_eq_true rfl)
  | anything => exact .field (skeleton_anyField _ _ _) (decide_eq_true rfl)
  | element hnode hexpanded hcontent ih =>
    intro label hfield
    rw [skeleton_elementGroup] at hfield
    rw [reachesAll_elementGroup]
    exact ih hne label hfield
  | textOnly hnode hexpanded htext ih => exact ih hne
  | restricted => exact .of_controls rfl
  | value hnode hcontent ih =>
    refine .group _ (.append ?_ (ih hne))
    exact .field (skeleton_scalarField _ _ _ _) (decide_eq_true rfl)
  | extended htext hcontent ihtext ihcontent =>
    exact .group _ (.append (ihtext hne) (ihcontent hne))
  | nothing => exact .of_controls rfl
  | append hleft hright ihleft ihright => exact .append (ihleft hne) (ihright hne)
  | ownText htext ih => exact ih hne
  | compositor hcontent ih => exact .group _ (ih hne)
  | @attributeUse here name nodes hshown ih =>
    intro label hfield
    obtain ⟨hway, hreached⟩ := ih (by simp [Task.place, Address.attr]) label hfield
    exact ⟨hway here (Address.parent?_attr here name hne), hreached⟩
  | @child here name nodes hshown ih =>
    intro label hfield
    obtain ⟨hway, hreached⟩ := ih (by simp [Task.place, Address.child]) label hfield
    exact ⟨hway here (Address.parent?_child here name hne), hreached⟩
  | @alternative here name nodes hnode ih =>
    intro label hfield
    rw [skeleton_guard] at hfield
    obtain ⟨hway, hreached⟩ := ih (by simp [Task.place, Address.child]) label hfield
    have hleads := hway.leadsTo helements hbeside hne
    exact ⟨hway.parent (Address.parent?_child here name hne), reachesAll_guard hleads hreached⟩
  | @choices here nodes hbranches ih =>
    intro label hfield
    obtain ⟨⟨name, hway⟩, hreached⟩ := ih hne label hfield
    have hparent := (parent?_itemAddress _).trans (Address.parent?_child here name hne)
    exact ⟨prefix_of_parent? hparent hway, hreached⟩
  | singlePrompt => exact .of_controls (skeleton_singlePrompt _ _ _)
  | repeatedPrompt => exact .of_controls (skeleton_repeatedPrompt _ _ _)
  | noBranch => exact .of_controls rfl
  | @branch here name node isCollapsible nodes hnode hname hitem ih =>
    intro label hfield
    simp only [skeleton_guard, skeleton_itemIteration, List.mem_cons, reduceCtorEq,
      false_or] at hfield
    have hchild : (here.child name).segments ≠ [] := by simp [Address.child]
    have hdepth : 2 ≤ (here.child name).depth := by
      rw [Address.depth_child]
      exact Nat.succ_le_succ (List.length_pos_iff.mpr hne)
    obtain ⟨hway, hreached⟩ := ih (itemAddress_ne_nil hchild) label hfield
    have hleads := leadsTo_of_item helements hchild hway
    rw [Address.siblingPath_child] at hleads
    have hiteration := reachesAll_itemIteration helements hdepth hway hreached
    exact ⟨⟨name, hway⟩, reachesAll_guard hleads hiteration⟩
  | moreBranches hleft hright ihleft ihright => exact .append (ihleft hne) (ihright hne)
  | single hclassified hhead hrepeating hoccurrence ih =>
    exact fun label hfield => (ih hne label hfield).imp_left .single
  | repeating hnode hrecursive hplain hrepeating hitem ih =>
    intro label hfield
    simp only [skeleton_repeated, skeleton_itemIteration, List.mem_cons, reduceCtorEq,
      false_or] at hfield
    obtain ⟨hway, hreached⟩ := ih (itemAddress_ne_nil hne) label hfield
    have hleads := leadsTo_of_item helements hne hway
    have hiteration := reachesAll_itemIteration helements (hbelow _ hrepeating) hway hreached
    refine ⟨.repeating hrepeating hway, ?_⟩
    exact reachesAll_repeated hleads hiteration
  | @head address parent node members hnode hrecursive hhead hparent hmembers ih =>
    have hisHead : scope.index.isHead address = true := by
      simp [SchemaIndex.isHead, Scope.node_eq_ok_iff.mp hnode, hhead]
    refine .append (fun label hfield => ?_) (.of_controls (skeleton_memberControl _ _ _))
    obtain ⟨⟨name, hway⟩, hreached⟩ := ih (Address.segments_of_parent? hparent).1 label hfield
    exact ⟨.head hisHead hparent hway, hreached⟩
  | hidden => exact .of_controls rfl
  | shown hnode ih =>
    intro label hfield
    rw [skeleton_guarded] at hfield
    obtain ⟨hway, hreached⟩ := ih hne label hfield
    exact ⟨fun parent => hway.parent, reachesAll_guarded helements hne hway hreached⟩

end Compile

end SchemaForms
