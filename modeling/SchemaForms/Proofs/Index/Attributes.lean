import SchemaForms.Proofs.Index.Layers

/-!
The attributes among the children of an element. Whatever a walk answers lies right below the
parent, and the attributes among it are described by then: an attribute is answered only when it was
added just before. So every attribute that is listed as a child has a node of its own.
-/

namespace SchemaForms.Index

/-- The addresses that are described. -/
def Progress.addresses (progress : Progress) : List Address :=
  progress.nodes.map SchemaNode.address

/-- What a walk of the content below a parent may answer: addresses right below it, of which the
attributes are described. -/
def Answered (parent : Address) (children : List Address) (progress : Progress) : Prop :=
  ∀ child ∈ children, RightBelow parent child ∧
    (child.isAttribute = true → child ∈ progress.addresses)

/-- The children of all nodes were answered so. -/
def Progress.Tracked (progress : Progress) : Prop :=
  ∀ node ∈ progress.nodes, Answered node.address node.children progress

theorem Answered.mono {parent : Address} {children : List Address} {progress later : Progress}
    (h : Answered parent children progress) (hlater : progress.addresses ⊆ later.addresses) :
    Answered parent children later :=
  fun child hchild => ⟨(h child hchild).1, fun hattribute => hlater ((h child hchild).2 hattribute)⟩

theorem answered_nil (parent : Address) (progress : Progress) : Answered parent [] progress :=
  fun _ h => nomatch h

theorem answered_append {parent : Address} {left right : List Address} {progress : Progress}
    (hleft : Answered parent left progress) (hright : Answered parent right progress) :
    Answered parent (left ++ right) progress :=
  fun child hchild => (List.mem_append.mp hchild).elim (hleft child) (hright child)

theorem answered_child (parent : Address) (name : PrefixedName) (progress : Progress) :
    Answered parent [parent.child name] progress := by
  intro child hchild
  obtain rfl := List.mem_singleton.mp hchild
  exact ⟨rightBelow_child parent name, by simp⟩

/-- A walk that goes on from here keeps track, forgets no address and answers what is said. -/
def TracksFrom (progress : Progress) (made : α → Progress → Prop) (walk : Walk α) : Prop :=
  progress.Tracked → (walk.run progress).2.Tracked ∧
    progress.addresses ⊆ (walk.run progress).2.addresses ∧
      made (walk.run progress).1 (walk.run progress).2

def Tracks (made : α → Progress → Prop) (walk : Walk α) : Prop :=
  ∀ progress, TracksFrom progress made walk

section Rules

variable {made : α → Progress → Prop}

theorem Tracks.pure {value : α} (h : ∀ progress, made value progress) :
    Tracks made (Pure.pure value) :=
  fun progress htracked => ⟨htracked, List.Subset.refl _, h progress⟩

theorem Tracks.warn (warning : IndexWarning) : Tracks (fun _ _ => True) (warn warning) :=
  fun _ htracked => ⟨htracked, List.Subset.refl _, trivial⟩

theorem Tracks.bind {middle : β → Progress → Prop} {first : Walk β} {next : β → Walk α}
    (hfirst : Tracks middle first)
    (hnext : ∀ value progress, middle value progress → TracksFrom progress made (next value)) :
    Tracks made (first >>= next) := by
  intro progress htracked
  obtain ⟨htracked', hmore, hmiddle⟩ := hfirst progress htracked
  obtain ⟨hafter, hlater, hmade⟩ := hnext _ _ hmiddle htracked'
  exact ⟨hafter, List.Subset.trans hmore hlater, hmade⟩

/-- What comes first answers nothing that is used. -/
theorem Tracks.after {middle : β → Progress → Prop} {first : Walk β} {next : β → Walk α}
    (hfirst : Tracks middle first) (hnext : ∀ value, Tracks made (next value)) :
    Tracks made (first >>= next) :=
  hfirst.bind fun value progress _ => hnext value progress

theorem tracks_isKnown (address : Address) : Tracks (fun _ _ => True) (isKnown address) :=
  fun _ htracked => ⟨htracked, List.Subset.refl _, trivial⟩

/-- A node is added without children, and its address is described from then on. -/
theorem tracks_add {node : SchemaNode} (h : node.children = []) :
    Tracks (fun _ progress => node.address ∈ progress.addresses) (modify (·.add node)) := by
  intro progress htracked
  have hmore : progress.addresses ⊆ (progress.add node).addresses := by
    simp [Progress.addresses, Progress.add]
  have hknown : node.address ∈ (progress.add node).addresses := by
    simp [Progress.addresses, Progress.add]
  refine ⟨fun other hother => ?_, hmore, hknown⟩
  rcases List.mem_append.mp hother with hold | hnew
  · exact (htracked other hold).mono hmore
  · rw [List.mem_singleton.mp hnew, h]
    exact answered_nil _ _

theorem tracksFrom_setChildren {scope : Scope} {progress : Progress} {parent : Address}
    {children : List Address} (h : Answered parent children progress) :
    TracksFrom progress (fun _ _ => True) (modify fun progress =>
      progress.setChildren parent children (repeatingSingleton? scope progress children)) := by
  intro htracked
  have hsame : (progress.setChildren parent children
      (repeatingSingleton? scope progress children)).addresses = progress.addresses := by
    simp only [Progress.addresses, Progress.setChildren, List.map_map]
    refine List.map_congr_left fun node _ => ?_
    simp only [Function.comp_apply]
    split <;> rfl
  have hlater : progress.addresses ⊆ (progress.setChildren parent children
      (repeatingSingleton? scope progress children)).addresses := hsame ▸ List.Subset.refl _
  refine ⟨fun node hnode => ?_, hlater, trivial⟩
  obtain ⟨old, hold, rfl⟩ := List.mem_map.mp hnode
  split
  · rename_i haddress
    exact haddress ▸ h.mono hlater
  · exact (htracked old hold).mono hlater

variable {parent : Address}

theorem tracks_walkAll {walk : Construct → Walk (List Address)}
    (h : ∀ construct, Tracks (Answered parent) (walk construct)) (constructs : List Construct) :
    Tracks (Answered parent) (walkAll walk constructs) := by
  induction constructs with
  | nil => exact .pure (answered_nil parent)
  | cons first others ih =>
    refine (h first).bind fun left progress hleft htracked => ?_
    obtain ⟨htracked', hmore, hright⟩ := ih progress htracked
    exact ⟨htracked', hmore, answered_append (hleft.mono hmore) hright⟩

theorem tracks_forM {items : List β} {walk : β → Walk PUnit}
    (h : ∀ item, Tracks (fun _ _ => True) (walk item)) :
    Tracks (fun _ _ => True) (items.forM walk) := by
  induction items with
  | nil => exact .pure fun _ => trivial
  | cons item others ih => exact (h item).after fun _ => ih

end Rules

section Walks

variable {scope : Scope} {walk : ContentWalk} {path : Path}

theorem tracks_giveUp (parent : Address) (warning : IndexWarning) :
    Tracks (Answered parent) (do warn warning; return []) :=
  (Tracks.warn warning).after fun _ => .pure (answered_nil parent)

theorem tracks_walkAttribute (parent : Address) (use : AttributeDeclaration) :
    Tracks (Answered parent) (walkAttribute scope parent use) := by
  unfold walkAttribute
  split
  · exact tracks_giveUp parent _
  · split
    · exact tracks_giveUp parent _
    · refine (tracks_isKnown _).after fun isKnown => ?_
      split
      · exact .pure (answered_nil parent)
      · refine (tracks_add rfl).bind fun _ progress hknown htracked => ?_
        refine ⟨htracked, List.Subset.refl _, fun child hchild => ?_⟩
        obtain rfl := List.mem_singleton.mp hchild
        exact ⟨rightBelow_attr _ _, fun _ => hknown⟩

theorem tracks_walkWildcard (parent : Address) (occurs : Occurs)
    (context : Option CompositorContext) :
    Tracks (Answered parent) (walkWildcard scope parent occurs context) := by
  unfold walkWildcard
  split
  · exact .pure (answered_nil parent)
  · refine (tracks_isKnown _).after fun isKnown => ?_
    split
    · exact .pure (answered_nil parent)
    · exact (tracks_add rfl).after fun _ => .pure (answered_child parent _)

/-- A content walk that keeps track, inside every path. -/
def TracksContent (walk : ContentWalk) : Prop :=
  ∀ path parent context construct, Tracks (Answered parent) (walk path parent context construct)

variable (hwalk : TracksContent walk)

include hwalk

/-- What a walk of the content answers become the children. -/
theorem tracks_content (inner : Path) (address : Address) (content : List Construct) :
    Tracks (fun _ _ => True) (do
      let children ← walkAll (walk inner address none) content
      modify fun progress => progress.setChildren address children
        (repeatingSingleton? scope progress children)) :=
  (tracks_walkAll (hwalk _ _ _) _).bind fun _ _ => tracksFrom_setChildren

theorem tracks_walkElement (depth : Nat) :
    ∀ path address declaration occurs context, Tracks (fun _ _ => True)
      (walkElement scope walk depth path address declaration occurs context) := by
  induction depth with
  | zero => exact fun _ _ _ _ _ => .warn _
  | succ depth ih =>
    intro path address declaration occurs context
    unfold walkElement
    refine (tracks_isKnown address).after fun isKnown => ?_
    have hstandIns : ∀ parent : Address, Tracks (fun _ _ => True)
        ((standIns scope declaration.name).forM fun member =>
          walkElement scope walk depth path (parent.child member.1) member.2 occurs context) :=
      fun parent => tracks_forM fun member => ih _ _ _ _ _
    cases isKnown with
    | true => exact .pure fun _ => trivial
    | false =>
      simp only [Bool.false_eq_true, if_false]
      cases scope.set.types.resolve? declaration.type with
      | none => exact .warn _
      | some type =>
        refine (tracks_add rfl).after fun _ => ?_
        cases address.parent? with
        | none =>
          split
          · exact (tracks_content hwalk _ _ _).after fun _ => .pure fun _ => trivial
          · exact .pure fun _ => trivial
        | some parent =>
          split
          · exact (tracks_content hwalk _ _ _).after fun _ => hstandIns parent
          · exact hstandIns parent

theorem tracks_walkParticle (parent : Address) (reference : ElementRef) (occurs : Occurs)
    (context : Option CompositorContext) :
    Tracks (Answered parent) (walkParticle scope walk path parent reference occurs context) := by
  unfold walkParticle
  split
  · exact tracks_giveUp parent _
  · split
    · exact tracks_giveUp parent _
    · exact (tracks_walkElement hwalk _ _ _ _ _ _).after fun _ => .pure (answered_child parent _)

theorem tracks_walkBase (parent : Address) (base : TypeRef) :
    Tracks (Answered parent) (walkBase scope walk path parent base) := by
  unfold walkBase
  split
  · exact .pure (answered_nil parent)
  · split
    · exact .pure (answered_nil parent)
    · split
      · exact .pure (answered_nil parent)
      · exact tracks_walkAll (hwalk _ _ _) _

theorem tracks_walkDerivation (parent : Address) (method : DerivationMethod) (base : TypeRef)
    (children : List Construct) :
    Tracks (Answered parent) (walkDerivation scope walk path parent method base children) := by
  have hown := tracks_walkAll (hwalk path parent none) children
  cases method with
  | restriction => exact hown.bind fun own progress hown htracked =>
      ⟨htracked, List.Subset.refl _, hown⟩
  | extension =>
    refine (tracks_walkBase hwalk parent base).bind fun inherited progress hinherited htracked => ?_
    obtain ⟨htracked', hmore, hown⟩ := hown progress htracked
    exact ⟨htracked', hmore, answered_append (hinherited.mono hmore) hown⟩

theorem tracks_walkAttributeGroup (parent : Address) (name : ExpandedName) :
    Tracks (Answered parent) (walkAttributeGroup scope walk path parent name) := by
  unfold walkAttributeGroup
  split
  · exact tracks_giveUp parent _
  · split
    · exact .pure (answered_nil parent)
    · exact tracks_walkAll (hwalk _ _ _) _

theorem tracks_walkModelGroup (parent : Address) (name : ExpandedName) (occurs : Occurs) :
    Tracks (Answered parent) (walkModelGroup scope walk path parent name occurs) := by
  unfold walkModelGroup
  split
  · exact tracks_giveUp parent _
  · split
    · exact .pure (answered_nil parent)
    · exact tracks_walkAll (hwalk _ _ _) _

omit hwalk

theorem tracks_walkConstruct (scope : Scope) (depth : Nat) :
    TracksContent (walkConstruct scope depth) := by
  induction depth with
  | zero => exact fun _ parent _ _ => tracks_giveUp parent _
  | succ depth ih =>
    intro path parent context construct
    cases construct with
    | attributeUse use => exact tracks_walkAttribute parent use
    | attributeGroup name => exact tracks_walkAttributeGroup ih parent name
    | simpleContent method base children => exact tracks_walkDerivation ih parent _ _ _
    | complexContent method base children => exact tracks_walkDerivation ih parent _ _ _
    | compositor kind occurs children => exact tracks_walkAll (ih _ _ _) children
    | group name occurs => exact tracks_walkModelGroup ih parent name occurs
    | element reference occurs => exact tracks_walkParticle ih parent reference occurs context
    | wildcard occurs => exact tracks_walkWildcard parent occurs context
    | other tag => exact .pure (answered_nil parent)

theorem tracks_walkRoots (scope : Scope) (declarations : List ElementDeclaration) :
    Tracks (fun _ _ => True) (declarations.mapM (SchemaIndex.walkRoot scope)) := by
  induction declarations with
  | nil => exact .pure fun _ => trivial
  | cons first others ih =>
    rw [List.mapM_cons]
    have hfirst : Tracks (fun _ _ => True) (SchemaIndex.walkRoot scope first) :=
      (tracks_walkElement (tracks_walkConstruct scope _) _ _ _ _ _ _).after fun _ =>
        .pure fun _ => trivial
    exact hfirst.after fun _ => ih.after fun _ => .pure fun _ => trivial

end Walks

end SchemaForms.Index

namespace SchemaForms.SchemaIndex

open Index

variable {index : SchemaIndex} {set : SchemaSet} {namespaces : InstanceNamespaces}
  {roots : List ExpandedName}

theorem tracked_of_build (hbuild : build set namespaces roots = .ok index) :
    Progress.Tracked ⟨index.nodes, index.warnings⟩ := by
  unfold build at hbuild
  cases hdeclarations : roots.mapM (rootDeclaration set) with
  | error error => simp [hdeclarations, bind, Except.bind] at hbuild
  | ok declarations =>
    simp only [hdeclarations, bind, Except.bind] at hbuild
    obtain rfl := Except.ok.inj hbuild
    exact (tracks_walkRoots ⟨set, namespaces⟩ declarations ⟨[], []⟩ (by simp [Progress.Tracked])).1

/-- The description of an attribute is never that of something recursive. -/
theorem Lists.expanded_of_attribute {visits : List Visit} (h : index.Lists roots visits)
    {address : Address} {node : SchemaNode} (hnode : index.node? address = some node)
    (hattribute : address.isAttribute = true) : node.kind = .attr ∧ node.isRecursive = false := by
  obtain ⟨visit, hvisit, hbare, rfl⟩ := h.exists_visit_of_node? hnode
  have hkind := (h.history.sound visit hvisit).isAttribute.symm.trans hattribute
  have hexpanded : visit.node.isRecursive = false := by
    cases h.history.follows_of_mem visit hvisit with
    | attributeUse => rfl
    | wildcard => rfl
    | _ => simp [elementNode, SchemaNode.isAttribute] at hkind
  rw [hbare] at hkind hexpanded
  exact ⟨of_decide_eq_true hkind, hexpanded⟩

/-- An attribute that is listed among the children of a node is one of it and has a node. -/
theorem attribute_of_children (hbuild : build set namespaces roots = .ok index)
    {node : SchemaNode} (hnode : node ∈ index.nodes) {child : Address}
    (hchild : child ∈ node.children) (hattribute : child.isAttribute = true) :
    ∃ name own, child = node.address.attr name ∧ index.node? child = some own ∧
      own.kind = .attr ∧ own.isRecursive = false := by
  obtain ⟨-, -, visits, hlists⟩ := exists_lists hbuild
  obtain ⟨⟨name, hbelow⟩, hknown⟩ := tracked_of_build hbuild node hnode child hchild
  obtain ⟨found, hfound, haddress⟩ := List.mem_map.mp (hknown hattribute)
  obtain ⟨own, hown⟩ : ∃ own, index.node? child = some own :=
    Option.isSome_iff_exists.mp (List.find?_isSome.mpr ⟨found, hfound, by simpa using haddress⟩)
  refine ⟨name, own, hbelow.resolve_left ?_, hown, hlists.expanded_of_attribute hown hattribute⟩
  rintro rfl
  simp at hattribute

end SchemaForms.SchemaIndex
