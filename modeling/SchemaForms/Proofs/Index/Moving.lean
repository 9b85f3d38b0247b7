import SchemaForms.Index.Query
import SchemaForms.Proofs.Compile.Alike
import SchemaForms.Proofs.Index.Sparing

/-!
Walks in schemas in which attributes stand elsewhere. Where an attribute passes a declaration that
it is apart from, the two walks come to the same: at the addresses of the attributes that the moving
one declares, only its own walk matters, and at all others only that of the declaration. So both
indexes hold the same nodes, apart from where attributes are listed among the children.
-/

namespace SchemaForms

/-- Nodes that differ only in the attributes among their children. -/
structure SchemaNode.Resembles (left right : SchemaNode) : Prop where
  children : left.children.filter (!·.isAttribute) = right.children.filter (!·.isAttribute)
  same : right = { left with children := right.children }

namespace Index

/-- At some addresses the same has been described. -/
def Progress.ResembleOn (on : Address → Prop) (left right : Progress) : Prop :=
  ∀ address, on address →
    Option.Rel SchemaNode.Resembles (left.node? address) (right.node? address)

/-- Lists of addresses that differ in attributes only. -/
def SameElements (left right : List Address) : Prop :=
  left.filter (!·.isAttribute) = right.filter (!·.isAttribute)

variable {α β : Type}

/-- Two walks, one after the other, with the answers of both. -/
def andThen (first others : Walk (List Address)) : Walk (List Address) := do
  let answer ← first
  return answer ++ (← others)

/-- Walks that give related answers, and after which the same is described at some addresses, if it
was before. -/
def Steady (on : Address → Prop) (R : α → α → Prop) (left right : Walk α) : Prop :=
  ∀ progress progress', Progress.ResembleOn on progress progress' →
    R (left.run progress).1 (right.run progress').1 ∧
      Progress.ResembleOn on (left.run progress).2 (right.run progress').2

section Rules

variable {on : Address → Prop} {R : α → α → Prop} {S : β → β → Prop}

theorem Steady.pure {a b : α} (h : R a b) : Steady on R (Pure.pure a) (Pure.pure b) :=
  fun _ _ hsame => ⟨h, hsame⟩

theorem Steady.bind {left right : Walk α} {next next' : α → Walk β} (h : Steady on R left right)
    (hnext : ∀ a b, R a b → Steady on S (next a) (next' b)) :
    Steady on S (left >>= next) (right >>= next') := by
  intro progress progress' hsame
  obtain ⟨hanswer, hafter⟩ := h progress progress' hsame
  exact hnext _ _ hanswer _ _ hafter

/-- First steps whose answers are equal. -/
theorem Steady.bind_eq {left right : Walk α} {next next' : α → Walk β}
    (h : Steady on Eq left right) (hnext : ∀ a, Steady on S (next a) (next' a)) :
    Steady on S (left >>= next) (right >>= next') :=
  h.bind fun a _ heq => heq ▸ hnext a

/-- Walks that leave alone what matters. -/
theorem Steady.of_spares {left right : Walk α} (hleft : Spares on left) (hright : Spares on right)
    (hanswer : ∀ progress progress', R (left.run progress).1 (right.run progress').1) :
    Steady on R left right := by
  refine fun progress progress' hsame => ⟨hanswer progress progress', fun address hon => ?_⟩
  rw [hleft progress address hon, hright progress' address hon]
  exact hsame address hon

theorem Steady.modify {change change' : Progress → Progress}
    (h : ∀ progress progress', Progress.ResembleOn on progress progress' →
      Progress.ResembleOn on (change progress) (change' progress')) :
    Steady on Eq (modify change) (modify change') :=
  fun progress progress' hsame => ⟨rfl, h progress progress' hsame⟩

theorem steady_warn (warning : IndexWarning) : Steady on Eq (warn warning) (warn warning) :=
  fun _ _ hsame => ⟨rfl, hsame⟩

theorem steady_giveUp (warning : IndexWarning) {a b : α} (h : R a b) :
    Steady on R (do warn warning; return a) (do warn warning; return b) :=
  (steady_warn warning).bind fun _ _ _ => .pure h

theorem steady_isKnown {address : Address} (h : on address) :
    Steady on Eq (isKnown address) (isKnown address) :=
  fun _ _ hsame => ⟨isSome_eq_of_rel (hsame address h), hsame⟩

theorem steady_add (node : SchemaNode) :
    Steady on Eq (modify (·.add node)) (modify (·.add node)) := by
  refine .modify fun progress progress' hsame address hon => ?_
  have hbefore := hsame address hon
  rw [progress.node?_add, progress'.node?_add]
  generalize progress.node? address = found at hbefore
  generalize progress'.node? address = found' at hbefore
  cases hbefore with
  | some hnode => exact .some hnode
  | none =>
    rw [Option.none_or]
    split
    · exact .some ⟨rfl, rfl⟩
    · exact .none

theorem steady_forM {items : List α} {step step' : α → Walk PUnit}
    (h : ∀ item ∈ items, Steady on Eq (step item) (step' item)) :
    Steady on Eq (items.forM step) (items.forM step') := by
  induction items with
  | nil => exact .pure rfl
  | cons first others ih =>
    obtain ⟨hfirst, hothers⟩ := List.forall_mem_cons.mp h
    exact .bind_eq hfirst fun _ => ih hothers

theorem SameElements.append {left left' right right' : List Address}
    (hleft : SameElements left left') (hright : SameElements right right') :
    SameElements (left ++ right) (left' ++ right') := by
  unfold SameElements at *
  rw [List.filter_append, List.filter_append, hleft, hright]

theorem steady_andThen {first first' others others' : Walk (List Address)}
    (hfirst : Steady on SameElements first first')
    (hothers : Steady on SameElements others others') :
    Steady on SameElements (andThen first others) (andThen first' others') :=
  .bind hfirst fun _ _ hanswer => .bind hothers fun _ _ hrest => .pure (hanswer.append hrest)

theorem steady_walkAll_self {walk : Construct → Walk (List Address)} {constructs : List Construct}
    (h : ∀ construct ∈ constructs, Steady on SameElements (walk construct) (walk construct)) :
    Steady on SameElements (walkAll walk constructs) (walkAll walk constructs) := by
  induction constructs with
  | nil => exact .pure rfl
  | cons first others ih =>
    obtain ⟨hfirst, hothers⟩ := List.forall_mem_cons.mp h
    exact steady_andThen hfirst (ih hothers)

end Rules

/-- A walk that answers attributes only. -/
def AnswersAttributes (walk : Walk (List Address)) : Prop :=
  ∀ progress, SameElements (walk.run progress).1 []

section Passing

variable {on : Address → Prop} {moving others others' : Walk (List Address)}
  (hspares : Spares on moving) (hanswers : AnswersAttributes moving)
  (h : Steady on SameElements others others')

include hspares hanswers h

/-- An attribute that describes nothing that matters may come first on the left. -/
theorem steady_pass_left :
    Steady on SameElements (andThen moving others) others' := by
  intro progress progress' hsame
  have hmoved : Progress.ResembleOn on (moving.run progress).2 progress' := by
    intro address hon
    rw [hspares progress address hon]
    exact hsame address hon
  obtain ⟨hanswer, hafter⟩ := h _ _ hmoved
  exact ⟨(hanswers progress).append hanswer, hafter⟩

theorem steady_pass_right :
    Steady on SameElements others (andThen moving others') := by
  intro progress progress' hsame
  have hmoved : Progress.ResembleOn on progress (moving.run progress').2 := by
    intro address hon
    rw [hspares progress' address hon]
    exact hsame address hon
  obtain ⟨hanswer, hafter⟩ := h _ _ hmoved
  exact ⟨hanswer.trans (SameElements.append (hanswers progress').symm rfl), hafter⟩

end Passing

section Attributes

variable {scope : Scope} {on : Address → Prop}

theorem AnswersAttributes.pure {answer : List Address} (h : SameElements answer []) :
    AnswersAttributes (Pure.pure answer) :=
  fun _ => h

theorem AnswersAttributes.after {first : Walk β} {next : β → Walk (List Address)}
    (h : ∀ b, AnswersAttributes (next b)) : AnswersAttributes (first >>= next) :=
  fun _ => h _ _

theorem answersAttributes_walkAll {walk : Construct → Walk (List Address)}
    {constructs : List Construct}
    (h : ∀ construct ∈ constructs, AnswersAttributes (walk construct)) :
    AnswersAttributes (walkAll walk constructs) := by
  induction constructs with
  | nil => exact .pure rfl
  | cons first others ih =>
    obtain ⟨hfirst, hothers⟩ := List.forall_mem_cons.mp h
    exact fun progress => (hfirst progress).append (ih hothers _)

theorem answersAttributes_walkAttribute (parent : Address) (use : AttributeDeclaration) :
    AnswersAttributes (walkAttribute scope parent use) := by
  unfold walkAttribute
  split
  · exact .after fun _ => .pure rfl
  · split
    · exact .after fun _ => .pure rfl
    · refine .after fun known => ?_
      split
      · exact .pure rfl
      · exact .after fun _ => .pure (by simp [SameElements])

/-- The same attribute is described twice, or never, where it matters. -/
theorem steady_walkAttribute (parent : Address) (use : AttributeDeclaration) :
    Steady on SameElements (walkAttribute scope parent use) (walkAttribute scope parent use) := by
  by_cases hon : ∀ name, scope.set.attributeName scope.namespaces use = .ok name →
      ¬ on (parent.attr name)
  · have hspares : Spares on (walkAttribute scope parent use) :=
      spares_walkAttribute fun name hname _ => hon name hname
    exact .of_spares hspares hspares fun progress progress' =>
      (answersAttributes_walkAttribute parent use progress).trans
        (answersAttributes_walkAttribute parent use progress').symm
  · simp only [not_forall, not_not] at hon
    obtain ⟨name, hname, hon⟩ := hon
    unfold walkAttribute
    rw [hname]
    dsimp only
    split
    · exact steady_giveUp _ rfl
    · refine .bind_eq (steady_isKnown hon) fun known => ?_
      split
      · exact .pure rfl
      · exact .bind_eq (steady_add _) fun _ => .pure rfl

/-- What attributes and groups of them are walked to: attributes only. -/
theorem walkConstruct_attribute (on : Address → Prop) (hgroups : scope.set.GroupsAttributes)
    (depth : Nat) : ∀ path parent context construct, construct.isAttribute = true →
      AnswersAttributes (walkConstruct scope depth path parent context construct) ∧
        Steady on SameElements (walkConstruct scope depth path parent context construct)
          (walkConstruct scope depth path parent context construct) := by
  induction depth with
  | zero => exact fun _ _ _ _ _ => ⟨.after fun _ => .pure rfl, steady_giveUp _ rfl⟩
  | succ depth ih =>
    intro path parent context construct hattribute
    cases construct with
    | attributeUse use =>
      exact ⟨answersAttributes_walkAttribute parent use, steady_walkAttribute parent use⟩
    | attributeGroup name =>
      show AnswersAttributes
            (walkAttributeGroup scope (walkConstruct scope depth) path parent name) ∧
        Steady on SameElements
          (walkAttributeGroup scope (walkConstruct scope depth) path parent name)
          (walkAttributeGroup scope (walkConstruct scope depth) path parent name)
      unfold walkAttributeGroup
      split
      · exact ⟨.after fun _ => .pure rfl, steady_giveUp _ rfl⟩
      · rename_i group hgroup
        split
        · exact ⟨.pure rfl, .pure rfl⟩
        · have hmembers := fun path member hmember =>
            ih path parent none member (hgroups name group hgroup member hmember)
          exact ⟨answersAttributes_walkAll fun member hmember => (hmembers _ member hmember).1,
            steady_walkAll_self fun member hmember => (hmembers _ member hmember).2⟩
    | _ => cases hattribute

end Attributes

section Moved

variable {namespaces : InstanceNamespaces} {left right : SchemaSet}
  (h : left.Moved namespaces right) (hgroups : left.GroupsAttributes) {on : Address → Prop}
  (hon : ∀ address, address.isAttribute = false → on address)

/-- Walks of content that come to the same when attributes have moved in it. -/
def SteadyContent (apart : Construct → Construct → Prop) (on : Address → Prop)
    (walk walk' : ContentWalk) : Prop :=
  ∀ path parent context constructs constructs', Construct.AllMoved apart constructs constructs' →
    Steady on SameElements (walkAll (walk path parent context) constructs)
      (walkAll (walk' path parent context) constructs')

include h

theorem standIns_eq (head : ExpandedName) :
    standIns ⟨right, namespaces⟩ head = standIns ⟨left, namespaces⟩ head := by
  simp only [standIns, h.substitutionMembers_eq, h.element?_eq]

theorem walkAttribute_eq (parent : Address) (use : AttributeDeclaration) :
    walkAttribute ⟨right, namespaces⟩ parent use = walkAttribute ⟨left, namespaces⟩ parent use := by
  simp only [walkAttribute, h.attributeName_eq, h.attributeType?_eq]

include hgroups in
/-- Attributes and groups of them are walked in the same way in both schemas. -/
theorem walkConstruct_eq_of_isAttribute (depth : Nat) :
    ∀ path parent context construct, construct.isAttribute = true →
      walkConstruct ⟨right, namespaces⟩ depth path parent context construct =
        walkConstruct ⟨left, namespaces⟩ depth path parent context construct := by
  induction depth with
  | zero => exact fun _ _ _ _ _ => rfl
  | succ depth ih =>
    intro path parent context construct hattribute
    cases construct with
    | attributeUse use => exact walkAttribute_eq h parent use
    | attributeGroup name =>
      show walkAttributeGroup ⟨right, namespaces⟩ _ path parent name =
        walkAttributeGroup ⟨left, namespaces⟩ _ path parent name
      unfold walkAttributeGroup
      simp only [h.attributeGroup?_eq]
      split
      · rfl
      · rename_i group hgroup
        split
        · rfl
        · exact walkAll_congr fun member hmember =>
            ih _ _ _ _ (hgroups name group hgroup member hmember)
    | _ => cases hattribute

section Walks

variable {walk walk' : ContentWalk}
  (hwalk : SteadyContent (left.Apart namespaces) on walk walk')

include hon

theorem repeatingSingleton?_resembling {progress progress' : Progress}
    (hsame : Progress.ResembleOn on progress progress') {children children' : List Address}
    (hchildren : SameElements children children') :
    repeatingSingleton? ⟨left, namespaces⟩ progress children =
      repeatingSingleton? ⟨right, namespaces⟩ progress' children' := by
  unfold repeatingSingleton?
  rw [← hchildren]
  split
  · rename_i only hfilter
    have helement : only.isAttribute = false := by
      have hmem : only ∈ children.filter (!·.isAttribute) := by simp [hfilter]
      simpa using (List.mem_filter.mp hmem).2
    refine bind_eq_of_rel (hsame only (hon only helement)) fun node node' hnode => ?_
    rw [hnode.same]
    simp only [SchemaNode.isElement, SchemaNode.isRepeating, SchemaNode.isAttribute,
      h.isComplex_eq, h.isEnumeration_eq]
    congr
  · rfl

theorem steady_setChildren (address : Address) {children children' : List Address}
    (hchildren : SameElements children children') :
    Steady on Eq
      (modify fun progress => progress.setChildren address children
        (repeatingSingleton? ⟨left, namespaces⟩ progress children))
      (modify fun progress => progress.setChildren address children'
        (repeatingSingleton? ⟨right, namespaces⟩ progress children')) := by
  refine .modify fun progress progress' hsame lower hlower => ?_
  have hbefore := hsame lower hlower
  have hsingleton := repeatingSingleton?_resembling h hon hsame hchildren
  rw [progress.node?_setChildren, progress'.node?_setChildren, ← hsingleton]
  generalize progress.node? lower = found at hbefore
  generalize progress'.node? lower = found' at hbefore
  cases hbefore with
  | none => exact .none
  | some hnode =>
    refine .some ?_
    split
    · exact ⟨hchildren, by rw [hnode.same]⟩
    · exact hnode

theorem steady_walkWildcard (parent : Address) (occurs : Occurs)
    (context : Option CompositorContext) :
    Steady on SameElements (walkWildcard ⟨left, namespaces⟩ parent occurs context)
      (walkWildcard ⟨right, namespaces⟩ parent occurs context) := by
  unfold walkWildcard
  rw [h.namedType?_eq, h.wildcardName_eq]
  dsimp only
  split
  · exact .pure rfl
  · refine .bind_eq (steady_isKnown (hon _ (by simp))) fun known => ?_
    split
    · exact .pure rfl
    · exact .bind_eq (steady_add _) fun _ => .pure rfl

omit h hon in
theorem steady_beside {visit visit' : Address → PrefixedName × ElementDeclaration → Walk Unit}
    {members : List (PrefixedName × ElementDeclaration)} {parent? : Option Address}
    (hvisit : ∀ parent member, Steady on Eq (visit parent member) (visit' parent member)) :
    Steady on Eq
      (match parent? with
        | none => pure ()
        | some parent => members.forM (visit parent))
      (match parent? with
        | none => pure ()
        | some parent => members.forM (visit' parent)) := by
  cases parent? with
  | none => exact .pure rfl
  | some parent => exact steady_forM fun member _ => hvisit parent member

include hwalk

theorem steady_walkElement (depth : Nat) (path : Path) {address : Address}
    (declaration : ElementDeclaration) (occurs : Occurs) (context : Option CompositorContext)
    (haddress : address.isAttribute = false) :
    Steady on Eq
      (walkElement ⟨left, namespaces⟩ walk depth path address declaration occurs context)
      (walkElement ⟨right, namespaces⟩ walk' depth path address declaration occurs context) := by
  induction depth generalizing path address declaration with
  | zero => exact steady_warn _
  | succ depth ih =>
    have hbeside : ∀ (parent : Address) (member : PrefixedName × ElementDeclaration), Steady on Eq
        (walkElement ⟨left, namespaces⟩ walk depth path (parent.child member.1) member.2 occurs
          context)
        (walkElement ⟨right, namespaces⟩ walk' depth path (parent.child member.1) member.2 occurs
          context) :=
      fun parent member => ih path member.2 (by simp)
    have hmembers : memberNames ⟨right, namespaces⟩ declaration =
        memberNames ⟨left, namespaces⟩ declaration := by
      simp only [memberNames, standIns_eq h]
    unfold walkElement
    rw [hmembers, standIns_eq h]
    refine .bind_eq (steady_isKnown (hon address haddress)) fun known => ?_
    split
    · exact .pure rfl
    dsimp only
    rw [h.resolve?_eq]
    cases left.types.resolve? declaration.type with
    | none => exact steady_warn _
    | some type =>
      have hdefinition := h.definition type
      dsimp only
      rw [h.isComplex_eq]
      refine .bind_eq (steady_add _) fun _ => ?_
      generalize left.types.definition type = definition at hdefinition
      generalize right.types.definition type = definition' at hdefinition
      cases hdefinition with
      | builtin => exact steady_beside hbeside
      | simple => exact steady_beside hbeside
      | complex hcontent =>
        generalize (TypeDefinition.isComplex _ && decide (type ∈ path.types)) = isRecursive
        cases isRecursive with
        | true => exact steady_beside hbeside
        | false =>
          refine .bind (hwalk _ address none _ _ hcontent) fun children children' hchildren => ?_
          exact .bind_eq (steady_setChildren h hon address hchildren) fun _ =>
            steady_beside hbeside

theorem steady_walkParticle (path : Path) (parent : Address) (reference : ElementRef)
    (occurs : Occurs) (context : Option CompositorContext) :
    Steady on SameElements
      (walkParticle ⟨left, namespaces⟩ walk path parent reference occurs context)
      (walkParticle ⟨right, namespaces⟩ walk' path parent reference occurs context) := by
  have helements : right.elements.length = left.elements.length := by rw [h.same]
  unfold walkParticle
  rw [h.elementName_eq, h.declaration?_eq, helements]
  dsimp only
  split
  · exact steady_giveUp _ rfl
  · split
    · exact steady_giveUp _ rfl
    · exact .bind_eq (steady_walkElement h hon hwalk _ path _ occurs context (by simp)) fun _ =>
        .pure rfl

omit hon in
theorem steady_walkDerivation (path : Path) (parent : Address) (method : DerivationMethod)
    (base : TypeRef) {children children' : List Construct}
    (hchildren : Construct.AllMoved (left.Apart namespaces) children children') :
    Steady on SameElements
      (walkDerivation ⟨left, namespaces⟩ walk path parent method base children)
      (walkDerivation ⟨right, namespaces⟩ walk' path parent method base children') := by
  have hown := hwalk path parent none _ _ hchildren
  have hboth : ∀ {inherited inherited' : Walk (List Address)},
      Steady on SameElements inherited inherited' →
        Steady on SameElements (andThen inherited (walkAll (walk path parent none) children))
          (andThen inherited' (walkAll (walk' path parent none) children')) :=
    fun hinherited => steady_andThen hinherited hown
  cases method with
  | restriction => exact hboth (.pure rfl)
  | extension =>
    refine hboth ?_
    unfold walkBase
    simp only [h.resolve?_eq]
    cases left.types.resolve? base with
    | none => exact .pure rfl
    | some type =>
      have hdefinition := h.definition type
      dsimp only
      generalize left.types.definition type = definition at hdefinition
      generalize right.types.definition type = definition' at hdefinition
      cases hdefinition with
      | builtin => exact .pure rfl
      | simple => exact .pure rfl
      | complex hcontent =>
        dsimp only [TypeDefinition.complex?]
        split
        · exact .pure rfl
        · exact hwalk _ parent none _ _ hcontent

omit hon in
theorem steady_walkModelGroup (path : Path) (parent : Address) (name : ExpandedName)
    (occurs : Occurs) :
    Steady on SameElements (walkModelGroup ⟨left, namespaces⟩ walk path parent name occurs)
      (walkModelGroup ⟨right, namespaces⟩ walk' path parent name occurs) := by
  have hgroup := h.modelGroup? name
  unfold walkModelGroup
  dsimp only
  generalize left.modelGroup? name = found at hgroup
  generalize right.modelGroup? name = found' at hgroup
  cases hgroup with
  | none => exact steady_giveUp _ rfl
  | some hgroup =>
    have hchildren := hgroup.children
    rw [hgroup.same]
    dsimp only
    split
    · exact .pure rfl
    · rw [← hchildren.length_eq]
      exact hwalk _ parent _ _ _ hchildren

end Walks

include hgroups hon in
theorem steady_walkConstruct {depth : Nat}
    (hwalk : SteadyContent (left.Apart namespaces) on (walkConstruct ⟨left, namespaces⟩ depth)
      (walkConstruct ⟨right, namespaces⟩ depth))
    (path : Path) (parent : Address) (context : Option CompositorContext)
    {construct construct' : Construct}
    (hmoved : construct.Moved (left.Apart namespaces) construct') :
    Steady on SameElements
      (walkConstruct ⟨left, namespaces⟩ (depth + 1) path parent context construct)
      (walkConstruct ⟨right, namespaces⟩ (depth + 1) path parent context construct') := by
  have hattribute : ∀ moving : Construct, moving.isAttribute = true → Steady on SameElements
      (walkConstruct ⟨left, namespaces⟩ (depth + 1) path parent context moving)
      (walkConstruct ⟨right, namespaces⟩ (depth + 1) path parent context moving) := by
    intro moving hmoving
    rw [walkConstruct_eq_of_isAttribute h hgroups _ _ _ _ _ hmoving]
    exact (walkConstruct_attribute on hgroups _ _ _ _ _ hmoving).2
  cases hmoved with
  | attributeUse => exact hattribute _ rfl
  | attributeGroup => exact hattribute _ rfl
  | simpleContent hchildren => exact steady_walkDerivation h hwalk path parent _ _ hchildren
  | complexContent hchildren => exact steady_walkDerivation h hwalk path parent _ _ hchildren
  | @compositor kind occurs _ _ hchildren =>
    have hinside := fun context => hwalk path parent (some context) _ _ hchildren
    unfold walkConstruct
    dsimp only
    rw [← hchildren.length_eq]
    exact hinside _
  | group => exact steady_walkModelGroup h hwalk path parent _ _
  | element => exact steady_walkParticle h hon hwalk path parent _ _ context
  | wildcard => exact steady_walkWildcard h hon parent _ context
  | other => exact .pure rfl

end Moved

/-- All elements, and one more place. -/
def Seen (place address : Address) : Prop := address.isAttribute = false ∨ address = place

theorem seen_empty {address : Address} (h : Seen .empty address) : address.isAttribute = false := by
  rcases h with h | rfl
  · exact h
  · rfl

/-- An attribute passes a declaration that leaves alone the place where the attribute counts. -/
theorem steady_pass_at {place : Address} {moving other other' others others' : Walk (List Address)}
    (hspares : Spares (Seen .empty) moving) (hanswers : AnswersAttributes moving)
    (hmoving : Steady (· = place) SameElements moving moving)
    (hother : Steady (Seen .empty) SameElements other other')
    (hleft : Spares (· = place) other) (hright : Spares (· = place) other')
    (hothers : Steady (Seen place) SameElements others others') :
    Steady (Seen place) SameElements (andThen moving (andThen other others))
      (andThen other' (andThen moving others')) := by
  intro progress progress' hsame
  have hbefore : Progress.ResembleOn (Seen .empty) (moving.run progress).2 progress' := by
    intro address hseen
    rw [hspares progress address hseen]
    exact hsame address (.inl (seen_empty hseen))
  obtain ⟨hanswer, helements⟩ := hother _ _ hbefore
  have hcount : Progress.ResembleOn (· = place) progress (other'.run progress').2 := by
    rintro address rfl
    rw [hright progress' address rfl]
    exact hsame address (.inr rfl)
  obtain ⟨-, hplace⟩ := hmoving _ _ hcount
  have hafter : Progress.ResembleOn (Seen place) (other.run (moving.run progress).2).2
      (moving.run (other'.run progress').2).2 := by
    rintro address (helement | rfl)
    · rw [hspares _ address (.inl helement)]
      exact helements address (.inl helement)
    · rw [hleft _ address rfl]
      exact hplace address rfl
  obtain ⟨hrest, hend⟩ := hothers _ _ hafter
  exact ⟨(hanswers _).append (hanswer.append (SameElements.append (hanswers _).symm hrest)), hend⟩

section Content

variable {namespaces : InstanceNamespaces} {left right : SchemaSet}
  (h : left.Moved namespaces right) (hgroups : left.GroupsAttributes)

include h hgroups

/-- An attribute and the declaration that it passes, in a walk of the content below a parent. -/
theorem steady_pass {depth : Nat}
    (heach : ∀ place path parent context construct construct',
      construct.Moved (left.Apart namespaces) construct' → Steady (Seen place) SameElements
        (walkConstruct ⟨left, namespaces⟩ depth path parent context construct)
        (walkConstruct ⟨right, namespaces⟩ depth path parent context construct'))
    (place : Address) (path : Path) (parent : Address) (context : Option CompositorContext)
    {moving other other' : Construct} {others others' : List Construct}
    (hmoving : moving.isAttribute = true) (hapart : left.Apart namespaces moving other)
    (hmoved : other.Moved (left.Apart namespaces) other')
    (hothers : Steady (Seen place) SameElements
      (walkAll (walkConstruct ⟨left, namespaces⟩ depth path parent context) others)
      (walkAll (walkConstruct ⟨right, namespaces⟩ depth path parent context) others')) :
    Steady (Seen place) SameElements
      (walkAll (walkConstruct ⟨left, namespaces⟩ depth path parent context)
        (moving :: other :: others))
      (walkAll (walkConstruct ⟨right, namespaces⟩ depth path parent context)
        (other' :: moving :: others')) := by
  have hsame := walkConstruct_eq_of_isAttribute h hgroups depth path parent context moving hmoving
  have hspares : Spares (Untouched ⟨left, namespaces⟩ parent moving)
      (walkConstruct ⟨left, namespaces⟩ depth path parent context moving) :=
    spares_walkConstruct hgroups depth path parent context moving
  have hanswers : AnswersAttributes
      (walkConstruct ⟨left, namespaces⟩ depth path parent context moving) :=
    (walkConstruct_attribute (fun _ => False) hgroups depth path parent context moving hmoving).1
  have hself : ∀ on, Steady on SameElements
      (walkConstruct ⟨left, namespaces⟩ depth path parent context moving)
      (walkConstruct ⟨left, namespaces⟩ depth path parent context moving) := fun on =>
    (walkConstruct_attribute on hgroups depth path parent context moving hmoving).2
  have helements : Spares (Seen .empty)
      (walkConstruct ⟨left, namespaces⟩ depth path parent context moving) := by
    refine hspares.mono fun address hseen => ⟨fun name _ heq => ?_, .inl hmoving⟩
    have helement := seen_empty hseen
    simp [heq] at helement
  show Steady (Seen place) SameElements (andThen _ (andThen _ _)) (andThen _ (andThen _ _))
  rw [hsame]
  by_cases hplace : ∃ name, left.Declares namespaces moving name ∧ place = parent.attr name
  · -- what the other one describes is found elsewhere, in both schemas
    obtain ⟨name, hdeclares, rfl⟩ := hplace
    have hother := hapart name hdeclares
    have hwithin : (parent.attr name).isAttribute = true ∧
        (parent.attr name).depth ≤ parent.depth + 1 := by simp
    refine steady_pass_at helements hanswers (hself _) (heach _ _ _ _ _ _ hmoved) ?_ ?_ hothers
    · refine (spares_walkConstruct hgroups depth path parent context other).mono ?_
      rintro _ rfl
      refine ⟨fun found hfound heq => hother ?_, .inr hwithin⟩
      rwa [Address.attr_inj.mp heq]
    · refine (spares_walkConstruct (h.groupsAttributes_iff.mpr hgroups) depth path parent context
        other').mono ?_
      rintro _ rfl
      refine ⟨fun found hfound heq => hother ?_, .inr hwithin⟩
      rw [Address.attr_inj.mp heq]
      exact h.declares hmoved hfound
  · have hspared : Spares (Seen place)
        (walkConstruct ⟨left, namespaces⟩ depth path parent context moving) := by
      refine hspares.mono fun address hseen => ⟨fun name hdeclares heq => ?_, .inl hmoving⟩
      rcases hseen with helement | rfl
      · simp [heq] at helement
      · exact hplace ⟨name, hdeclares, heq⟩
    exact steady_pass_left hspared hanswers (steady_andThen (heach _ _ _ _ _ _ hmoved)
      (steady_pass_right hspared hanswers hothers))

/-- Walks of the same content, in which attributes have moved. -/
theorem steadyContent (depth : Nat) : ∀ place, SteadyContent (left.Apart namespaces) (Seen place)
    (walkConstruct ⟨left, namespaces⟩ depth) (walkConstruct ⟨right, namespaces⟩ depth) := by
  induction depth with
  | zero =>
    intro place path parent context constructs constructs' _
    refine .of_spares (spares_walkAll fun _ _ => spares_giveUp _ _)
      (spares_walkAll fun _ _ => spares_giveUp _ _) fun progress progress' => ?_
    have hanswers : ∀ (scope : Scope) constructs,
        AnswersAttributes (walkAll (walkConstruct scope 0 path parent context) constructs) :=
      fun _ _ => answersAttributes_walkAll fun _ _ => .after fun _ => .pure rfl
    exact (hanswers _ _ progress).trans (hanswers _ _ progress').symm
  | succ depth ih =>
    have heach : ∀ place path parent context construct construct',
        construct.Moved (left.Apart namespaces) construct' → Steady (Seen place) SameElements
          (walkConstruct ⟨left, namespaces⟩ (depth + 1) path parent context construct)
          (walkConstruct ⟨right, namespaces⟩ (depth + 1) path parent context construct') :=
      fun place path parent context _ _ hmoved =>
        steady_walkConstruct h hgroups (fun _ => .inl) (ih place) path parent context hmoved
    intro place path parent context constructs constructs' hmoved
    induction hmoved with
    | nil => exact .pure rfl
    | cons hfirst _ ih => exact steady_andThen (heach _ _ _ _ _ _ hfirst) ih
    | pass hmoving _ hapart hinside _ ih =>
      exact steady_pass h hgroups heach place path parent context hmoving hapart hinside ih

end Content

end Index

namespace SchemaIndex

open Index

/-- The same nodes are described in two schemas, apart from where attributes have moved. -/
structure Resembles (left right : SchemaIndex) : Prop where
  set : left.set.Moved left.namespaces right.set
  namespaces : right.namespaces = left.namespaces
  nodes : ∀ address, Option.Rel SchemaNode.Resembles (left.node? address) (right.node? address)

variable {namespaces : InstanceNamespaces} {left right : SchemaSet}
  (h : left.Moved namespaces right) (hgroups : left.GroupsAttributes)

include h hgroups

theorem steady_walkRoots (place : Address) (declarations : List ElementDeclaration) :
    Steady (Seen place) Eq (declarations.mapM (walkRoot ⟨left, namespaces⟩))
      (declarations.mapM (walkRoot ⟨right, namespaces⟩)) := by
  have helements : right.elements.length = left.elements.length := by rw [h.same]
  have hroot : ∀ declaration, Steady (Seen place) Eq (walkRoot ⟨left, namespaces⟩ declaration)
      (walkRoot ⟨right, namespaces⟩ declaration) := by
    intro declaration
    unfold walkRoot
    dsimp only
    rw [helements, h.walkDepth_eq]
    exact .bind_eq (steady_walkElement h (fun _ => .inl) (steadyContent h hgroups _ place) _ _ _ _ _
      rfl) fun _ => .pure rfl
  induction declarations with
  | nil => exact .pure rfl
  | cons first others ih =>
    rw [List.mapM_cons, List.mapM_cons]
    exact .bind_eq (hroot first) fun _ => .bind_eq ih fun _ => .pure rfl

/-- The same roots are missing, or the indexes hold the same nodes. -/
theorem together_build_moved (roots : List ExpandedName) :
    Together Resembles (SchemaIndex.build left namespaces roots)
      (SchemaIndex.build right namespaces roots) := by
  have hroots : rootDeclaration right = rootDeclaration left := by
    funext name
    rw [rootDeclaration, rootDeclaration, h.element?_eq]
  unfold build
  rw [hroots]
  refine (Together.of_eq rfl).bind ?_
  rintro declarations _ rfl
  refine .ok ⟨h, rfl, fun address => ?_⟩
  have hstart : Progress.ResembleOn (Seen address) ⟨[], []⟩ ⟨[], []⟩ := fun _ _ => .none
  exact (steady_walkRoots h hgroups address declarations _ _ hstart).2 address (.inr rfl)

end SchemaIndex

end SchemaForms
