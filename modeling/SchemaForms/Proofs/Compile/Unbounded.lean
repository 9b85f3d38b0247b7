import SchemaForms.Proofs.Compile.Bounds
import SchemaForms.Proofs.Compile.Settling
import SchemaForms.Proofs.Schema.Referring
import Mathlib.Data.Finset.Card

/-!
The bounds are no part of what is compiled. A walk that has an end within some bounds, however large
these are, is the walk that a template is compiled from; so an address without a template has a walk
without an end. For the levels of addresses this is so because no node of the index lies deeper than
the index is high. Inside of an element a construct opens lists of constructs: its own children, and
the bodies of groups and of types, of which there are only so many. As the depth grows by the height
of all bodies, either some further body is walked to its end or none ever will be. So there is a
depth, not above that of a compilation, at which all bodies that have an end have come to it.
-/

namespace SchemaForms

theorem Construct.height_eq (construct : Construct) :
    construct.height = Construct.heights construct.children + 1 := by
  cases construct <;> rfl

namespace SchemaSet

variable {set : SchemaSet}

/-- What complex types show and what model groups hold. -/
def bodies (set : SchemaSet) : List (List Construct) :=
  (set.types.definitions.filterMap TypeDefinition.complex?).map (·.model.shown) ++
    set.modelGroups.map fun (_, group) => group.children

theorem mem_bodies_of_definition {type : TypeId} {complex : ComplexType}
    (h : set.types.definition type = .complex complex) : complex.model.shown ∈ set.bodies := by
  have hcomplex : (set.types.definition type).complex? = some complex := by
    rw [h]
    rfl
  refine List.mem_append_left _ (List.mem_map.mpr ⟨complex, ?_, rfl⟩)
  exact List.mem_filterMap.mpr ⟨_, mem_definitions_of_complex? hcomplex, hcomplex⟩

theorem mem_bodies_of_group {name : ExpandedName} {group : ModelGroup}
    (h : set.modelGroup? name = some group) : group.children ∈ set.bodies :=
  List.mem_append_right _ (List.mem_map.mpr ⟨(name, group), mem_of_lookup h, rfl⟩)

theorem heights_le_of_mem_bodies {body : List Construct} (h : body ∈ set.bodies) :
    Construct.heights body ≤ set.contentHeight := by
  rcases List.mem_append.mp h with htype | hgroup
  · obtain ⟨complex, hcomplex, rfl⟩ := List.mem_map.mp htype
    obtain ⟨definition, hdefinition, hcomplex⟩ := List.mem_filterMap.mp hcomplex
    refine Nat.le_trans complex.heights_shown_le (le_foldl_max ?_)
    refine List.mem_append_left _ (List.mem_append_left _ ?_)
    exact List.mem_filterMap.mpr ⟨definition, hdefinition, by rw [hcomplex]; rfl⟩
  · obtain ⟨entry, hentry, rfl⟩ := List.mem_map.mp hgroup
    exact le_foldl_max (List.mem_append_right _ (List.mem_map.mpr ⟨entry, hentry, rfl⟩))

theorem bodies_length_mul_le (set : SchemaSet) :
    set.bodies.length * set.contentHeight ≤ set.walkDepth := by
  have hlength : set.bodies.length = set.types.contentHeights.length + set.modelGroups.length := by
    simp [bodies, TypeTable.contentHeights, ← List.map_filterMap]
  exact Nat.mul_le_mul (by omega) (Nat.le_succ _)

end SchemaSet

/-- Of a list, only so many members can come to have a property that none loses. -/
theorem exists_stable {α : Type} (as : List α) {P : Nat → α → Prop}
    (hkept : ∀ round a, P round a → P (round + 1) a) :
    ∃ round ≤ as.length, ∀ a ∈ as, P (round + 1) a → P round a := by
  classical
  by_contra hnone
  push Not at hnone
  have hgrows : ∀ round ≤ as.length + 1, round ≤ (as.toFinset.filter (P round ·)).card := by
    intro round
    induction round with
    | zero => exact fun _ => Nat.zero_le _
    | succ round ih =>
      intro hle
      obtain ⟨a, hmem, hafter, hbefore⟩ := hnone round (by omega)
      refine Nat.lt_of_le_of_lt (ih (by omega)) (Finset.card_lt_card ?_)
      refine Finset.ssubset_iff_subset_ne.mpr ⟨fun b hb => ?_, fun heq => hbefore ?_⟩
      · rw [Finset.mem_filter] at hb ⊢
        exact ⟨hb.1, hkept round b hb.2⟩
      · have hlater : a ∈ as.toFinset.filter (P (round + 1) ·) :=
          Finset.mem_filter.mpr ⟨List.mem_toFinset.mpr hmem, hafter⟩
        exact (Finset.mem_filter.mp (heq ▸ hlater)).2
  have hbound : (as.toFinset.filter (P (as.length + 1) ·)).card ≤ as.length :=
    (Finset.card_filter_le _ _).trans as.toFinset_card_le
  have hmany := hgrows (as.length + 1) (Nat.le_refl _)
  omega

namespace Compile

namespace Scope

variable {scope : Scope} {top : Nat}

/-- The second renderer settles the first one wherever the shape of a node is given that is not
above a depth. -/
def SettledBelow (scope : Scope) (top : Nat) (left right : Renderer) : Prop :=
  ∀ address row node, top ≤ address.depth → scope.node address = .ok node →
    (left address row (.ofNode scope.types node node.type)).Settles
      (right address row (.ofNode scope.types node node.type))

theorem SettledBelow.refl (render : Renderer) : scope.SettledBelow top render render :=
  fun _ _ _ _ _ => .refl _

section Nodes

variable {left right : Renderer} (hrender : scope.SettledBelow top left right)

include hrender

theorem settles_iteration (address : Address) (htop : top ≤ address.depth) (isCollapsible : Bool)
    {node : SchemaNode} (hnode : scope.node address = .ok node) :
    (iteration left address isCollapsible (.ofNode scope.types node node.type)).Settles
      (iteration right address isCollapsible (.ofNode scope.types node node.type)) := by
  have hitem : scope.node (itemAddress address) = .ok node := by
    rw [node_eq_ok_iff] at hnode ⊢
    simpa using hnode
  have hdepth : top ≤ (itemAddress address).depth := by simpa using htop
  exact .bind (hrender _ _ node hdepth hitem) fun _ _ => .refl _

theorem settles_branch (address : Address) (htop : top ≤ address.depth) (isCollapsible : Bool) :
    (branch scope left address isCollapsible).Settles
      (branch scope right address isCollapsible) := by
  refine .lookup fun classification hclassified => ?_
  obtain ⟨node, hnode, rfl⟩ := classify_eq_ok hclassified
  exact .bind (settles_iteration hrender address htop isCollapsible hnode) fun _ _ => .refl _

theorem settles_branches (here skipped : Address) (htop : top ≤ here.depth + 1)
    (isCollapsible : Bool) (names : List PrefixedName) :
    (Logged.collect (fun name => Attempt.orSkip skipped
      (branch scope left (here.child name) isCollapsible)) names).Settles
      (Logged.collect (fun name => Attempt.orSkip skipped
        (branch scope right (here.child name) isCollapsible)) names) := by
  refine .collect fun name _ => Attempt.orSkip_settles ?_ skipped
  exact settles_branch hrender (here.child name) (by simpa using htop) isCollapsible

theorem settles_repetition (address : Address) (htop : top ≤ address.depth) {node : SchemaNode}
    (hnode : scope.node address = .ok node) :
    (scope.repetition left address node (.ofNode scope.types node node.type)).Settles
      (scope.repetition right address node (.ofNode scope.types node node.type)) :=
  .bind (settles_iteration hrender address htop false hnode) fun _ _ => .refl _

theorem settles_substitution (address : Address) (htop : top ≤ address.depth)
    (node : SchemaNode) :
    (scope.substitution left address node).Settles (scope.substitution right address node) := by
  unfold substitution
  cases hparent : address.parent? with
  | none => exact .refl _
  | some parent =>
    obtain ⟨-, leaf, hbeside⟩ := Address.segments_of_parent? hparent
    have hdepth : top ≤ parent.depth + 1 := by simpa [Address.depth, hbeside] using htop
    exact .bind (.lift (settles_branches hrender parent address hdepth true node.members))
      fun _ _ => .refl _

theorem settles_renderNode (address : Address) (htop : top ≤ address.depth) :
    (scope.renderNode left address).Settles (scope.renderNode right address) := by
  refine .lookup fun node hnode => .lookup fun classification hclassified => ?_
  obtain ⟨found, hfound, rfl⟩ := classify_eq_ok hclassified
  obtain rfl : node = found := Except.ok.inj (hnode.symm.trans hfound)
  refine .after _ fun _ _ => ?_
  split
  · exact settles_substitution hrender address htop node
  · split
    · exact settles_repetition hrender address htop hnode
    · exact hrender address none node htop hnode

theorem settles_renderGuarded (address : Address) (htop : top ≤ address.depth) :
    (scope.renderGuarded left address).Settles (scope.renderGuarded right address) :=
  .bind (Attempt.orSkip_settles (settles_renderNode hrender address htop) address) (.refl _)

variable (here : Address) (htop : top ≤ here.depth + 1)

include htop

theorem settles_renderChoice (occurs : Occurs) (children : List Construct) :
    (scope.renderChoice left here occurs children).Settles
      (scope.renderChoice right here occurs children) := by
  refine .lookup fun members _ => ?_
  split
  · exact .bind (.lift (settles_branches hrender here here htop false members)) fun _ _ => .refl _
  · refine .bind (.lift (.collect fun name _ => Attempt.orSkip_settles ?_ here))
      fun _ _ => .refl _
    have hdepth : top ≤ (here.child name).depth := by simpa using htop
    exact .bind (settles_renderNode hrender _ hdepth) fun _ _ => .refl _

theorem settles_renderUse (use : AttributeDeclaration) :
    (scope.renderUse left here use).Settles (scope.renderUse right here use) := by
  refine .lookup fun name _ => .lift ?_
  exact settles_renderGuarded hrender (here.attr name) (by simpa using htop)

end Nodes

section Content

variable {each each' : ConstructRenderer} (here : Address)

theorem settles_renderAll {constructs : List Construct}
    (h : ∀ construct ∈ constructs, (each construct).Settles (each' construct)) :
    (renderAll each here constructs).Settles (renderAll each' here constructs) :=
  .collect fun construct hconstruct =>
    Attempt.orSkip_settles (h construct (mem_of_mem_attributesFirst hconstruct)) here

variable (hbodies : ∀ body ∈ scope.index.set.bodies,
  (renderAll each here body).Settles (renderAll each' here body))

include hbodies

theorem settles_renderText (row : Option Row) (steps : Nat) (derivation : Derivation)
    (hown : (renderAll each here derivation.children).Settles
      (renderAll each' here derivation.children)) :
    (scope.renderText each here row steps derivation).Settles
      (scope.renderText each' here row steps derivation) := by
  induction steps generalizing derivation with
  | zero => exact .refl _
  | succ steps ih =>
    unfold renderText
    split
    · exact .refl _
    · refine .lookup fun type _ => .lookup fun node _ => ?_
      have hothers : ∀ text : List TemplateNode, Attempt.Settles (do
          let others ← liftM (renderAll each here derivation.children)
          return [TemplateNode.group .box (text ++ others)]) (do
          let others ← liftM (renderAll each' here derivation.children)
          return [TemplateNode.group .box (text ++ others)]) := fun _ =>
        .bind (.lift hown) fun _ _ => .refl _
      cases hshape : Shape.ofNode scope.types node type with
      | textOnly inner =>
        obtain ⟨-, complex, hcomplex, hmodel⟩ := Shape.exists_model (congrArg Shape.model? hshape)
        have hbody := hbodies _ (SchemaSet.mem_bodies_of_definition hcomplex)
        rw [hmodel] at hbody
        exact .bind (ih inner hbody) fun text _ => hothers text
      | _ => exact .after _ fun text _ => hothers text

theorem settles_renderDerivation (steps : Nat) (derivation : Derivation)
    (hown : (renderAll each here derivation.children).Settles
      (renderAll each' here derivation.children)) :
    (scope.renderDerivation each here steps derivation).Settles
      (scope.renderDerivation each' here steps derivation) := by
  induction steps generalizing derivation with
  | zero =>
    obtain ⟨method, base, children⟩ := derivation
    cases method with
    | extension => exact .refl _
    | restriction => exact .after _ fun _ _ => .lift hown
  | succ steps ih =>
    obtain ⟨method, base, children⟩ := derivation
    cases method with
    | restriction => exact .after _ fun _ _ => .lift hown
    | extension =>
      refine .lookup fun type _ => ?_
      have hothers : ∀ inherited : List TemplateNode, Attempt.Settles (do
          let others ← liftM (renderAll each here children)
          return inherited ++ others) (do
          let others ← liftM (renderAll each' here children)
          return inherited ++ others) := fun _ => .bind (.lift hown) fun _ _ => .refl _
      cases hdefinition : scope.types.definition type with
      | builtin name => exact .after _ fun inherited _ => hothers inherited
      | simple simple => exact .after _ fun inherited _ => hothers inherited
      | complex complex =>
        have hbody := hbodies _ (SchemaSet.mem_bodies_of_definition hdefinition)
        dsimp only
        cases hmodel : complex.model with
        | constructs content =>
          rw [hmodel] at hbody
          exact .bind (.lift hbody) fun inherited _ => hothers inherited
        | derived inner =>
          rw [hmodel] at hbody
          exact .bind (ih inner hbody) fun inherited _ => hothers inherited
        | textOnly inner =>
          rw [hmodel] at hbody
          exact .bind (settles_renderText here hbodies none _ inner hbody)
            fun inherited _ => hothers inherited

end Content

section Constructs

variable {left right : Renderer} (hrender : scope.SettledBelow top left right) (here : Address)
  (htop : top ≤ here.depth + 1)

include hrender htop

/-- One more of depth settles a construct when its children and all bodies are settled. -/
theorem settles_renderConstruct {depth depth' : Nat} (construct : Construct)
    (hchildren : (renderAll (scope.renderConstruct left here depth) here construct.children).Settles
      (renderAll (scope.renderConstruct right here depth') here construct.children))
    (hbodies : ∀ body ∈ scope.index.set.bodies,
      (renderAll (scope.renderConstruct left here depth) here body).Settles
        (renderAll (scope.renderConstruct right here depth') here body)) :
    (scope.renderConstruct left here (depth + 1) construct).Settles
      (scope.renderConstruct right here (depth' + 1) construct) := by
  cases construct with
  | attributeUse use => exact settles_renderUse hrender here htop use
  | attributeGroup name =>
    refine .lookup fun uses _ => .lift (.collect fun use _ => Attempt.orSkip_settles ?_ here)
    exact settles_renderUse hrender here htop use
  | simpleContent method base children =>
    exact settles_renderText here hbodies none _ ⟨method, base, children⟩ hchildren
  | complexContent method base children =>
    exact settles_renderDerivation here hbodies _ ⟨method, base, children⟩ hchildren
  | compositor kind occurs children =>
    cases kind with
    | choice => exact settles_renderChoice hrender here htop occurs children
    | all => exact .bind (.lift hchildren) fun _ _ => .refl _
    | sequence => exact .bind (.lift hchildren) fun _ _ => .refl _
  | group name occurs =>
    refine .lookup fun group hgroup => ?_
    split
    · exact settles_renderChoice hrender here htop _ _
    · exact .lift (hbodies _ (SchemaSet.mem_bodies_of_group (modelGroup_eq_ok hgroup)))
  | element reference occurs =>
    refine .lookup fun name _ => .lift ?_
    exact settles_renderGuarded hrender (here.child name) (by simpa using htop)
  | wildcard occurs => exact .lift (settles_renderGuarded hrender _ (by simpa using htop))
  | other tag => exact .refl _

/-- A larger depth makes the same, if the smaller one is not exhausted. -/
theorem settles_deeper {depth depth' : Nat} (hle : depth ≤ depth') (construct : Construct) :
    (scope.renderConstruct left here depth construct).Settles
      (scope.renderConstruct right here depth' construct) := by
  induction depth generalizing depth' construct with
  | zero => exact .exhausted
  | succ depth ih =>
    obtain ⟨depth', rfl⟩ := Nat.exists_eq_add_of_le' (Nat.le_trans (Nat.succ_pos depth) hle)
    have hall : ∀ constructs, (renderAll (scope.renderConstruct left here depth) here
        constructs).Settles (renderAll (scope.renderConstruct right here depth') here
          constructs) := fun _ => settles_renderAll here fun child _ => ih (by omega) child
    exact settles_renderConstruct hrender here htop construct (hall _) fun body _ => hall body

end Constructs

section Bodies

variable (render : Renderer) (here : Address)

/-- The constructs of a list, at one depth. -/
def renderedBody (scope : Scope) (render : Renderer) (here : Address) (depth : Nat)
    (body : List Construct) : Logged (List TemplateNode) :=
  renderAll (scope.renderConstruct render here depth) here body

theorem settles_body_deeper {depth depth' : Nat} (hle : depth ≤ depth') (body : List Construct) :
    (scope.renderedBody render here depth body).Settles
      (scope.renderedBody render here depth' body) :=
  settles_renderAll here fun construct _ =>
    settles_deeper (.refl render) here (Nat.zero_le _) hle construct

/-- Where a limit settles the bodies of all smaller depths, a construct is settled as far above the
limit as it is high. -/
theorem settles_of_bodies {depth limit : Nat}
    (hbodies : ∀ less < depth, ∀ body ∈ scope.index.set.bodies,
      (scope.renderedBody render here less body).Settles
        (scope.renderedBody render here limit body))
    (height within : Nat) (hwithin : within ≤ depth) (construct : Construct)
    (hheight : construct.height ≤ height) :
    (scope.renderConstruct render here within construct).Settles
      (scope.renderConstruct render here (limit + height) construct) := by
  induction height generalizing within construct with
  | zero => exact absurd construct.height_pos (by omega)
  | succ height ih =>
    cases within with
    | zero => exact .exhausted
    | succ within =>
      refine settles_renderConstruct (.refl render) here (Nat.zero_le _) construct ?_ ?_
      · refine settles_renderAll here fun child hchild => ih within (by omega) child ?_
        have hle := Construct.height_le_heights hchild
        rw [construct.height_eq] at hheight
        omega
      · intro body hbody
        exact (hbodies within (by omega) body hbody).trans
          (settles_body_deeper render here (Nat.le_add_right limit height) body)

theorem settles_body_above {depth limit : Nat}
    (hbodies : ∀ less < depth, ∀ body ∈ scope.index.set.bodies,
      (scope.renderedBody render here less body).Settles
        (scope.renderedBody render here limit body))
    {body : List Construct} (hbody : body ∈ scope.index.set.bodies) :
    (scope.renderedBody render here depth body).Settles
      (scope.renderedBody render here (limit + scope.index.set.contentHeight) body) :=
  settles_renderAll here fun construct hconstruct =>
    settles_of_bodies render here hbodies _ depth (Nat.le_refl _) construct
      ((Construct.height_le_heights hconstruct).trans (SchemaSet.heights_le_of_mem_bodies hbody))

/-- There is a depth at which every body has come to its end that comes to it at all. -/
theorem exists_limit (scope : Scope) : ∃ limit ≤ scope.index.set.walkDepth,
    ∀ depth, ∀ body ∈ scope.index.set.bodies, (scope.renderedBody render here depth body).Settles
      (scope.renderedBody render here limit body) := by
  let ended (count : Nat) (body : List Construct) : Prop :=
    (scope.renderedBody render here (count * scope.index.set.contentHeight) body).Ended
  have hround : ∀ count body, ended count body →
      scope.renderedBody render here ((count + 1) * scope.index.set.contentHeight) body =
        scope.renderedBody render here (count * scope.index.set.contentHeight) body :=
    fun count body => settles_body_deeper render here (Nat.mul_le_mul_right _ (Nat.le_succ _)) body
  have hkept : ∀ count body, ended count body → ended (count + 1) body := by
    intro count body hended
    simpa only [ended, hround count body hended] using hended
  obtain ⟨count, hcount, hstable⟩ := exists_stable scope.index.set.bodies hkept
  refine ⟨count * scope.index.set.contentHeight, ?_, fun depth => ?_⟩
  · exact (Nat.mul_le_mul_right _ hcount).trans scope.index.set.bodies_length_mul_le
  · -- A body is settled one round above the limit, and nothing comes to its end in that round.
    induction depth using Nat.strong_induction_on with
    | _ depth ih =>
      intro body hbody hended
      have habove := settles_body_above render here ih hbody hended
      rw [← Nat.succ_mul] at habove
      have hlimit : ended count body := by
        rw [← habove] at hended
        exact hstable body hbody hended
      exact (hround count body hlimit).symm.trans habove

end Bodies

theorem settles_renderElement (address : Address) (row : Option Row)
    {content content' : Attempt (List TemplateNode)} (h : content.Settles content') :
    (scope.renderElement address row content).Settles
      (scope.renderElement address row content') :=
  .lookup fun _ _ => .bind h fun _ _ => .refl _

/-- Every level of addresses is settled once the levels below are. The levels below the height of
the index hold no nodes. -/
theorem settled_render (depth levels levels' top : Nat)
    (hlevels : scope.index.height < top + levels') :
    scope.SettledBelow top (scope.renderWithin depth levels) (scope.render levels') := by
  induction levels generalizing levels' top with
  | zero => exact fun _ _ _ _ _ => .exhausted
  | succ levels ih =>
    intro address row node htop hnode
    obtain ⟨levels', rfl⟩ : ∃ below, levels' = below + 1 := by
      have hle := depth_le_height (node_eq_ok_iff.mp hnode)
      exact Nat.exists_eq_add_of_le' (by omega)
    have hbelow := ih levels' (top + 1) (by omega)
    obtain ⟨limit, hlimit, hended⟩ :=
      exists_limit (scope.renderWithin depth levels) address scope
    have hbodies : ∀ body ∈ scope.index.set.bodies,
        (scope.renderedBody (scope.renderWithin depth levels) address depth body).Settles
          (scope.renderedBody (scope.render levels') address scope.constructDepth body) :=
      fun body hbody => (hended depth body hbody).trans
        (settles_renderAll address fun construct _ =>
          settles_deeper hbelow address (by omega) (Nat.le_succ_of_le hlimit) construct)
    have hshown : ∀ model,
        (Shape.ofNode scope.types node node.type).model? = some model →
          model.shown ∈ scope.index.set.bodies := by
      intro model hmodel
      obtain ⟨-, complex, hcomplex, rfl⟩ := Shape.exists_model hmodel
      exact SchemaSet.mem_bodies_of_definition hcomplex
    unfold render renderWithin
    cases hshape : Shape.ofNode scope.types node node.type with
    | recursive => exact .refl _
    | attr => exact .refl _
    | simple => exact .refl _
    | anything => exact .refl _
    | complex content =>
      have hcontent := hbodies content (hshown (.constructs content) (by rw [hshape]; rfl))
      exact settles_renderElement address row (.lift hcontent)
    | derived derivation =>
      have hown := hbodies _ (hshown (.derived derivation) (by rw [hshape]; rfl))
      exact settles_renderElement address row
        (settles_renderDerivation address hbodies _ derivation hown)
    | textOnly derivation =>
      have hown := hbodies _ (hshown (.textOnly derivation) (by rw [hshape]; rfl))
      exact settles_renderText address hbodies row _ derivation hown

end Scope

end Compile

namespace SchemaIndex

variable {index : SchemaIndex} {mode : Mode} {address : Address}

/-- All that the walk from an address makes and notes within given bounds. -/
def renderedWithin (index : SchemaIndex) (mode : Mode) (address : Address) (depth levels : Nat) :
    Logged (List TemplateNode) :=
  let scope : Compile.Scope := ⟨index, mode, address⟩
  scope.renderGuarded (scope.renderWithin depth levels) address

/-- No bounds make more of a walk than its own bounds do. -/
theorem settles_rendered (hdepth : 1 ≤ address.depth) (depth levels : Nat) :
    (index.renderedWithin mode address depth levels).Settles (index.rendered mode address) := by
  let scope : Compile.Scope := ⟨index, mode, address⟩
  have hsettled := scope.settled_render depth levels index.height 1 (by simp [scope])
  exact Compile.Scope.settles_renderGuarded hsettled address hdepth

/-- An indexed address has a template just where the walk has an end within some bounds. -/
theorem compile_eq_ok_iff_ended {set : SchemaSet} {namespaces : InstanceNamespaces}
    {roots : List ExpandedName} (hbuild : build set namespaces roots = .ok index)
    {compilation : Compilation} :
    index.compile mode address = .ok compilation ↔ (index.nodeOf? address).isSome ∧
      ∃ depth levels, (index.renderedWithin mode address depth levels).Ended ∧
        compilation = ⟨⟨address, mode, (index.renderedWithin mode address depth levels).value⟩,
          (index.renderedWithin mode address depth levels).log⟩ := by
  rw [compile_eq_ok_iff]
  constructor
  · rintro ⟨hindexed, hended, hcompilation⟩
    exact ⟨hindexed, _, index.height, hended, hcompilation⟩
  · rintro ⟨hindexed, depth, levels, hended, hcompilation⟩
    have hsame := settles_rendered (depth_pos hbuild hindexed) depth levels hended
    rw [← hsame] at hended hcompilation
    exact ⟨hindexed, hended, hcompilation⟩

/-- The walk into a group that refers to itself ends within no bounds. -/
example (depth levels : Nat) :
    ¬ (endlessIndex.renderedWithin .edit (.root (.unprefixed "r")) depth levels).Ended := by
  intro hended
  have hbuild : build endlessSchema .disabled [⟨none, "r"⟩] = .ok endlessIndex := rfl
  exact nomatch (compile_eq_ok_iff_ended hbuild).mpr ⟨by decide, depth, levels, hended, rfl⟩

end SchemaIndex

end SchemaForms
