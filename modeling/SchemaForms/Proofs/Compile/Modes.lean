import SchemaForms.Compile.Tree
import SchemaForms.Proofs.Compile.Bounds
import SchemaForms.Proofs.Compile.Leaves
import SchemaForms.Proofs.Compile.Unbounded
import SchemaForms.Proofs.Template.Skeleton

/-!
The two modes side by side. What is asked of the index does not depend on the mode, so both runs
look up the same nodes and names, fail at the same places and note the same entries. The mode only
decides on controls, kinds of inputs and what guards ask, and none of these is part of the skeleton.
-/

namespace SchemaForms

namespace Compile

open TemplateNode

def SameSkeleton (left right : List TemplateNode) : Prop := skeleton left = skeleton right

theorem SameSkeleton.refl (nodes : List TemplateNode) : SameSkeleton nodes nodes := rfl

theorem SameSkeleton.append {left left' right right' : List TemplateNode}
    (hleft : SameSkeleton left left') (hright : SameSkeleton right right') :
    SameSkeleton (left ++ right) (left' ++ right') := by
  rw [SameSkeleton, skeleton_append, skeleton_append, hleft, hright]

/-- A node around others, when what it is itself is the same in both modes. -/
theorem SameSkeleton.around {node node' : TemplateNode} (hmark : node.mark? = node'.mark?)
    (h : SameSkeleton node.contents node'.contents) : SameSkeleton [node] [node'] := by
  rw [SameSkeleton, skeleton_cons, skeleton_cons, hmark, h]

def Scope.inMode (scope : Scope) (mode : Mode) : Scope := { scope with mode := mode }

/-- Renderers of occurrences that are alike at every address. -/
def Matched (left right : Renderer) : Prop :=
  ∀ address row shape, (left address row shape).Alike SameSkeleton (right address row shape)

variable {scope : Scope} {mode mode' : Mode}

namespace Scope

section Lookups

theorem types_inMode : (scope.inMode mode).types = scope.types := rfl

theorem leavesOf_inMode (here : Address) (depth : Nat) :
    (scope.inMode mode).leavesOf here depth = scope.leavesOf here depth := by
  induction depth with
  | zero => rfl
  | succ depth ih =>
    funext construct
    cases construct <;> simp only [leavesOf, ih] <;> rfl

theorem leafNames_inMode (here : Address) (constructs : List Construct) :
    (scope.inMode mode).leafNames here constructs = scope.leafNames here constructs := by
  rw [leafNames_eq_map, leafNames_eq_map, leavesOf_inMode]
  rfl

theorem usesOf_inMode (here : Address) (depth : Nat) :
    (scope.inMode mode).usesOf here depth = scope.usesOf here depth := by
  induction depth with
  | zero => rfl
  | succ depth ih =>
    funext name
    simp only [usesOf, ih]
    rfl

theorem groupAttributes_inMode (here : Address) (name : ExpandedName) :
    (scope.inMode mode).groupAttributes here name = scope.groupAttributes here name := by
  unfold groupAttributes
  rw [usesOf_inMode]
  rfl

end Lookups

section Nodes

variable {left right : Renderer} (hrender : Matched left right)

include hrender

theorem alike_iteration (address : Address) (isCollapsible : Bool) (shape : Shape) :
    (iteration left address isCollapsible shape).Alike (fun a b => SameSkeleton [a] [b])
      (iteration right address isCollapsible shape) :=
  .bind (hrender _ _ _) fun _ _ hrows => .pure (.around rfl hrows)

theorem alike_branch (address : Address) (isCollapsible : Bool) :
    (branch (scope.inMode mode) left address isCollapsible).Alike SameSkeleton
      (branch (scope.inMode mode') right address isCollapsible) := by
  refine .after (scope.classify address) fun classification => ?_
  refine .bind (alike_iteration hrender address isCollapsible classification.shape) ?_
  exact fun rows rows' hrows => .pure (.around rfl hrows)

theorem alike_branches (here : Address) (address : PrefixedName → Address)
    (isCollapsible : Bool) (names : List PrefixedName) :
    (Logged.collect (fun name => Attempt.orSkip here
      (branch (scope.inMode mode) left (address name) isCollapsible)) names).Alike SameSkeleton
      (Logged.collect (fun name => Attempt.orSkip here
        (branch (scope.inMode mode') right (address name) isCollapsible)) names) :=
  .collect (R := SameSkeleton) rfl (fun _ _ _ _ => .append)
    (fun name => Attempt.orSkip_alike (alike_branch hrender (address name) isCollapsible) rfl) names

theorem alike_repetition (address : Address) (node : SchemaNode) (shape : Shape) :
    ((scope.inMode mode).repetition left address node shape).Alike SameSkeleton
      ((scope.inMode mode').repetition right address node shape) := by
  refine .bind (alike_iteration hrender address false shape) fun rows rows' hrows => .pure ?_
  have hsibling : SameSkeleton
      ((scope.inMode mode).editing [addSibling address.siblingPath (occurrenceLimit node)])
      ((scope.inMode mode').editing [addSibling address.siblingPath (occurrenceLimit node)]) :=
    (skeleton_addSibling _ _).trans (skeleton_addSibling _ _).symm
  refine .append (.around rfl ?_) ?_
  · exact SameSkeleton.append hrows hsibling
  · exact (skeleton_addFirst _ _).trans (skeleton_addFirst _ _).symm

theorem alike_substitution (address : Address) (node : SchemaNode) :
    ((scope.inMode mode).substitution left address node).Alike SameSkeleton
      ((scope.inMode mode').substitution right address node) := by
  unfold substitution
  cases address.parent? with
  | none => exact .throw _
  | some parent =>
    refine .bind (.lift (alike_branches hrender address parent.child true node.members)) ?_
    refine fun members members' hmembers => .pure (.append hmembers ?_)
    exact (skeleton_memberControl address parent node).trans
      (skeleton_memberControl address parent node).symm

theorem alike_renderNode (address : Address) :
    ((scope.inMode mode).renderNode left address).Alike SameSkeleton
      ((scope.inMode mode').renderNode right address) := by
  refine .after (scope.node address) fun node => ?_
  refine .after (scope.classify address) fun classification => ?_
  refine .after (Attempt.note address (.classified classification.name)) fun _ => ?_
  split
  · exact alike_substitution hrender address node
  · split
    · exact alike_repetition hrender address node classification.shape
    · exact hrender address none classification.shape

theorem alike_renderGuarded (address : Address) :
    ((scope.inMode mode).renderGuarded left address).Alike SameSkeleton
      ((scope.inMode mode').renderGuarded right address) := by
  refine .bind (Attempt.orSkip_alike (alike_renderNode hrender address) rfl) ?_
  intro nodes nodes' hnodes
  refine .pure ?_
  -- one mode may make nothing where the other makes controls
  have hguarded : ∀ (mode : Mode) (nodes : List TemplateNode), SameSkeleton
      (if nodes.isEmpty then [] else (scope.inMode mode).guarded address nodes) nodes := by
    intro mode nodes
    split
    · rename_i hempty
      rw [List.isEmpty_iff.mp hempty]
      rfl
    · exact skeleton_guarded address nodes
  exact (hguarded mode nodes).trans (hnodes.trans (hguarded mode' nodes').symm)

theorem alike_alternative (address : Address) :
    ((scope.inMode mode).alternative left address).Alike SameSkeleton
      ((scope.inMode mode').alternative right address) :=
  .bind (alike_renderNode hrender address) fun _ _ hnodes => .pure (.around rfl hnodes)

theorem alike_renderChoice (here : Address) (occurs : Occurs) (children : List Construct) :
    ((scope.inMode mode).renderChoice left here occurs children).Alike SameSkeleton
      ((scope.inMode mode').renderChoice right here occurs children) := by
  unfold renderChoice
  rw [leafNames_inMode, leafNames_inMode]
  refine .after (scope.leafNames here children) fun members => ?_
  split
  · refine .bind (.lift (alike_branches hrender here here.child false members)) ?_
    refine fun branches branches' hbranches => .pure (.append hbranches ?_)
    exact (skeleton_repeatedPrompt here occurs members).trans
      (skeleton_repeatedPrompt here occurs members).symm
  · refine .bind (R := SameSkeleton) (.lift ?_) fun branches branches' hbranches => ?_
    · exact .collect (R := SameSkeleton) rfl (fun _ _ _ _ => .append)
        (fun name => Attempt.orSkip_alike (alike_alternative hrender (here.child name)) rfl) members
    · refine .pure (.append hbranches ?_)
      exact (skeleton_singlePrompt here occurs members).trans
        (skeleton_singlePrompt here occurs members).symm

theorem alike_renderUse (here : Address) (use : AttributeDeclaration) :
    ((scope.inMode mode).renderUse left here use).Alike SameSkeleton
      ((scope.inMode mode').renderUse right here use) :=
  .after (scope.attributeName use) fun name => .lift (alike_renderGuarded hrender (here.attr name))

end Nodes

theorem sameSkeleton_scalarField (address : Address) (node : SchemaNode) (type : TypeId)
    (role : FieldRole) :
    SameSkeleton [(scope.inMode mode).scalarField address node type role]
      [(scope.inMode mode').scalarField address node type role] :=
  (skeleton_scalarField address node type role).trans
    (skeleton_scalarField address node type role).symm

/-- A compositor is left out when there is nothing in it. -/
theorem sameSkeleton_compositor (nodes : List TemplateNode) :
    SameSkeleton (if nodes.isEmpty then [] else [.group .compositor nodes]) nodes := by
  split
  · rename_i hempty
    rw [List.isEmpty_iff.mp hempty]
    rfl
  · exact skeleton_group .compositor nodes

section Content

variable {left right : ConstructRenderer} (here : Address)
  (heach : ∀ construct, (left construct).Alike SameSkeleton (right construct))

include heach

theorem alike_renderAll (constructs : List Construct) :
    (renderAll left here constructs).Alike SameSkeleton (renderAll right here constructs) :=
  .collect (R := SameSkeleton) rfl (fun _ _ _ _ => .append)
    (fun construct => Attempt.orSkip_alike (heach construct) rfl) (attributesFirst constructs)

theorem alike_renderText (row : Option Row) (steps : Nat) (derivation : Derivation) :
    ((scope.inMode mode).renderText left here row steps derivation).Alike SameSkeleton
      ((scope.inMode mode').renderText right here row steps derivation) := by
  induction steps generalizing derivation with
  | zero => exact .throw _
  | succ steps ih =>
    unfold renderText
    split
    · exact .after (Attempt.note here _) fun _ => .pure rfl
    · refine .after (scope.baseType here derivation.base) fun type => ?_
      refine .after (scope.node here) fun node => ?_
      have hothers : ∀ text text' : List TemplateNode, SameSkeleton text text' →
          Attempt.Alike SameSkeleton (do
            let others ← liftM (renderAll left here derivation.children)
            return [.group .box (text ++ others)]) (do
            let others ← liftM (renderAll right here derivation.children)
            return [.group .box (text' ++ others)]) := fun _ _ htext =>
        .bind (.lift (alike_renderAll here heach derivation.children)) fun _ _ hothers =>
          .pure (.around rfl (.append htext hothers))
      simp only [types_inMode]
      cases Shape.ofNode scope.types node type with
      | textOnly inner => exact .bind (ih inner) hothers
      | _ => exact .bind (.pure (sameSkeleton_scalarField here node type _)) hothers

theorem alike_renderDerivation (steps : Nat) (derivation : Derivation) :
    ((scope.inMode mode).renderDerivation left here steps derivation).Alike SameSkeleton
      ((scope.inMode mode').renderDerivation right here steps derivation) := by
  induction steps generalizing derivation with
  | zero =>
    obtain ⟨method, base, children⟩ := derivation
    cases method with
    | extension => exact .throw _
    | restriction =>
      exact .after (Attempt.note here .restatedContent) fun _ =>
        .lift (alike_renderAll here heach children)
  | succ steps ih =>
    obtain ⟨method, base, children⟩ := derivation
    cases method with
    | restriction =>
      exact .after (Attempt.note here .restatedContent) fun _ =>
        .lift (alike_renderAll here heach children)
    | extension =>
      refine .after (scope.baseType here base) fun type => ?_
      have hown : ∀ inherited inherited' : List TemplateNode, SameSkeleton inherited inherited' →
          Attempt.Alike SameSkeleton (do
            let others ← liftM (renderAll left here children)
            return inherited ++ others) (do
            let others ← liftM (renderAll right here children)
            return inherited' ++ others) := fun _ _ hinherited =>
        .bind (.lift (alike_renderAll here heach children)) fun _ _ hothers =>
          .pure (.append hinherited hothers)
      simp only [types_inMode]
      cases scope.types.definition type with
      | builtin name => exact .bind (.pure (.refl [])) hown
      | simple simple => exact .bind (.pure (.refl [])) hown
      | complex complex =>
        dsimp only
        cases complex.model with
        | constructs content => exact .bind (.lift (alike_renderAll here heach content)) hown
        | derived inner => exact .bind (ih inner) hown
        | textOnly inner => exact .bind (alike_renderText here heach none _ inner) hown

end Content

section Constructs

variable {left right : Renderer} (hrender : Matched left right)

include hrender

theorem alike_renderConstruct (here : Address) (depth : Nat) (construct : Construct) :
    ((scope.inMode mode).renderConstruct left here depth construct).Alike SameSkeleton
      ((scope.inMode mode').renderConstruct right here depth construct) := by
  induction depth generalizing construct with
  | zero => exact .throw _
  | succ depth ih =>
    cases construct with
    | attributeUse use => exact alike_renderUse hrender here use
    | attributeGroup name =>
      unfold renderConstruct
      simp only [groupAttributes_inMode]
      refine .after (scope.groupAttributes here name) fun uses => .lift ?_
      exact .collect (R := SameSkeleton) rfl (fun _ _ _ _ => .append)
        (fun use => Attempt.orSkip_alike (alike_renderUse hrender here use) rfl) uses
    | simpleContent method base children => exact alike_renderText here ih none _ _
    | complexContent method base children => exact alike_renderDerivation here ih _ _
    | compositor kind occurs children =>
      have hgroup : Attempt.Alike SameSkeleton (do
          let nodes ← liftM
            (renderAll ((scope.inMode mode).renderConstruct left here depth) here children)
          return if nodes.isEmpty then [] else [.group .compositor nodes]) (do
          let nodes ← liftM
            (renderAll ((scope.inMode mode').renderConstruct right here depth) here children)
          return if nodes.isEmpty then [] else [.group .compositor nodes]) := by
        refine .bind (.lift (alike_renderAll here ih children)) fun nodes nodes' hnodes => .pure ?_
        exact (sameSkeleton_compositor nodes).trans
          (hnodes.trans (sameSkeleton_compositor nodes').symm)
      cases kind with
      | choice => exact alike_renderChoice hrender here occurs children
      | all => exact hgroup
      | sequence => exact hgroup
    | group name occurs =>
      refine .after (scope.modelGroup here name) fun group => ?_
      split
      · exact alike_renderChoice hrender here _ _
      · exact .lift (alike_renderAll here ih group.children)
    | element reference occurs =>
      exact .after (scope.elementName reference) fun name =>
        .lift (alike_renderGuarded hrender (here.child name))
    | wildcard occurs => exact .lift (alike_renderGuarded hrender (here.child _))
    | other tag => exact .throw _

end Constructs

theorem alike_renderElement (address : Address) (row : Option Row)
    {left right : Attempt (List TemplateNode)} (hcontent : left.Alike SameSkeleton right) :
    ((scope.inMode mode).renderElement address row left).Alike SameSkeleton
      ((scope.inMode mode').renderElement address row right) := by
  refine .after (scope.node address) fun node => ?_
  have hheader : SameSkeleton [(scope.inMode mode).header address node (row.map Row.var)]
      [(scope.inMode mode').header address node (row.map Row.var)] :=
    (skeleton_header address node _).trans (skeleton_header address node _).symm
  refine .bind hcontent fun nodes nodes' hnodes => ?_
  split
  · exact .pure (.around rfl (SameSkeleton.append hheader hnodes))
  · exact .pure (.around rfl (SameSkeleton.append hheader (.around rfl hnodes)))

/-- Every level of addresses is rendered alike once the levels below are. -/
theorem matched_render (levels : Nat) :
    Matched ((scope.inMode mode).render levels) ((scope.inMode mode').render levels) := by
  induction levels with
  | zero => exact fun _ _ _ => .throw _
  | succ levels ih =>
    intro address row shape
    have heach : ∀ construct, Attempt.Alike SameSkeleton
        ((scope.inMode mode).renderConstruct ((scope.inMode mode).render levels) address
          scope.constructDepth construct)
        ((scope.inMode mode').renderConstruct ((scope.inMode mode').render levels) address
          scope.constructDepth construct) :=
      alike_renderConstruct ih address scope.constructDepth
    cases shape with
    | recursive => exact .pure rfl
    | attr =>
      refine .after (scope.node address) fun node => .pure ?_
      exact sameSkeleton_scalarField address node _ _
    | simple =>
      refine .after (scope.node address) fun node => .pure ?_
      exact sameSkeleton_scalarField address node _ _
    | anything =>
      refine .after (scope.node address) fun node => .pure ?_
      exact (skeleton_anyField address node _).trans (skeleton_anyField address node _).symm
    | complex content =>
      exact alike_renderElement address row (.lift (alike_renderAll address heach content))
    | derived derivation =>
      exact alike_renderElement address row (alike_renderDerivation address heach _ derivation)
    | textOnly derivation => exact alike_renderText address heach row _ derivation

theorem alike_inMode (scope : Scope) (mode mode' : Mode) (levels : Nat) (address : Address) :
    ((scope.inMode mode).renderGuarded ((scope.inMode mode).render levels) address).Alike
      SameSkeleton
      ((scope.inMode mode').renderGuarded ((scope.inMode mode').render levels) address) :=
  alike_renderGuarded (matched_render levels) address

end Scope

end Compile

namespace SchemaIndex

theorem alike_rendered (index : SchemaIndex) (mode mode' : Mode) (address : Address) :
    (index.rendered mode address).Alike Compile.SameSkeleton (index.rendered mode' address) :=
  Compile.Scope.alike_inMode ⟨index, mode, address⟩ mode mode' index.height address

/-- What one mode compiles, any other mode compiles too, with the same skeleton and log. -/
theorem exists_compilation (index : SchemaIndex) (mode mode' : Mode) {address : Address}
    {compilation : Compilation} (hcompile : index.compile mode address = .ok compilation) :
    ∃ other, index.compile mode' address = .ok other ∧
      compilation.template.skeleton = other.template.skeleton ∧ compilation.log = other.log := by
  obtain ⟨hindexed, hended, rfl⟩ := compile_eq_ok_iff.mp hcompile
  have halike := index.alike_rendered mode mode' address
  refine ⟨_, compile_eq_ok_iff.mpr ⟨hindexed, ?_, rfl⟩, halike.value, halike.log⟩
  rwa [Logged.Ended, ← halike.log]

end SchemaIndex

/-- Both modes make a template, of the same skeleton and with the same log. -/
def SchemaIndex.ModesAgree (index : SchemaIndex) (address : Address) : Prop :=
  ∃ edit display, index.compile .edit address = .ok edit ∧
    index.compile .display address = .ok display ∧
    edit.template.skeleton = display.template.skeleton ∧ edit.log = display.log

theorem SchemaIndex.modesAgree_of_compile {index : SchemaIndex} {mode : Mode} {address : Address}
    {compilation : Compilation} (hcompile : index.compile mode address = .ok compilation) :
    index.ModesAgree address := by
  obtain ⟨edit, hedit, -⟩ := index.exists_compilation mode .edit hcompile
  obtain ⟨display, hdisplay, hsame⟩ := index.exists_compilation .edit .display hedit
  exact ⟨edit, display, hedit, hdisplay, hsame⟩

/-- A choice that can be made several times, of an element that repeats and one that does not. -/
def openChoice : SchemaSet :=
  .declaring [.builtin (schemaName "string"),
    .containing [.compositor .choice ⟨0, .unbounded⟩
      [.particle "x" (.anonymous ⟨0⟩) .once, .particle "y" (.anonymous ⟨0⟩) ⟨0, .unbounded⟩]]]
    [.unqualified "r" (.anonymous ⟨1⟩)]

def openChoiceIndex : SchemaIndex :=
  (SchemaIndex.build openChoice .disabled [⟨none, "r"⟩]).toOption.getD default

theorem groupsEnd_openChoice : openChoice.GroupsEnd := by
  refine SchemaSet.groupsEnd_of_rank (fun _ => 0) ?_
  rintro outer inner ⟨group, hgroup, -⟩
  exact nomatch hgroup

end SchemaForms
