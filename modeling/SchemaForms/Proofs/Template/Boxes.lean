import SchemaForms.Proofs.Compile.Rendering
import SchemaForms.Proofs.Schema.Loading
import SchemaForms.Proofs.Template.Skeleton

/-!
What stands beside a text. A box holds the text of an element and what is declared with it, and no
header, so nothing in it is started by a header. Where only attributes are declared with texts,
nothing in a box repeats: attributes are shown as fields. This is about the constructs that a box is
made of, which the relation of rendered nodes forgets; so the induction is on the renderers, as for
that relation, with a renderer for the addresses below that has the property already.
-/

namespace SchemaForms

namespace Construct

/-- Nothing but attributes is declared: what has no construct of its own, such as a facet, declares
nothing. -/
def declaresAttributes : Construct → Bool
  | other _ => true
  | construct => construct.isAttribute

/-- Simple content declares attributes only, wherever it stands in the construct. -/
def TextDeclaresAttributes (construct : Construct) : Prop :=
  ∀ method base children, .simpleContent method base children ∈ construct.parts →
    ∀ child ∈ children, child.declaresAttributes = true

theorem TextDeclaresAttributes.child {construct child : Construct}
    (h : construct.TextDeclaresAttributes) (hchild : child ∈ construct.children) :
    child.TextDeclaresAttributes := by
  intro method base children hpart
  refine h method base children ?_
  rw [parts_eq]
  exact List.mem_cons_of_mem _ (mem_partsOf.mpr ⟨child, hchild, hpart⟩)

theorem textDeclaresAttributes_of_declares {construct : Construct}
    (h : construct.declaresAttributes = true) : construct.TextDeclaresAttributes := by
  intro method base children hpart
  cases construct <;> simp [declaresAttributes, isAttribute, parts] at h hpart

end Construct

/-- A content model of which the same can be said; a text declares attributes itself. -/
def ContentModel.TextDeclaresAttributes : ContentModel → Prop
  | textOnly derivation => ∀ child ∈ derivation.children, child.declaresAttributes = true
  | derived derivation => ∀ child ∈ derivation.children, child.TextDeclaresAttributes
  | constructs content => ∀ construct ∈ content, construct.TextDeclaresAttributes

theorem ContentModel.textDeclaresAttributes_of_first? {content : List Construct}
    {model : ContentModel} (hcontent : ∀ construct ∈ content, construct.TextDeclaresAttributes)
    (h : first? content = some model) : model.TextDeclaresAttributes := by
  induction content with
  | nil => exact nomatch h
  | cons construct others ih =>
    have hothers : ∀ other ∈ others, other.TextDeclaresAttributes := fun other hother =>
      hcontent other (List.mem_cons_of_mem _ hother)
    cases construct with
    | simpleContent method base children =>
      obtain rfl := Option.some.inj h
      exact hcontent _ List.mem_cons_self method base children (by simp [Construct.parts])
    | complexContent method base children =>
      obtain rfl := Option.some.inj h
      exact fun child hchild => (hcontent _ List.mem_cons_self).child hchild
    | _ => exact ih hothers h

namespace SchemaSet

/-- Simple content declares attributes only, wherever it stands in the schema. -/
def TextDeclaresAttributes (set : SchemaSet) : Prop :=
  ∀ method base children, .simpleContent method base children ∈ set.constructs →
    ∀ child ∈ children, child.declaresAttributes = true

variable {set : SchemaSet}

theorem TextDeclaresAttributes.model (h : set.TextDeclaresAttributes) {id : TypeId}
    {complex : ComplexType} (hdefinition : set.types.definition id = .complex complex) :
    complex.model.TextDeclaresAttributes := by
  have hlt : id.index < set.types.definitions.length :=
    index_lt_of_complex? (by rw [hdefinition]; rfl)
  have hmem : TypeDefinition.complex complex ∈ set.types.definitions := by
    rw [← hdefinition]
    simp [TypeTable.definition, List.getD, List.getElem?_eq_getElem hlt]
  have hcontent : ∀ construct ∈ complex.content, construct.TextDeclaresAttributes := by
    intro construct hconstruct method base children hpart
    refine h method base children (Construct.mem_partsOf.mpr ⟨construct, ?_, hpart⟩)
    refine List.mem_append_left _ (List.mem_append_left _ ?_)
    exact List.mem_flatMap.mpr ⟨_, hmem, hconstruct⟩
  unfold ComplexType.model
  cases hfirst : ContentModel.first? complex.content with
  | none => exact hcontent
  | some model => exact ContentModel.textDeclaresAttributes_of_first? hcontent hfirst

theorem TextDeclaresAttributes.modelGroup (h : set.TextDeclaresAttributes) {name : ExpandedName}
    {group : ModelGroup} (hgroup : set.modelGroup? name = some group) :
    ∀ child ∈ group.children, child.TextDeclaresAttributes := by
  intro child hchild method base children hpart
  refine h method base children (Construct.mem_partsOf.mpr ⟨child, ?_, hpart⟩)
  exact List.mem_append_right _ (List.mem_flatMap.mpr ⟨_, mem_of_lookup hgroup, hchild⟩)

end SchemaSet

/-- The index knows attributes by their addresses. -/
def SchemaIndex.TellsAttributes (index : SchemaIndex) : Prop :=
  ∀ address node, index.nodeOf? address = some node → address.isAttribute = node.isAttribute

namespace TemplateNode

def Mark.isIteration : Mark → Bool
  | iteration .. => true
  | _ => false

/-- Nothing among the nodes repeats. -/
def Unrepeated (nodes : List TemplateNode) : Prop :=
  ∀ mark ∈ skeleton nodes, mark.isIteration = false

/-- If the node is a box, nothing in it repeats. -/
def IsPlainBox : TemplateNode → Prop
  | group .box nodes => Unrepeated nodes
  | _ => True

def PlainBoxes (nodes : List TemplateNode) : Prop := Throughout IsPlainBox nodes

variable {left right nodes : List TemplateNode} {node : TemplateNode}

theorem unrepeated_nil : Unrepeated [] := by
  simp [Unrepeated]

theorem unrepeated_append : Unrepeated (left ++ right) ↔ Unrepeated left ∧ Unrepeated right := by
  simp only [Unrepeated, skeleton_append, List.mem_append, or_imp, forall_and]

theorem unrepeated_of_controls (h : skeleton nodes = []) : Unrepeated nodes := by
  simp [Unrepeated, h]

theorem unrepeated_recursive (address : Address) : Unrepeated [.recursive address] := by
  simp [Unrepeated, mark?, contents, Mark.isIteration]

mutual

theorem mem_walk_of_contents {outer inner : TemplateNode} (h : node ∈ outer.walk)
    (hinner : inner ∈ walkAll node.contents) : inner ∈ outer.walk := by
  rw [walk_eq_cons] at h ⊢
  rcases List.mem_cons.mp h with rfl | hbelow
  · exact List.mem_cons_of_mem _ hinner
  · refine List.mem_cons_of_mem _ ?_
    cases outer with
    | group kind children => exact mem_walkAll_of_contents hbelow hinner
    | header label controls => exact mem_walkAll_of_contents hbelow hinner
    | field address input label options controls => exact mem_walkAll_of_contents hbelow hinner
    | guard test target children => exact mem_walkAll_of_contents hbelow hinner
    | iteration siblings var item children => exact mem_walkAll_of_contents hbelow hinner
    | affordance => exact nomatch hbelow
    | choicePrompt => exact nomatch hbelow
    | toggle label children => exact mem_walkAll_of_contents hbelow hinner
    | recursive => exact nomatch hbelow

theorem mem_walkAll_of_contents {nodes : List TemplateNode} {inner : TemplateNode}
    (h : node ∈ walkAll nodes) (hinner : inner ∈ walkAll node.contents) :
    inner ∈ walkAll nodes := by
  cases nodes with
  | nil => exact nomatch h
  | cons first others =>
    rw [walkAll, List.mem_append] at h ⊢
    exact h.imp (mem_walk_of_contents · hinner) (mem_walkAll_of_contents · hinner)

end

theorem skeleton_contents_subset (h : node ∈ walkAll nodes) :
    skeleton node.contents ⊆ skeleton nodes := by
  intro mark hmark
  obtain ⟨marked, hmarked, heq⟩ := List.mem_filterMap.mp hmark
  exact List.mem_filterMap.mpr ⟨marked, mem_walkAll_of_contents h hmarked, heq⟩

theorem Unrepeated.contents (h : Unrepeated nodes) (hnode : node ∈ walkAll nodes) :
    Unrepeated node.contents :=
  fun mark hmark => h mark (skeleton_contents_subset hnode hmark)

/-- Where nothing repeats, nothing repeats in a box. -/
theorem plainBoxes_of_unrepeated (h : Unrepeated nodes) : PlainBoxes nodes := by
  intro node hnode
  unfold IsPlainBox
  split
  · exact h.contents hnode
  · trivial

theorem plainBoxes_of_controls (h : skeleton nodes = []) : PlainBoxes nodes :=
  plainBoxes_of_unrepeated (unrepeated_of_controls h)

theorem plainBoxes_nil : PlainBoxes [] := throughout_nil

theorem plainBoxes_append : PlainBoxes (left ++ right) ↔ PlainBoxes left ∧ PlainBoxes right :=
  throughout_append

/-- Around boxes there may be anything but a box. -/
theorem plainBoxes_singleton (hplain : node.IsPlainBox) (h : PlainBoxes node.contents) :
    PlainBoxes [node] :=
  throughout_cons.mpr ⟨hplain, h, throughout_nil⟩

end TemplateNode

namespace Compile

open TemplateNode

section Fields

variable {scope : Scope} (address : Address) (node : SchemaNode)

theorem unrepeated_scalarField (type : TypeId) (role : FieldRole) :
    Unrepeated [scope.scalarField address node type role] := by
  rw [Unrepeated, skeleton_scalarField]
  simp [Mark.isIteration]

theorem unrepeated_anyField (var : Option String) :
    Unrepeated [scope.anyField address node var] := by
  rw [Unrepeated, skeleton_anyField]
  simp [Mark.isIteration]

end Fields

/-- What is shown for an address: its boxes are plain, and for an attribute nothing repeats. -/
def Boxed (isAttribute : Bool) (nodes : List TemplateNode) : Prop :=
  PlainBoxes nodes ∧ (isAttribute = true → Unrepeated nodes)

theorem boxed_nil (isAttribute : Bool) : Boxed isAttribute [] :=
  ⟨plainBoxes_nil, fun _ => unrepeated_nil⟩

theorem boxed_of_unrepeated {nodes : List TemplateNode} (isAttribute : Bool)
    (h : Unrepeated nodes) : Boxed isAttribute nodes :=
  ⟨plainBoxes_of_unrepeated h, fun _ => h⟩

theorem boxed_of_plainBoxes {nodes : List TemplateNode} (h : PlainBoxes nodes) :
    Boxed false nodes :=
  ⟨h, fun habsurd => nomatch habsurd⟩

namespace Scope

variable {scope : Scope}

/-- A renderer that boxes attributes only. -/
def Boxing (scope : Scope) (render : Renderer) : Prop :=
  ∀ address row node, scope.node address = .ok node →
    (render address row (.ofNode scope.types node node.type)).Yields (fun _ => True)
      (Boxed node.isAttribute)

section Nodes

variable {render : Renderer} (hrender : scope.Boxing render)

include hrender

theorem boxed_iteration (address : Address) (isCollapsible : Bool) {node : SchemaNode}
    (hnode : scope.node address = .ok node) :
    (iteration render address isCollapsible (.ofNode scope.types node node.type)).Yields
      (fun _ => True) fun iterated => PlainBoxes [iterated] := by
  have hitem : scope.node (itemAddress address) = .ok node := by
    rw [node_eq_ok_iff] at hnode ⊢
    simpa using hnode
  refine .bind (hrender _ _ node hitem) fun nodes hnodes => .pure ?_
  exact plainBoxes_singleton trivial hnodes.1

theorem boxed_branch (address : Address) (isCollapsible : Bool) :
    (branch scope render address isCollapsible).Yields (fun _ => True) PlainBoxes := by
  refine .bind (yields_classify (fun _ _ => trivial) _) fun classification hclassified => ?_
  obtain ⟨node, hnode, rfl⟩ := classify_eq_ok hclassified
  refine .bind (boxed_iteration hrender _ _ hnode) fun iterated hiterated => .pure ?_
  exact plainBoxes_singleton trivial hiterated

theorem boxed_repetition (address : Address) {node : SchemaNode}
    (hnode : scope.node address = .ok node) :
    (scope.repetition render address node (.ofNode scope.types node node.type)).Yields
      (fun _ => True) PlainBoxes := by
  refine .bind (boxed_iteration hrender address false hnode) fun iterated hiterated => .pure ?_
  refine plainBoxes_append.mpr ⟨plainBoxes_singleton trivial ?_, ?_⟩
  · exact plainBoxes_append.mpr ⟨hiterated, plainBoxes_of_controls (skeleton_addSibling _ _)⟩
  · exact plainBoxes_of_controls (skeleton_addFirst _ _)

theorem boxed_branches (addressed : PrefixedName → Address) (skipped : Address)
    (isCollapsible : Bool) (names : List PrefixedName) :
    (Logged.collect (fun name => Attempt.orSkip skipped
      (branch scope render (addressed name) isCollapsible)) names).Yields (fun _ => True)
        PlainBoxes :=
  .collect plainBoxes_nil (fun _ _ hleft hright => plainBoxes_append.mpr ⟨hleft, hright⟩)
    fun _ _ => Attempt.orSkip_yields (boxed_branch hrender _ _) plainBoxes_nil

theorem boxed_substitution (address : Address) (node : SchemaNode) :
    (scope.substitution render address node).Yields (fun _ => True) PlainBoxes := by
  unfold substitution
  cases hparent : address.parent? with
  | none => exact .throw trivial
  | some parent =>
    refine .bind (.lift (boxed_branches hrender parent.child address true _)) ?_
    refine fun members hmembers => .pure (plainBoxes_append.mpr ⟨hmembers, ?_⟩)
    exact plainBoxes_of_controls (skeleton_memberControl address parent node)

variable (htells : scope.index.TellsAttributes)

include htells

theorem boxed_renderNode (address : Address) :
    (scope.renderNode render address).Yields (fun _ => True) (Boxed address.isAttribute) := by
  refine .bind (yields_node (fun _ _ => trivial) address) fun node hnode => ?_
  refine .bind (yields_classify (fun _ _ => trivial) address) fun classification hclassified => ?_
  refine .bind (P := fun _ => True) (.note trivial (by simp)) fun _ _ => ?_
  obtain ⟨found, hfound, rfl⟩ := classify_eq_ok hclassified
  obtain rfl : node = found := Except.ok.inj (hnode.symm.trans hfound)
  have hkind := htells address node (node_eq_ok_iff.mp hnode)
  split
  · rename_i hhead
    simp only [Bool.and_eq_true, SchemaNode.isSubstitutionHead] at hhead
    have helement : address.isAttribute = false := by
      rw [hkind]
      cases hnodeKind : node.kind <;>
        simp_all [SchemaNode.isElement, SchemaNode.isAttribute]
    rw [helement]
    exact .mono (boxed_substitution hrender address node) fun _ => boxed_of_plainBoxes
  · split
    · rename_i hrepeating
      have helement : address.isAttribute = false := by
        rw [hkind]
        simp only [SchemaIndex.isRepeating, node_eq_ok_iff.mp hnode, Option.any_some,
          SchemaNode.isRepeating, Bool.and_eq_true, Bool.not_eq_true'] at hrepeating
        exact hrepeating.2.1
      rw [helement]
      exact .mono (boxed_repetition hrender address hnode) fun _ => boxed_of_plainBoxes
    · rw [hkind]
      exact hrender address none node hnode

theorem boxed_renderGuarded (address : Address) :
    (scope.renderGuarded render address).Yields (fun _ => True) (Boxed address.isAttribute) := by
  refine .bind (Attempt.orSkip_yields (boxed_renderNode hrender htells address) (boxed_nil _)) ?_
  intro nodes hnodes
  refine .pure ?_
  split
  · exact boxed_nil _
  · refine ⟨?_, fun hattribute mark hmark => ?_⟩
    · unfold guarded
      split
      · exact hnodes.1
      · exact plainBoxes_singleton trivial hnodes.1
    · rw [skeleton_guarded] at hmark
      exact hnodes.2 hattribute mark hmark

theorem boxed_renderUse (here : Address) (use : AttributeDeclaration) :
    (scope.renderUse render here use).Yields (fun _ => True) Unrepeated := by
  refine .bind (.except (P := fun _ => True) (fun _ _ => trivial) fun _ _ => trivial) ?_
  intro name _
  refine .lift (.mono (boxed_renderGuarded hrender htells (here.attr name)) fun nodes hnodes => ?_)
  exact hnodes.2 (by simp [Address.isAttribute, Address.leaf?, Address.attr, Segment.isAttribute])

theorem boxed_renderChoice (here : Address) (occurs : Occurs) (children : List Construct) :
    (scope.renderChoice render here occurs children).Yields (fun _ => True) PlainBoxes := by
  refine .bind (.except (P := fun _ => True) (fun _ _ => trivial) fun _ _ => trivial)
    fun members _ => ?_
  split
  · refine .bind (.lift (boxed_branches hrender here.child here false members)) ?_
    refine fun branches hbranches => .pure (plainBoxes_append.mpr ⟨hbranches, ?_⟩)
    exact plainBoxes_of_controls (skeleton_repeatedPrompt here occurs members)
  · refine .bind (P := PlainBoxes) (.lift (.collect plainBoxes_nil
      (fun _ _ hleft hright => plainBoxes_append.mpr ⟨hleft, hright⟩) fun name _ => ?_)) ?_
    · refine Attempt.orSkip_yields ?_ plainBoxes_nil
      refine .bind (boxed_renderNode hrender htells _) fun nodes hnodes => .pure ?_
      exact plainBoxes_singleton trivial hnodes.1
    · refine fun branches hbranches => .pure (plainBoxes_append.mpr ⟨hbranches, ?_⟩)
      exact plainBoxes_of_controls (skeleton_singlePrompt here occurs members)

end Nodes

section Content

variable {each : ConstructRenderer} {here : Address}
  (heach : ∀ construct, construct.TextDeclaresAttributes →
    (each construct).Yields (fun _ => True) (Boxed construct.declaresAttributes))

include heach

theorem boxed_renderAll (constructs : List Construct)
    (htext : ∀ construct ∈ constructs, construct.TextDeclaresAttributes) :
    (renderAll each here constructs).Yields (fun _ => True) PlainBoxes := by
  refine .collect plainBoxes_nil
    (fun _ _ hleft hright => plainBoxes_append.mpr ⟨hleft, hright⟩) fun construct hconstruct => ?_
  have hmem : construct ∈ constructs := by
    rcases List.mem_append.mp hconstruct with h | h
    · exact List.mem_of_mem_filter h
    · exact List.mem_of_mem_filter h
  exact Attempt.orSkip_yields (.mono (heach construct (htext construct hmem)) fun _ => And.left)
    plainBoxes_nil

theorem unrepeated_renderAll (constructs : List Construct)
    (hattributes : ∀ construct ∈ constructs, construct.declaresAttributes = true) :
    (renderAll each here constructs).Yields (fun _ => True) Unrepeated := by
  refine .collect unrepeated_nil
    (fun _ _ hleft hright => unrepeated_append.mpr ⟨hleft, hright⟩) fun construct hconstruct => ?_
  have hattribute : construct.declaresAttributes = true := by
    rcases List.mem_append.mp hconstruct with h | h
    · exact hattributes construct (List.mem_of_mem_filter h)
    · exact hattributes construct (List.mem_of_mem_filter h)
  refine Attempt.orSkip_yields (.mono (heach construct ?_) fun nodes hnodes => ?_) unrepeated_nil
  · exact Construct.textDeclaresAttributes_of_declares hattribute
  · exact hnodes.2 hattribute

variable (hset : scope.index.set.TextDeclaresAttributes)

include hset

/-- The text and the attributes of an element: nothing repeats in the box, and there is none but
this and those of the texts that are extended. -/
theorem unrepeated_renderText (row : Option Row) (steps : Nat) (derivation : Derivation)
    (hattributes : ∀ child ∈ derivation.children, child.declaresAttributes = true) :
    (scope.renderText each here row steps derivation).Yields (fun _ => True) Unrepeated := by
  induction steps generalizing derivation with
  | zero => exact .throw trivial
  | succ steps ih =>
    have hothers : (renderAll each here derivation.children).Yields (fun _ => True) Unrepeated :=
      unrepeated_renderAll heach derivation.children hattributes
    have hbox : ∀ text, Unrepeated text → Attempt.Yields (fun _ => True) (do
        let others ← liftM (renderAll each here derivation.children)
        return [.group .box (text ++ others)]) Unrepeated := by
      intro text htext
      refine .bind (.lift hothers) fun others hothers => .pure ?_
      rw [Unrepeated, skeleton_group]
      exact unrepeated_append.mpr ⟨htext, hothers⟩
    unfold renderText
    split
    · exact .bind (P := fun _ => True) (.note trivial fun _ _ => trivial) fun _ _ =>
        .pure unrepeated_nil
    · refine .bind (yields_baseType (fun _ _ => trivial) _ _) fun type _ => ?_
      refine .bind (yields_node (fun _ _ => trivial) here) fun node hnode => ?_
      split
      · rename_i inner hshape
        obtain ⟨-, complex, hcomplex, hmodel⟩ := Shape.exists_model (congrArg Shape.model? hshape)
        have hinner := hset.model hcomplex
        rw [hmodel] at hinner
        exact .bind (ih inner hinner) hbox
      · exact .bind (P := Unrepeated) (.pure (unrepeated_scalarField _ _ _ _)) hbox

theorem boxed_renderText (row : Option Row) (steps : Nat) (derivation : Derivation)
    (hattributes : ∀ child ∈ derivation.children, child.declaresAttributes = true) :
    (scope.renderText each here row steps derivation).Yields (fun _ => True) PlainBoxes :=
  .mono (unrepeated_renderText heach hset row steps derivation hattributes)
    fun _ => plainBoxes_of_unrepeated

theorem boxed_renderDerivation (steps : Nat) (derivation : Derivation)
    (htext : ∀ child ∈ derivation.children, child.TextDeclaresAttributes) :
    (scope.renderDerivation each here steps derivation).Yields (fun _ => True) PlainBoxes := by
  have hnote : ∀ {children : List Construct},
      (∀ child ∈ children, child.TextDeclaresAttributes) → Attempt.Yields (fun _ => True) (do
        Attempt.note here .restatedContent
        renderAll each here children) PlainBoxes := fun hchildren =>
    .bind (P := fun _ => True) (.note trivial (by simp)) fun _ _ =>
      .lift (boxed_renderAll heach _ hchildren)
  induction steps generalizing derivation with
  | zero =>
    obtain ⟨method, base, children⟩ := derivation
    cases method with
    | extension => exact .throw trivial
    | restriction => exact hnote htext
  | succ steps ih =>
    obtain ⟨method, base, children⟩ := derivation
    cases method with
    | restriction => exact hnote htext
    | extension =>
      refine .bind (yields_baseType (fun _ _ => trivial) _ _) fun type _ => ?_
      have hown : ∀ inherited, PlainBoxes inherited → Attempt.Yields (fun _ => True) (do
          let others ← liftM (renderAll each here children)
          return inherited ++ others) PlainBoxes := fun _ hinherited =>
        .bind (.lift (boxed_renderAll heach children htext)) fun _ hothers =>
          .pure (plainBoxes_append.mpr ⟨hinherited, hothers⟩)
      split
      · rename_i complex hcomplex
        have hmodel := hset.model hcomplex
        split
        · rename_i content hcontent
          rw [hcontent] at hmodel
          exact .bind (.lift (boxed_renderAll heach content hmodel)) hown
        · rename_i inner hderived
          rw [hderived] at hmodel
          exact .bind (ih inner hmodel) hown
        · rename_i inner htextOnly
          rw [htextOnly] at hmodel
          exact .bind (boxed_renderText heach hset none _ inner hmodel) hown
      · exact .bind (.pure plainBoxes_nil) hown

end Content

section Constructs

variable {render : Renderer} (hrender : scope.Boxing render)
  (htells : scope.index.TellsAttributes) (hset : scope.index.set.TextDeclaresAttributes)

include hrender htells hset

theorem boxed_renderConstruct (here : Address) (depth : Nat) :
    ∀ construct, construct.TextDeclaresAttributes →
      (scope.renderConstruct render here depth construct).Yields (fun _ => True)
        (Boxed construct.declaresAttributes) := by
  induction depth with
  | zero => exact fun construct _ => .throw trivial
  | succ depth ih =>
    intro construct htext
    have hshown : ∀ name, (scope.renderGuarded render (here.child name)).Yields (fun _ => True)
        (Boxed false) := fun name =>
      .mono (boxed_renderGuarded hrender htells _) fun nodes hnodes => boxed_of_plainBoxes hnodes.1
    cases construct with
    | attributeUse use =>
      exact .mono (boxed_renderUse hrender htells here use) fun _ => boxed_of_unrepeated _
    | attributeGroup name =>
      refine .mono (.bind (.except (P := fun _ => True) (fun _ _ => trivial) fun _ _ => trivial)
        fun uses _ => .lift ?_) fun _ => boxed_of_unrepeated _
      exact .collect unrepeated_nil (fun _ _ hleft hright => unrepeated_append.mpr ⟨hleft, hright⟩)
        fun use _ => Attempt.orSkip_yields (boxed_renderUse hrender htells here use) unrepeated_nil
    | simpleContent method base children =>
      have hattributes := htext method base children (by simp [Construct.parts])
      exact .mono (boxed_renderText ih hset none _ ⟨method, base, children⟩ hattributes)
        fun _ => boxed_of_plainBoxes
    | complexContent method base children =>
      exact .mono (boxed_renderDerivation ih hset _ ⟨method, base, children⟩ fun child hchild =>
        htext.child hchild) fun _ => boxed_of_plainBoxes
    | compositor kind occurs children =>
      have hgroup : Attempt.Yields (fun _ => True) (do
          let nodes ← liftM (renderAll (scope.renderConstruct render here depth) here children)
          return if nodes.isEmpty then [] else [.group .compositor nodes]) PlainBoxes := by
        refine .bind (.lift (boxed_renderAll ih children fun child hchild => htext.child hchild))
          fun nodes hnodes => .pure ?_
        split
        · exact plainBoxes_nil
        · exact plainBoxes_singleton trivial hnodes
      cases kind with
      | choice =>
        exact .mono (boxed_renderChoice hrender htells here occurs children)
          fun _ => boxed_of_plainBoxes
      | all => exact .mono hgroup fun _ => boxed_of_plainBoxes
      | sequence => exact .mono hgroup fun _ => boxed_of_plainBoxes
    | group name occurs =>
      refine .bind (.except (fun _ => modelGroup_eq_ok) fun _ _ => trivial) fun group hgroup => ?_
      split
      · exact .mono (boxed_renderChoice hrender htells here _ _) fun _ => boxed_of_plainBoxes
      · exact .mono (.lift (boxed_renderAll ih _ (hset.modelGroup hgroup)))
          fun _ => boxed_of_plainBoxes
    | element reference occurs =>
      refine .bind (.except (P := fun _ => True) (fun _ _ => trivial) fun _ _ => trivial)
        fun name _ => .lift (hshown name)
    | wildcard occurs => exact .lift (hshown _)
    | other tag => exact .throw trivial

end Constructs

theorem boxed_renderElement (address : Address) (row : Option Row)
    {content : Attempt (List TemplateNode)}
    (hcontent : content.Yields (fun _ => True) PlainBoxes) :
    (scope.renderElement address row content).Yields (fun _ => True) PlainBoxes := by
  refine .bind (yields_node (fun _ _ => trivial) address) fun node _ => ?_
  refine .bind hcontent fun nodes hnodes => ?_
  have hheader : PlainBoxes [scope.header address node (row.map Row.var)] :=
    plainBoxes_of_controls (skeleton_header address node _)
  split
  · exact .pure (plainBoxes_singleton trivial (plainBoxes_append.mpr ⟨hheader, hnodes⟩))
  · refine .pure (plainBoxes_singleton trivial (plainBoxes_append.mpr ⟨hheader, ?_⟩))
    exact plainBoxes_singleton trivial hnodes

theorem boxing_render (htells : scope.index.TellsAttributes)
    (hset : scope.index.set.TextDeclaresAttributes) (levels : Nat) :
    scope.Boxing (scope.render levels) := by
  induction levels with
  | zero => exact fun address row node _ => .throw trivial
  | succ levels ih =>
    intro address row node hnode
    have heach := boxed_renderConstruct ih htells hset address scope.constructDepth
    have hscalar : ∀ isAttribute, Attempt.Yields (fun _ => True) (do
        let found ← scope.node address
        return [scope.scalarField address found found.type (scalarRole row)])
        (Boxed isAttribute) := by
      exact fun isAttribute => .bind (yields_node (fun _ _ => trivial) address) fun found _ =>
        .pure (boxed_of_unrepeated _ (unrepeated_scalarField _ _ _ _))
    have hmodel : ∀ model, (Shape.ofNode scope.types node node.type).model? = some model →
        node.isAttribute = false ∧ model.TextDeclaresAttributes := by
      intro model hshape
      obtain ⟨helement, complex, hcomplex, rfl⟩ := Shape.exists_model hshape
      exact ⟨helement, hset.model hcomplex⟩
    unfold render renderWithin
    cases hshape : Shape.ofNode scope.types node node.type with
    | recursive =>
      exact .pure (boxed_of_unrepeated _ (unrepeated_recursive address))
    | attr => exact hscalar _
    | simple => exact hscalar _
    | anything =>
      exact .bind (yields_node (fun _ _ => trivial) address) fun found _ =>
        .pure (boxed_of_unrepeated _ (unrepeated_anyField _ _ _))
    | complex content =>
      obtain ⟨helement, htext⟩ := hmodel (.constructs content) (congrArg Shape.model? hshape)
      rw [helement]
      exact .mono (boxed_renderElement address row (.lift (boxed_renderAll heach content htext)))
        fun _ => boxed_of_plainBoxes
    | derived derivation =>
      obtain ⟨helement, htext⟩ := hmodel (.derived derivation) (congrArg Shape.model? hshape)
      rw [helement]
      exact .mono (boxed_renderElement address row
        (boxed_renderDerivation heach hset _ derivation htext)) fun _ => boxed_of_plainBoxes
    | textOnly derivation =>
      obtain ⟨helement, htext⟩ := hmodel (.textOnly derivation) (congrArg Shape.model? hshape)
      rw [helement]
      exact .mono (boxed_renderText heach hset row _ derivation htext) fun _ => boxed_of_plainBoxes

end Scope

end Compile

/-- Where texts declare attributes only, nothing repeats in a box of a template. -/
theorem SchemaIndex.plainBoxes_of_compile {index : SchemaIndex} (htells : index.TellsAttributes)
    (hset : index.set.TextDeclaresAttributes) {mode : Mode} {address : Address}
    {compilation : Compilation} (h : index.compile mode address = .ok compilation) :
    TemplateNode.PlainBoxes compilation.template.nodes := by
  obtain ⟨-, -, rfl⟩ := SchemaIndex.compile_eq_ok_iff.mp h
  exact (Compile.Scope.boxed_renderGuarded
    (Compile.Scope.boxing_render htells hset index.height) htells address).value.1

end SchemaForms
