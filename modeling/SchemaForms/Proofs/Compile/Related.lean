import SchemaForms.Proofs.Compile.Corresponding
import SchemaForms.Proofs.Index.Alike

/-!
Templates of schemas that say the same are the same, and so are the logs: such schemas correspond by
what matches.
-/

namespace SchemaForms

section Shapes

variable {matching : Matching}

/-- Declarations correspond when they match. -/
def Matching.correspondence (matching : Matching) (type : TypeId → TypeId → Prop) :
    Correspondence where
  type := type
  ref := matching.ref
  use := AttributeDeclaration.Matches matching
  element := ElementRef.Matches matching
  constructs := Construct.AllMatch matching

variable {type : TypeId → TypeId → Prop}

theorem Construct.Matches.corresponds {construct construct' : Construct}
    (h : construct.Matches matching construct') :
    construct.Corresponds (matching.correspondence type) construct' := by
  cases h with
  | attributeUse huse => exact .attributeUse huse
  | attributeGroup => exact .attributeGroup
  | simpleContent hbase hchildren => exact .simpleContent hbase hchildren
  | complexContent hbase hchildren => exact .complexContent hbase hchildren
  | compositor hchildren => exact .compositor hchildren
  | group => exact .group
  | element href => exact .element href
  | wildcard => exact .wildcard
  | other => exact .other

theorem Construct.filter_corresponds {constructs constructs' : List Construct}
    (h : Construct.AllMatch matching constructs constructs') (keeps : Bool → Bool) :
    List.Forall₂ (Construct.Corresponds (matching.correspondence type))
      (constructs.filter fun construct => keeps construct.isAttribute)
      (constructs'.filter fun construct => keeps construct.isAttribute) :=
  (List.rel_filter (fun _ _ hconstruct => by simp only [hconstruct.isAttribute_eq]) h).imp
    fun _ _ hconstruct => hconstruct.corresponds

theorem ContentModel.first?_corresponds {constructs constructs' : List Construct}
    (h : Construct.AllMatch matching constructs constructs') :
    Option.Rel (ContentModel.Corresponds (matching.correspondence type))
      (ContentModel.first? constructs) (ContentModel.first? constructs') := by
  induction h with
  | nil => exact .none
  | cons hfirst _ ih =>
    cases hfirst with
    | simpleContent hbase hchildren => exact .some (.textOnly ⟨rfl, hbase, hchildren⟩)
    | complexContent hbase hchildren => exact .some (.derived ⟨rfl, hbase, hchildren⟩)
    | _ => exact ih

theorem TypeDefinition.Matches.corresponds {definition definition' : TypeDefinition}
    (h : definition.Matches matching definition') :
    definition.Corresponds (matching.correspondence type) definition' := by
  cases h with
  | builtin => exact .builtin
  | simple => exact .simple
  | complex _ hcontent =>
    refine .complex ?_
    have hfirst : Option.Rel (ContentModel.Corresponds (matching.correspondence type)) _ _ :=
      ContentModel.first?_corresponds hcontent
    unfold ComplexType.model
    dsimp only
    generalize ContentModel.first? _ = found at hfirst
    generalize ContentModel.first? _ = found' at hfirst
    cases hfirst with
    | none => exact .constructs hcontent
    | some hmodel => exact hmodel

end Shapes

namespace Compile

section Openings

variable {α β γ δ : Type}

/-- From the same opened groups, both fail together, or both collect something related and have the
same groups opened. -/
def Opening.Alike (R : α → β → Prop) (left : Opening α) (right : Opening β) : Prop :=
  ∀ opened, Together (fun found found' => R found.1 found'.1 ∧ found.2 = found'.2)
    (left.run opened) (right.run opened)

namespace Opening

variable {R : α → β → Prop} {S : γ → δ → Prop}

theorem Alike.pure {a : α} {b : β} (h : R a b) :
    Alike R (Pure.pure a : Opening α) (Pure.pure b : Opening β) :=
  fun _ => .ok ⟨h, rfl⟩

theorem Alike.throw (error : CompileError) :
    Alike R (MonadExcept.throw error : Opening α) (MonadExcept.throw error : Opening β) :=
  fun _ => .error error

theorem Alike.bind {left : Opening α} {right : Opening β} {next : α → Opening γ}
    {next' : β → Opening δ} (h : Alike R left right)
    (hnext : ∀ a b, R a b → Alike S (next a) (next' b)) :
    Alike S (left >>= next) (right >>= next') := by
  intro opened
  rw [StateT.run_bind, StateT.run_bind]
  refine (h opened).bind ?_
  rintro ⟨a, reached⟩ ⟨b, reached'⟩ ⟨hfound, hreached⟩
  cases hreached
  exact hnext a b hfound reached

theorem Alike.of_together {left : Except CompileError α} {right : Except CompileError β}
    (h : Together R left right) : Alike R (liftM left : Opening α) (liftM right : Opening β) := by
  cases h with
  | ok h => exact .pure h
  | error error => exact .throw error

theorem Alike.openOnce {R : List α → List β → Prop} {left : Opening (List α)}
    {right : Opening (List β)} (hnil : R [] []) (name : ExpandedName) (h : Alike R left right) :
    Alike R (Compile.openOnce name left) (Compile.openOnce name right) := by
  intro opened
  simp only [Compile.openOnce, StateT.run_bind, StateT.run_get, pure_bind]
  split
  · exact .ok ⟨hnil, rfl⟩
  · exact h (name :: opened)

theorem Alike.openAll {T : Construct → Construct → Prop} {R : List α → List β → Prop}
    {left : Construct → Opening (List α)} {right : Construct → Opening (List β)}
    (hnil : R [] [])
    (happend : ∀ first first' others others', R first first' → R others others' →
      R (first ++ others) (first' ++ others'))
    {constructs constructs' : List Construct} (h : List.Forall₂ T constructs constructs')
    (heach : ∀ a b, T a b → Alike R (left a) (right b)) :
    Alike R (Compile.openAll left constructs) (Compile.openAll right constructs') := by
  induction h with
  | nil => exact .pure hnil
  | cons hfirst _ ih =>
    exact .bind (heach _ _ hfirst) fun _ _ hfound => .bind ih fun _ _ hothers =>
      .pure (happend _ _ _ _ hfound hothers)

end Opening

end Openings

end Compile

namespace SchemaIndex.Same

open Compile

variable {pairs : TypeId → TypeId → Prop} {left right : SchemaIndex} (h : left.Same pairs right)
  {mode : Mode} {root : Address}

include h

theorem nodeOf? (address : Address) :
    Option.Rel (SchemaNode.Same (SchemaSet.SameType pairs left.set right.set))
      (left.nodeOf? address) (right.nodeOf? address) :=
  find?_address_of_same h.nodes address.schemaAddress

theorem isMultiSelect_eq (address : Address) :
    left.isMultiSelect address = right.isMultiSelect address :=
  any_eq_of_rel (h.nodeOf? address) fun _ _ hnode => h.related.isMultiSelect_eq hnode

theorem hasMultiSelect_eq (address : Address) :
    left.hasMultiSelect address = right.hasMultiSelect address := by
  refine any_eq_of_rel (h.nodeOf? address) fun node node' hnode => ?_
  have hchildren : node'.children = node.children := by rw [hnode.same]
  have hmulti : left.isMultiSelect = right.isMultiSelect := funext h.isMultiSelect_eq
  rw [hchildren, hmulti]

theorem attributeGroup (here : Address) (name : ExpandedName) :
    Together (AttributeGroup.Matches (SchemaSet.matching pairs left.set right.set))
      (Scope.attributeGroup ⟨left, mode, root⟩ here name)
      (Scope.attributeGroup ⟨right, mode, root⟩ here name) := by
  have hgroup := h.related.attributeGroup? name
  unfold Scope.attributeGroup
  dsimp only
  generalize left.set.attributeGroup? name = found at hgroup
  generalize right.set.attributeGroup? name = found' at hgroup
  cases hgroup with
  | none => exact .error _
  | some hgroup => exact .ok hgroup

theorem usesOf (here : Address) (depth : Nat) (name : ExpandedName) :
    Opening.Alike
      (List.Forall₂ (AttributeDeclaration.Matches (SchemaSet.matching pairs left.set right.set)))
      (Scope.usesOf ⟨left, mode, root⟩ here depth name)
      (Scope.usesOf ⟨right, mode, root⟩ here depth name) := by
  induction depth generalizing name with
  | zero => exact .throw _
  | succ depth ih =>
    refine .openOnce .nil _ (.bind (.of_together (h.attributeGroup here name)) fun _ _ hgroup => ?_)
    refine .openAll .nil (fun _ _ _ _ hfirst hothers => List.rel_append hfirst hothers)
      hgroup.attributes ?_
    intro construct construct' hconstruct
    cases hconstruct with
    | attributeUse huse => exact .pure (.cons huse .nil)
    | attributeGroup => exact ih _
    | _ => exact .pure .nil

theorem groupAttributes (here : Address) (name : ExpandedName) :
    Together
      (List.Forall₂ (AttributeDeclaration.Matches (SchemaSet.matching pairs left.set right.set)))
      (Scope.groupAttributes ⟨left, mode, root⟩ here name)
      (Scope.groupAttributes ⟨right, mode, root⟩ here name) := by
  unfold Scope.groupAttributes
  dsimp only
  rw [← h.related.attributeGroups.length_eq]
  exact ((h.usesOf here _ name) []).bind fun _ _ hfound => .ok hfound.1

theorem corresponds : (Scope.mk left mode root).Corresponds
    ((SchemaSet.matching pairs left.set right.set).correspondence
      (SchemaSet.SameType pairs left.set right.set)) ⟨right, mode, root⟩ where
  mode := rfl
  root := rfl
  nodeOf? address := rel_mono (h.nodeOf? address) fun _ _ hnode =>
    ⟨hnode.type, by rw [hnode.same]⟩
  hasMultiSelect := h.hasMultiSelect_eq
  types _ _ htype := {
    definition := (h.related.definition htype).corresponds
    enumeration := h.related.enumeration_eq htype
    isComboUnion := h.related.isComboUnion_eq htype
    isLanguage := h.related.isLanguage_eq htype
    isBoolean := h.related.isBoolean_eq htype }
  resolve? _ _ href := h.related.resolve? href
  modelGroup? name := rel_mono (h.related.modelGroup? name) fun _ _ hgroup =>
    ⟨hgroup.children, hgroup.same⟩
  groupAttributes := h.groupAttributes
  elementName _ _ href := by
    rw [SchemaIndex.elementName, SchemaIndex.elementName, h.related.elementName_eq _ href,
      h.namespaces]
  attributeName _ _ huse := by
    rw [SchemaIndex.attributeName, SchemaIndex.attributeName, h.related.attributeName_eq _ huse,
      h.namespaces]
  wildcardName := h.related.wildcardName_eq
  walkDepth := h.related.walkDepth_eq
  heights _ _ hconstructs := Construct.heights_eq_of_allMatch hconstructs
  attributes _ _ hconstructs := Construct.filter_corresponds hconstructs id
  others _ _ hconstructs := Construct.filter_corresponds hconstructs not

theorem height_eq : left.height = right.height := by
  have hdepths : left.nodes.map (fun node => node.address.depth) =
      right.nodes.map fun node => node.address.depth :=
    map_eq_of_forall₂ h.nodes fun _ _ hnode => by rw [hnode.same]
  rw [height, height, hdepths]

/-- Indexes that answer the same are compiled to the same templates, with the same logs. -/
theorem compile_eq (mode : Mode) (address : Address) :
    left.compile mode address = right.compile mode address :=
  compile_eq_of_corresponds h.corresponds h.height_eq

end SchemaIndex.Same

end SchemaForms
