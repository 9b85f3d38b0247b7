import SchemaForms.Proofs.Compile.Controls

/-!
What a template shows of a document: its fields, iterations and recursive nodes, in document order.
The controls of a form stand beside them and are not among them, so they do not count.
-/

namespace SchemaForms

namespace TemplateNode

inductive Mark where
  | field (address : Address) (label : Label)
  | iteration (siblings : Address) (var : String) (item : Address)
  | recursive (address : Address)
  deriving DecidableEq, Repr

def Mark.fieldAddress? : Mark → Option Address
  | field address _ => some address
  | _ => none

def mark? : TemplateNode → Option Mark
  | field address _ label _ _ => some (.field address label)
  | iteration siblings var item _ => some (.iteration siblings var item)
  | recursive address => some (.recursive address)
  | _ => none

def skeleton (nodes : List TemplateNode) : List Mark := (walkAll nodes).filterMap mark?

@[simp] theorem skeleton_nil : skeleton [] = [] := rfl

@[simp] theorem skeleton_append (left right : List TemplateNode) :
    skeleton (left ++ right) = skeleton left ++ skeleton right := by
  simp [skeleton, walkAll_append]

@[simp] theorem skeleton_cons (node : TemplateNode) (others : List TemplateNode) :
    skeleton (node :: others) =
      node.mark?.toList ++ skeleton node.contents ++ skeleton others := by
  rw [skeleton, walkAll, walk_eq_cons]
  cases h : node.mark? <;> simp [h, skeleton]

theorem skeleton_group (kind : GroupKind) (nodes : List TemplateNode) :
    skeleton [.group kind nodes] = skeleton nodes := by
  simp [mark?, contents]

/-- A guard is no mark, whatever it asks for. -/
theorem skeleton_guard (test : GuardTest) (place : Address) (nodes : List TemplateNode) :
    skeleton [.guard test place nodes] = skeleton nodes := by
  simp [mark?, contents]

/-- Nodes of a control are no marks, and neither is what is below them. -/
theorem skeleton_eq_nil_iff {nodes : List TemplateNode} :
    skeleton nodes = [] ↔ Throughout (fun node => node.mark? = none) nodes :=
  List.filterMap_eq_nil_iff

end TemplateNode

def Template.skeleton (template : Template) : List TemplateNode.Mark :=
  TemplateNode.skeleton template.nodes

namespace Compile

open TemplateNode

variable {scope : Scope} (address : Address)

theorem skeleton_editing {controls : List TemplateNode} (h : skeleton controls = []) :
    skeleton (scope.editing controls) = [] :=
  skeleton_eq_nil_iff.mpr (throughout_editing (skeleton_eq_nil_iff.mp h))

theorem skeleton_of_controlAt {controls : List TemplateNode}
    (h : ∀ control ∈ controls, scope.ControlAt address control) : skeleton controls = [] := by
  refine skeleton_eq_nil_iff.mpr (throughout_of_controlAt (fun control hcontrol => ?_) h)
  apply skeleton_eq_nil_iff.mp
  cases hcontrol <;> rfl

theorem skeleton_fieldControls (role : FieldRole) :
    skeleton (scope.fieldControls address role) = [] :=
  skeleton_of_controlAt address fun _ => controlAt_fieldControls

theorem skeleton_rowControls (isRow : Bool) :
    skeleton (if isRow then [deleteControl address] else []) = [] := by
  split <;> rfl

theorem skeleton_headerControls (isRow : Bool) :
    skeleton (scope.headerControls address isRow) = [] :=
  skeleton_of_controlAt address fun _ => controlAt_headerControls

@[simp] theorem skeleton_scalarField (node : SchemaNode) (type : TypeId) (role : FieldRole) :
    skeleton [scope.scalarField address node type role] =
      [.field address (captionOf address node role.var?)] := by
  have hcontrols : skeleton (scope.editing (scope.fieldControls address role)) = [] :=
    skeleton_editing (skeleton_fieldControls address role)
  simp [Scope.scalarField, mark?, contents, hcontrols]

@[simp] theorem skeleton_anyField (node : SchemaNode) (var : Option String) :
    skeleton [scope.anyField address node var] = [.field address (captionOf address node var)] := by
  have hcontrols : skeleton
      (scope.editing (if var.isSome then [deleteControl address] else [])) = [] :=
    skeleton_editing (skeleton_rowControls address var.isSome)
  simp [Scope.anyField, mark?, contents, hcontrols]

@[simp] theorem skeleton_header (node : SchemaNode) (var : Option String) :
    skeleton [scope.header address node var] = [] := by
  have hcontrols : skeleton (scope.editing (scope.headerControls address var.isSome)) = [] :=
    skeleton_editing (skeleton_headerControls address var.isSome)
  simp [Scope.header, mark?, contents, hcontrols]

theorem skeleton_singlePrompt (occurs : Occurs) (members : List PrefixedName) :
    skeleton (scope.editing [Scope.singlePrompt address occurs members]) = [] :=
  skeleton_editing rfl

theorem skeleton_repeatedPrompt (occurs : Occurs) (members : List PrefixedName) :
    skeleton (scope.editing [Scope.repeatedPrompt address occurs members]) = [] :=
  skeleton_editing rfl

theorem skeleton_addSibling (limit : MaxOccurs) :
    skeleton (scope.editing [Scope.addSibling address limit]) = [] :=
  skeleton_editing rfl

theorem skeleton_addFirst (isStarted : Bool) :
    skeleton (scope.editing (if isStarted then [] else [Scope.addFirst address])) = [] := by
  apply skeleton_editing
  split <;> rfl

theorem skeleton_memberControl (parent : Address) (node : SchemaNode) :
    skeleton (scope.editing (Scope.memberControl parent address node)) = [] := by
  apply skeleton_editing
  unfold Scope.memberControl
  split <;> rfl

/-- Only the content of an element is marked. -/
theorem skeleton_elementGroup (node : SchemaNode) (row : Option Row)
    (nodes : List TemplateNode) :
    skeleton [scope.elementGroup address node row nodes] = skeleton nodes := by
  have hheader : skeleton [scope.header address node (row.map Row.var)] = [] :=
    skeleton_header address node _
  have hboth : ∀ inner : List TemplateNode,
      skeleton (scope.header address node (row.map Row.var) :: inner) = skeleton inner := by
    intro inner
    change skeleton ([scope.header address node (row.map Row.var)] ++ inner) = _
    rw [skeleton_append, hheader, List.nil_append]
  unfold Scope.elementGroup
  split
  · simp [mark?, contents, hboth]
  · simp [mark?, contents, hboth]

theorem skeleton_guarded (nodes : List TemplateNode) :
    skeleton (scope.guarded address nodes) = skeleton nodes := by
  unfold Scope.guarded
  split
  · rfl
  · exact skeleton_guard _ _ nodes

theorem skeleton_itemIteration (nodes : List TemplateNode) :
    skeleton [itemIteration address nodes] =
      .iteration address.siblingPath (itemVariable address) (itemAddress address) ::
        skeleton nodes := by
  simp [itemIteration, mark?, contents]

theorem skeleton_repeated (node : SchemaNode) (rows : List TemplateNode) :
    skeleton (scope.repeated address node rows) = skeleton [itemIteration address rows] := by
  have hsibling : skeleton
      (scope.editing [Scope.addSibling address.siblingPath (Scope.occurrenceLimit node)]) = [] :=
    skeleton_addSibling _ _
  have hfirst : skeleton (scope.editing
      (if scope.isStartedAbove address then [] else [Scope.addFirst address.siblingPath])) = [] :=
    skeleton_addFirst _ _
  simp [Scope.repeated, hsibling, hfirst, mark?, contents]

end Compile

end SchemaForms
