import SchemaForms.Proofs.Compile.Rendered
import SchemaForms.Proofs.Template.Throughout

/-!
The controls of a form, told apart. Headers and fields have five kinds of controls, and which of
them stand at an address is decided from the index and from the row; but all are for the address
itself, except the control in a header that starts the only child that repeats. So what holds of
each kind holds of all controls beside headers and fields. Around what is shown there are only
groups, guards and iterations, and the controls that add one more.
-/

namespace SchemaForms.Compile

open TemplateNode

/-- A control that a header or a field at the address may have. -/
inductive Scope.ControlAt (scope : Scope) (address : Address) : TemplateNode → Prop
  | delete : scope.ControlAt address (deleteControl address)
  | choiceDelete : scope.ControlAt address (choiceDeleteControl address)
  | choose (test : GuardTest) :
      scope.ControlAt address (.guard test address [chooseControl address])
  | remove : scope.ControlAt address (.guard .present address [removeControl address])
  | start {singleton name} (hsingleton : scope.index.repeatingSingletonOf? address = some singleton)
      (hname : singleton.leafName? = some name) :
      scope.ControlAt address (startControl (address.child name))

variable {scope : Scope} {address : Address} {control : TemplateNode}
  {controls : List TemplateNode}

theorem editing_subset (scope : Scope) (controls : List TemplateNode) :
    scope.editing controls ⊆ controls := by
  unfold Scope.editing
  split
  · exact List.Subset.refl _
  · exact List.nil_subset _

theorem controlAt_rowControls {isRow : Bool}
    (h : control ∈ if isRow then [deleteControl address] else []) :
    scope.ControlAt address control := by
  cases isRow with
  | false => contradiction
  | true =>
    obtain rfl := List.mem_singleton.mp h
    exact .delete

theorem controlAt_optionalControls (h : control ∈ optionalControls address) :
    scope.ControlAt address control := by
  simp only [optionalControls, List.mem_cons, List.not_mem_nil, or_false] at h
  obtain rfl | rfl := h
  · exact .choose .absent
  · exact .remove

theorem controlAt_fieldControls {role : FieldRole}
    (h : control ∈ scope.fieldControls address role) : scope.ControlAt address control := by
  unfold Scope.fieldControls at h
  split at h
  · obtain rfl := List.mem_singleton.mp h
    exact .delete
  · exact controlAt_optionalControls h
  · split at h
    · exact controlAt_optionalControls h
    · contradiction

theorem controlAt_occurrenceControls (h : control ∈ scope.occurrenceControls address) :
    scope.ControlAt address control := by
  unfold Scope.occurrenceControls at h
  split at h
  · obtain rfl := List.mem_singleton.mp h
    exact .choiceDelete
  · split at h
    · contradiction
    · split at h
      · exact controlAt_optionalControls h
      · split at h
        · obtain rfl := List.mem_singleton.mp h
          exact .choose .childless
        · contradiction

theorem controlAt_headerControls {isRow : Bool}
    (h : control ∈ scope.headerControls address isRow) : scope.ControlAt address control := by
  rcases List.mem_append.mp h with hrow | hown
  · exact controlAt_rowControls hrow
  · split at hown
    · rename_i singleton hsingleton
      rcases List.mem_append.mp hown with hchoice | hstart
      · split at hchoice
        · obtain rfl := List.mem_singleton.mp hchoice
          exact .choiceDelete
        · contradiction
      · obtain ⟨name, hname, rfl⟩ := Option.map_eq_some_iff.mp (Option.mem_toList.mp hstart)
        exact .start hsingleton hname
    · split at hown
      · contradiction
      · exact controlAt_occurrenceControls hown

section Throughout

variable {P : TemplateNode → Prop} {node : SchemaNode} {nodes : List TemplateNode}

theorem throughout_editing (h : Throughout P controls) :
    Throughout P (scope.editing controls) := by
  unfold Scope.editing
  split
  · exact h
  · exact throughout_nil

theorem throughout_memberControl {parent : Address}
    (h : Throughout P [Scope.addMember parent address node.members node.occurs.max]) :
    Throughout P (Scope.memberControl parent address node) := by
  unfold Scope.memberControl
  split
  · exact throughout_nil
  · exact h

theorem throughout_repeated {rows : List TemplateNode}
    (hguard : ∀ inner, P (.guard .present address.siblingPath inner))
    (hitems : P (itemIteration address rows)) (hrows : Throughout P rows)
    (hsibling : Throughout P
      [Scope.addSibling address.siblingPath (Scope.occurrenceLimit node)])
    (hfirst : Throughout P [Scope.addFirst address.siblingPath]) :
    Throughout P (scope.repeated address node rows) := by
  refine throughout_append.mpr ⟨?_, throughout_editing ?_⟩
  · refine throughout_cons.mpr ⟨hguard _, ?_, throughout_nil⟩
    exact throughout_cons.mpr ⟨hitems, hrows, throughout_editing hsibling⟩
  · split
    · exact throughout_nil
    · exact hfirst

/-- What is guarded is guarded by the element above or by itself. -/
theorem throughout_guarded
    (hguard : ∀ target, address.parent? = some target ∨ target = address →
      P (.guard .present target nodes)) (hnodes : Throughout P nodes) :
    Throughout P (scope.guarded address nodes) := by
  unfold Scope.guarded
  split
  · exact hnodes
  · rename_i parent hparent
    refine throughout_cons.mpr ⟨hguard _ ?_, hnodes, throughout_nil⟩
    split
    · exact Or.inl hparent
    · exact Or.inr rfl

variable (hcontrols : ∀ control, scope.ControlAt address control → Throughout P [control])

include hcontrols

theorem throughout_of_controlAt (h : ∀ control ∈ controls, scope.ControlAt address control) :
    Throughout P controls := by
  induction controls with
  | nil => exact throughout_nil
  | cons control others ih =>
    obtain ⟨hfirst, hothers⟩ := List.forall_mem_cons.mp h
    exact throughout_append.mpr ⟨hcontrols control hfirst, ih hothers⟩

theorem throughout_scalarField {type : TypeId} {role : FieldRole}
    (hfield : P (scope.scalarField address node type role)) :
    Throughout P [scope.scalarField address node type role] :=
  throughout_cons.mpr ⟨hfield, throughout_of_controlAt hcontrols fun _ hcontrol =>
    controlAt_fieldControls (editing_subset _ _ hcontrol), throughout_nil⟩

theorem throughout_anyField {var : Option String} (hfield : P (scope.anyField address node var)) :
    Throughout P [scope.anyField address node var] :=
  throughout_cons.mpr ⟨hfield, throughout_of_controlAt hcontrols fun _ hcontrol =>
    controlAt_rowControls (editing_subset _ _ hcontrol), throughout_nil⟩

theorem throughout_header {var : Option String} (hheader : P (scope.header address node var)) :
    Throughout P [scope.header address node var] :=
  throughout_cons.mpr ⟨hheader, throughout_of_controlAt hcontrols fun _ hcontrol =>
    controlAt_headerControls (editing_subset _ _ hcontrol), throughout_nil⟩

/-- Apart from the controls, an element adds its header and groups to what it holds. -/
theorem throughout_elementGroup {row : Option Row}
    (hheader : P (scope.header address node (row.map Row.var)))
    (hgroup : ∀ kind inner, P (.group kind inner)) (hnodes : Throughout P nodes) :
    Throughout P [scope.elementGroup address node row nodes] := by
  have htop := throughout_header hcontrols hheader
  unfold Scope.elementGroup
  split
  · refine throughout_cons.mpr ⟨hgroup _ _, ?_, throughout_nil⟩
    exact throughout_append.mpr ⟨htop, hnodes⟩
  · refine throughout_cons.mpr ⟨hgroup _ _, ?_, throughout_nil⟩
    refine throughout_append.mpr ⟨htop, ?_⟩
    exact throughout_cons.mpr ⟨hgroup _ _, hnodes, throughout_nil⟩

end Throughout

end SchemaForms.Compile
