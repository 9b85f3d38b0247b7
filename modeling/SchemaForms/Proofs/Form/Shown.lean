import SchemaForms.Proofs.Form.Everywhere
import SchemaForms.Proofs.Form.Filling
import SchemaForms.Proofs.Template.Skeleton

/-!
What forms show of a record. Fields, rows and recursive nodes show something; groups, headers and
controls only surround it. A property of what is shown therefore holds everywhere in a part of a
form when it holds of the places that the part is about, and there is one rule for each part that a
template is put together from.
-/

namespace SchemaForms

namespace FormNode

/-- The address of which a field, a row or a recursive node shows what the record has. -/
def shown? : FormNode → Option Address
  | field address .. => some address
  | row _ address _ => some address
  | recursive address => some address
  | _ => none

/-- The property is about what is shown: a node that shows nothing has it. -/
def AboutShown (P : FormNode → Prop) : Prop := ∀ node, node.shown? = none → P node

/-- Whatever shows the address has the property. -/
def HoldsAt (P : FormNode → Prop) (address : Address) : Prop :=
  ∀ node, node.shown? = some address → P node

end FormNode

@[simp] theorem Instance.holds_present {record : Instance} {target : Address} :
    record.holds .present target = true ↔ 0 < record.count target := by
  simp [holds]

namespace TemplateNode

open FormNode

variable {P : FormNode → Prop} {record : Instance} {bindings : Bindings}
  {nodes : List TemplateNode}

theorem everywhere_fillAll_append {left right : List TemplateNode}
    (hleft : Everywhere P (fillAll record bindings left))
    (hright : Everywhere P (fillAll record bindings right)) :
    Everywhere P (fillAll record bindings (left ++ right)) := by
  rw [fillAll_append, everywhere_append]
  exact ⟨hleft, hright⟩

/-- Under a guard it is enough to look at records that it lets pass. -/
theorem everywhere_guard {test : GuardTest} {target : Address}
    (h : record.holds test (target.substitute bindings) = true →
      Everywhere P (fillAll record bindings nodes)) :
    Everywhere P (fillAll record bindings [.guard test target nodes]) := by
  rw [fillAll_singleton, fill]
  split
  · rename_i hholds
    exact h hholds
  · exact everywhere_nil

theorem everywhere_recursive {address : Address}
    (h : P (.recursive (address.substitute bindings))) :
    Everywhere P (fillAll record bindings [.recursive address]) := by
  rw [fillAll_singleton, fill, everywhere_singleton]
  exact ⟨h, everywhere_nil⟩

/-- The rows of an iteration, each with the variable standing for its number. -/
theorem everywhere_itemIteration {address : Address} {bound : List String}
    (hscoped : Scoped bound (Compile.itemIteration address nodes))
    (hrow : ∀ number inner,
      (Compile.itemAddress address).substitute inner =
        (address.siblingPath.substitute bindings).withIndex (.position number) →
      1 ≤ number → number ≤ record.count (address.siblingPath.substitute bindings) →
      HoldsAt P ((Compile.itemAddress address).substitute inner) ∧
        Everywhere P (fillAll record inner nodes)) :
    Everywhere P (fill record bindings (Compile.itemIteration address nodes)) := by
  rw [Compile.itemIteration, fill]
  refine everywhere_map fun number hnumber => ?_
  have hbounds := List.mem_range'_1.mp hnumber
  have hitem := Compile.substitute_itemAddress hscoped bindings number
  obtain ⟨hholds, hinner⟩ := hrow number _ hitem hbounds.1 (by omega)
  exact ⟨hholds _ rfl, hinner⟩

mutual

theorem everywhere_fill_control (hP : AboutShown P) (record : Instance) (bindings : Bindings)
    (node : TemplateNode) (hmark : node.mark? = none)
    (hcontents : Throughout (fun node => node.mark? = none) node.contents) :
    Everywhere P (fill record bindings node) := by
  cases node with
  | group kind children =>
    rw [fill, everywhere_singleton]
    exact ⟨hP _ rfl, everywhere_fillAll_controls hP record bindings children hcontents⟩
  | header label controls =>
    rw [fill, everywhere_singleton]
    exact ⟨hP _ rfl, everywhere_fillAll_controls hP record bindings controls hcontents⟩
  | guard test target children =>
    have hchildren := everywhere_fillAll_controls hP record bindings children hcontents
    rw [← fillAll_singleton]
    exact everywhere_guard fun _ => hchildren
  | affordance kind target label candidates =>
    rw [fill, everywhere_singleton]
    exact ⟨hP _ rfl, everywhere_nil⟩
  | choicePrompt target isRequired candidates =>
    rw [fill, everywhere_singleton]
    exact ⟨hP _ rfl, everywhere_nil⟩
  | toggle label children =>
    rw [fill, everywhere_singleton]
    exact ⟨hP _ rfl, everywhere_fillAll_controls hP record bindings children hcontents⟩
  | field address input label options controls => contradiction
  | iteration siblings var item children => contradiction
  | recursive address => contradiction

/-- Controls hold nothing that shows something of the record. -/
theorem everywhere_fillAll_controls (hP : AboutShown P) (record : Instance) (bindings : Bindings)
    (nodes : List TemplateNode) (h : Throughout (fun node => node.mark? = none) nodes) :
    Everywhere P (fillAll record bindings nodes) := by
  cases nodes with
  | nil => exact everywhere_nil
  | cons node others =>
    obtain ⟨hmark, hcontents, hothers⟩ := throughout_cons.mp h
    rw [fillAll, everywhere_append]
    exact ⟨everywhere_fill_control hP record bindings node hmark hcontents,
      everywhere_fillAll_controls hP record bindings others hothers⟩

end

section AboutShown

variable (hP : AboutShown P)

include hP

theorem everywhere_of_skeleton (h : skeleton nodes = []) :
    Everywhere P (fillAll record bindings nodes) :=
  everywhere_fillAll_controls hP record bindings nodes (skeleton_eq_nil_iff.mp h)

theorem everywhere_group (kind : GroupKind) (h : Everywhere P (fillAll record bindings nodes)) :
    Everywhere P (fillAll record bindings [.group kind nodes]) := by
  rw [fillAll_singleton, fill, everywhere_singleton]
  exact ⟨hP _ rfl, h⟩

/-- Around the content of an element there are only headers and groups. -/
theorem everywhere_elementGroup {scope : Compile.Scope} (address : Address) (node : SchemaNode)
    (row : Option Compile.Row) (h : Everywhere P (fillAll record bindings nodes)) :
    Everywhere P (fillAll record bindings [scope.elementGroup address node row nodes]) := by
  have hheader : Everywhere P
      (fillAll record bindings [scope.header address node (row.map Compile.Row.var)]) :=
    everywhere_of_skeleton hP (Compile.skeleton_header address node _)
  unfold Compile.Scope.elementGroup
  split
  · exact everywhere_group hP _ (everywhere_fillAll_append hheader h)
  · exact everywhere_group hP _ (everywhere_fillAll_append hheader (everywhere_group hP _ h))

theorem everywhere_field {address : Address} {input : InputKind} {label : Label}
    {options : List String} {controls : List TemplateNode}
    (hshown : HoldsAt P (address.substitute bindings)) (hcontrols : skeleton controls = []) :
    Everywhere P (fillAll record bindings [.field address input label options controls]) := by
  rw [fillAll_singleton, fill, everywhere_singleton]
  exact ⟨hshown _ rfl, everywhere_of_skeleton hP hcontrols⟩

theorem everywhere_scalarField {scope : Compile.Scope} {address : Address} (node : SchemaNode)
    (type : TypeId) (role : Compile.FieldRole) (hshown : HoldsAt P (address.substitute bindings)) :
    Everywhere P (fillAll record bindings [scope.scalarField address node type role]) := by
  apply everywhere_field hP hshown
  exact Compile.skeleton_editing (Compile.skeleton_fieldControls address role)

theorem everywhere_anyField {scope : Compile.Scope} {address : Address} (node : SchemaNode)
    (var : Option String) (hshown : HoldsAt P (address.substitute bindings)) :
    Everywhere P (fillAll record bindings [scope.anyField address node var]) := by
  apply everywhere_field hP hshown
  exact Compile.skeleton_editing (Compile.skeleton_rowControls address var.isSome)

/-- A repetition is its rows, shown while there are any, with controls around them. -/
theorem everywhere_repeated {scope : Compile.Scope} {address : Address} {node : SchemaNode}
    (h : 0 < record.count (address.siblingPath.substitute bindings) →
      Everywhere P (fill record bindings (Compile.itemIteration address nodes))) :
    Everywhere P (fillAll record bindings (scope.repeated address node nodes)) := by
  refine everywhere_fillAll_append (everywhere_guard fun hholds => ?_) ?_
  · rw [fillAll, everywhere_append]
    exact ⟨h (Instance.holds_present.mp hholds),
      everywhere_of_skeleton hP (Compile.skeleton_addSibling _ _)⟩
  · exact everywhere_of_skeleton hP (Compile.skeleton_addFirst _ _)

end AboutShown

end TemplateNode

end SchemaForms
