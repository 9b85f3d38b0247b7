import SchemaForms.Proofs.Compile.Modes
import SchemaForms.Proofs.Form.Making

/-!
Forms that only show. Every control of a template is made for editing, so a template for display
has none, and all that its guards ask is what is present. Filling makes no control of its own: each
node of a form comes from a node of the template, whatever the variables stand for.
-/

namespace SchemaForms

/-- Fields that show a value and take none. -/
def InputKind.IsShown (input : InputKind) : Prop := input = .display ∨ input = .escapedMarkup

def TemplateNode.ReadOnly : TemplateNode → Prop
  | .field _ input _ _ _ => input.IsShown
  | .guard test _ _ => test = .present
  | .affordance .. => False
  | .choicePrompt .. => False
  | .toggle .. => False
  | _ => True

def FormNode.ReadOnly : FormNode → Prop
  | .field _ input _ _ _ => input.IsShown
  | .affordance .. => False
  | .choicePrompt .. => False
  | .toggle .. => False
  | _ => True

namespace TemplateNode

/-- What only shows becomes something that only shows. -/
theorem Becomes.readOnly {node : TemplateNode} {made : FormNode} (h : node.Becomes made)
    (hnode : node.ReadOnly) : made.ReadOnly := by
  cases h with
  | field => exact hnode
  | affordance => exact hnode
  | choicePrompt => exact hnode
  | toggle => exact hnode
  | _ => trivial

theorem readOnly_bindAll (record : Instance) (nodes : List TemplateNode)
    (h : Throughout ReadOnly nodes) :
    (bindAll record nodes).Makes (FormNode.Everywhere FormNode.ReadOnly) :=
  gives_of_throughout (fun _ _ hnode hmade => hmade.readOnly hnode) record nodes h

end TemplateNode

namespace Compile

open TemplateNode

variable {scope : Scope} (hdisplay : scope.mode = .display)

include hdisplay

theorem readOnly_scalarField (address : Address) (node : SchemaNode) (type : TypeId)
    (role : FieldRole) : Throughout ReadOnly [scope.scalarField address node type role] := by
  have hinput : scope.inputKind node type = .display := by
    simp [Scope.inputKind, Scope.isEdit, hdisplay]
  refine throughout_cons.mpr ⟨Or.inl hinput, ?_, throughout_nil⟩
  rw [Scope.scalarField, contents, Scope.editing_display hdisplay]
  exact throughout_nil

theorem readOnly_anyField (address : Address) (node : SchemaNode) (var : Option String) :
    Throughout ReadOnly [scope.anyField address node var] := by
  rw [Scope.anyField, Scope.editing_display hdisplay]
  refine throughout_cons.mpr ⟨Or.inr ?_, throughout_nil, throughout_nil⟩
  simp [Scope.isEdit, hdisplay]

theorem readOnly_elementGroup (address : Address) (node : SchemaNode) (row : Option Row)
    {nodes : List TemplateNode} (h : Throughout ReadOnly nodes) :
    Throughout ReadOnly [scope.elementGroup address node row nodes] := by
  have hheader : Throughout ReadOnly [scope.header address node (row.map Row.var)] := by
    rw [Scope.header, Scope.editing_display hdisplay]
    exact throughout_cons.mpr ⟨trivial, throughout_nil, throughout_nil⟩
  unfold Scope.elementGroup
  split
  · refine throughout_cons.mpr ⟨trivial, ?_, throughout_nil⟩
    exact throughout_append.mpr ⟨hheader, h⟩
  · refine throughout_cons.mpr ⟨trivial, ?_, throughout_nil⟩
    refine throughout_append.mpr ⟨hheader, ?_⟩
    exact throughout_cons.mpr ⟨trivial, h, throughout_nil⟩

/-- Everything that is rendered for display only shows. -/
theorem readOnly_of_renders {task : Task} {nodes : List TemplateNode}
    (h : Renders scope task nodes) : Throughout ReadOnly nodes := by
  induction h with
  | recursive => exact throughout_cons.mpr ⟨trivial, throughout_nil, throughout_nil⟩
  | scalar hnode hexpanded => exact readOnly_scalarField hdisplay _ _ _ _
  | anything hnode hexpanded => exact readOnly_anyField hdisplay _ _ _
  | element hnode hexpanded hcontent ih => exact readOnly_elementGroup hdisplay _ _ _ ih
  | textOnly hnode hexpanded htext ih => exact ih
  | restricted => exact throughout_nil
  | value hnode hcontent ih =>
    refine throughout_cons.mpr ⟨trivial, throughout_append.mpr ⟨?_, ih⟩, throughout_nil⟩
    exact readOnly_scalarField hdisplay _ _ _ _
  | extended htext hcontent ihtext ihcontent =>
    exact throughout_cons.mpr ⟨trivial, throughout_append.mpr ⟨ihtext, ihcontent⟩, throughout_nil⟩
  | nothing => exact throughout_nil
  | append hleft hright ihleft ihright => exact throughout_append.mpr ⟨ihleft, ihright⟩
  | ownText htext ih => exact ih
  | compositor hcontent ih => exact throughout_cons.mpr ⟨trivial, ih, throughout_nil⟩
  | attributeUse hshown ih => exact ih
  | child hshown ih => exact ih
  | alternative hnode ih => exact throughout_cons.mpr ⟨rfl, ih, throughout_nil⟩
  | choices hbranches ih => exact ih
  | singlePrompt => simp [Scope.editing_display hdisplay]
  | repeatedPrompt => simp [Scope.editing_display hdisplay]
  | noBranch => exact throughout_nil
  | branch hnode hname hitem ih =>
    refine throughout_cons.mpr ⟨rfl, ?_, throughout_nil⟩
    exact throughout_cons.mpr ⟨trivial, ih, throughout_nil⟩
  | moreBranches hleft hright ihleft ihright => exact throughout_append.mpr ⟨ihleft, ihright⟩
  | single hclassified hhead hrepeating hoccurrence ih => exact ih
  | repeating hnode hrecursive hplain hrepeating hitem ih =>
    simp only [Scope.repeated, Scope.editing_display hdisplay, List.append_nil]
    refine throughout_cons.mpr ⟨rfl, ?_, throughout_nil⟩
    exact throughout_cons.mpr ⟨trivial, ih, throughout_nil⟩
  | head hnode hrecursive hhead hparent hmembers ih =>
    simpa [Scope.editing_display hdisplay] using ih
  | hidden => exact throughout_nil
  | shown hnode ih =>
    unfold Scope.guarded
    split
    · exact ih
    · exact throughout_cons.mpr ⟨rfl, ih, throughout_nil⟩

end Compile

/-- A template for display has no controls, and so have the forms that are filled from it. -/
theorem display_read_only {index : SchemaIndex} {address : Address} {compilation : Compilation}
    (hcompile : index.compile .display address = .ok compilation) :
    (∀ node ∈ compilation.template.walk, node.ReadOnly) ∧
      ∀ record form, compilation.template.bind record = .ok form →
        ∀ node ∈ form.walk, node.ReadOnly := by
  obtain ⟨-, -, hrenders, -⟩ := SchemaIndex.renders_of_compile hcompile
  have htemplate := Compile.readOnly_of_renders rfl hrenders
  refine ⟨htemplate, fun record form hbind => ?_⟩
  unfold Template.bind at hbind
  split at hbind
  · obtain rfl := Except.ok.inj hbind
    exact TemplateNode.readOnly_bindAll record _ htemplate []
  · contradiction

theorem display_read_only_openChoice :
    ∃ compilation, openChoiceIndex.compile .display (.root (.unprefixed "r")) = .ok compilation ∧
      (∀ node ∈ compilation.template.walk, node.ReadOnly) ∧
      ∀ record form, compilation.template.bind record = .ok form →
        ∀ node ∈ form.walk, node.ReadOnly := by
  have hcompile : openChoiceIndex.compile .display (.root (.unprefixed "r")) = .ok _ :=
    SchemaIndex.compile_of_ended (by decide) (by decide)
  exact ⟨_, hcompile, display_read_only hcompile⟩

end SchemaForms
