import SchemaForms.Template.Basic
import Mathlib.Tactic.Common

/-!
What holds of every node of a template. A property holds throughout a tree when it holds of the node
at the top and throughout what is below it.
-/

namespace SchemaForms.TemplateNode

def contents : TemplateNode → List TemplateNode
  | group _ children => children
  | header _ controls => controls
  | field _ _ _ _ controls => controls
  | guard _ _ children => children
  | iteration _ _ _ children => children
  | affordance .. => []
  | choicePrompt .. => []
  | toggle _ children => children
  | recursive _ => []

def Throughout (P : TemplateNode → Prop) (nodes : List TemplateNode) : Prop :=
  ∀ node ∈ walkAll nodes, P node

variable {P : TemplateNode → Prop} {left right : List TemplateNode} {node : TemplateNode}

theorem walk_eq_cons : node.walk = node :: walkAll node.contents := by
  cases node <;> simp [walk, contents, walkAll]

theorem walkAll_append : walkAll (left ++ right) = walkAll left ++ walkAll right := by
  induction left with
  | nil => rfl
  | cons node others ih => simp [walkAll, ih]

@[simp] theorem throughout_nil : Throughout P [] := by
  simp [Throughout, walkAll]

@[simp] theorem throughout_append :
    Throughout P (left ++ right) ↔ Throughout P left ∧ Throughout P right := by
  simp only [Throughout, walkAll_append, List.mem_append, or_imp, forall_and]

@[simp] theorem throughout_cons :
    Throughout P (node :: left) ↔ P node ∧ Throughout P node.contents ∧ Throughout P left := by
  simp only [Throughout, walkAll, walk_eq_cons, List.mem_append, List.mem_cons, or_imp, forall_and,
    forall_eq, and_assoc]

end SchemaForms.TemplateNode
