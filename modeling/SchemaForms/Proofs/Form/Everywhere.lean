import SchemaForms.Form.Basic
import Mathlib.Tactic.Common

/-!
What holds of every node of a form. A property holds everywhere in a node when it holds of the node
and everywhere below it.
-/

namespace SchemaForms.FormNode

def children : FormNode → List FormNode
  | group _ children => children
  | header _ controls => controls
  | field _ _ _ _ controls => controls
  | row _ _ children => children
  | affordance .. => []
  | choicePrompt .. => []
  | toggle _ children => children
  | recursive _ => []

/-- The address that a node of a form is about, if it is about one. -/
def address? : FormNode → Option Address
  | field address .. => some address
  | row _ address _ => some address
  | affordance _ target .. => some target
  | choicePrompt target .. => some target
  | recursive address => some address
  | _ => none

def Everywhere (P : FormNode → Prop) (nodes : List FormNode) : Prop :=
  ∀ node ∈ walkAll nodes, P node

variable {P : FormNode → Prop} {left right : List FormNode} {node : FormNode}

theorem walk_eq : node.walk = node :: walkAll node.children := by
  cases node <;> simp [walk, children, walkAll]

theorem walkAll_append : walkAll (left ++ right) = walkAll left ++ walkAll right := by
  induction left with
  | nil => rfl
  | cons node others ih => simp [walkAll, ih]

@[simp] theorem everywhere_nil : Everywhere P [] := by
  simp [Everywhere, walkAll]

@[simp] theorem everywhere_append :
    Everywhere P (left ++ right) ↔ Everywhere P left ∧ Everywhere P right := by
  simp only [Everywhere, walkAll_append, List.mem_append, or_imp, forall_and]

@[simp] theorem everywhere_singleton :
    Everywhere P [node] ↔ P node ∧ Everywhere P node.children := by
  simp [Everywhere, walkAll, walk_eq]

theorem everywhere_map {α : Type} {make : α → FormNode} {as : List α}
    (h : ∀ a ∈ as, P (make a) ∧ Everywhere P (make a).children) : Everywhere P (as.map make) := by
  induction as with
  | nil => exact everywhere_nil
  | cons a others ih =>
    change Everywhere P ([make a] ++ others.map make)
    rw [everywhere_append, everywhere_singleton]
    exact ⟨h a List.mem_cons_self, ih fun b hb => h b (List.mem_cons_of_mem _ hb)⟩

end SchemaForms.FormNode
