import SchemaForms.Form.Bind
import SchemaForms.Proofs.Form.Everywhere
import SchemaForms.Proofs.Template.Throughout

/-!
What filling makes of a template, whatever the variables stand for. Each node of a form comes from a
node of the template, with the variables of its address replaced; guards and iterations only decide
which nodes come into being. So what a node of the template says about all that it may become is
said of the whole form, and under a guard it need only be said for the variables that let it pass.
-/

namespace SchemaForms

/-- What a step of filling makes has the property, whatever the variables stand for. -/
def Binding.Makes {α : Type} (P : α → Prop) (step : Binding α) : Prop :=
  ∀ state, P (step.run state).1

namespace Binding

variable {α β : Type} {P : α → Prop} {Q : β → Prop}

theorem makes_pure {a : α} (h : P a) : Makes P (pure a) :=
  fun _ => h

theorem makes_bind {step : Binding α} {next : α → Binding β} (hstep : step.Makes P)
    (hnext : ∀ a, P a → (next a).Makes Q) : Makes Q (step >>= next) :=
  fun state => hnext _ (hstep state) _

theorem makes_trivial (step : Binding α) : step.Makes fun _ => True :=
  fun _ => trivial

theorem makes_mapM {γ : Type} {each : γ → Binding α} (h : ∀ c, (each c).Makes P) (cs : List γ) :
    Makes (fun made => ∀ a ∈ made, P a) (cs.mapM each) := by
  induction cs with
  | nil => exact makes_pure (by simp)
  | cons c others ih =>
    rw [List.mapM_cons]
    refine makes_bind (h c) fun first hfirst => makes_bind ih fun rest hrest => makes_pure ?_
    exact List.forall_mem_cons.mpr ⟨hfirst, hrest⟩

end Binding

namespace TemplateNode

open Binding FormNode

/-- What a node of a template becomes, apart from what is in it. Of a guard nothing is left. -/
inductive Becomes : TemplateNode → FormNode → Prop
  | group {kind children made} : Becomes (group kind children) (.group kind made)
  | header {label controls caption made} : Becomes (header label controls) (.header caption made)
  | field {address input label options controls caption value made} (bindings : Bindings) :
    Becomes (field address input label options controls)
      (.field (address.substitute bindings) input caption value made)
  | row {siblings var item children number made} (bindings : Bindings) :
    Becomes (iteration siblings var item children) (.row number (item.substitute bindings) made)
  | affordance {kind target label candidates} (bindings : Bindings) :
    Becomes (affordance kind target label candidates)
      (.affordance kind (target.substitute bindings) label candidates)
  | choicePrompt {target isRequired candidates caption} (bindings : Bindings) :
    Becomes (choicePrompt target isRequired candidates)
      (.choicePrompt (target.substitute bindings) caption candidates)
  | toggle {label children made} : Becomes (toggle label children) (.toggle label made)
  | recursive {address} (bindings : Bindings) :
    Becomes (recursive address) (.recursive (address.substitute bindings))

/-- Whatever the variables stand for, everything that the nodes are filled with has the property. -/
def Gives (P : FormNode → Prop) (record : Instance) (nodes : List TemplateNode) : Prop :=
  (bindAll record nodes).Makes (Everywhere P)

variable {P : FormNode → Prop} {record : Instance} {nodes : List TemplateNode}

theorem gives_nil : Gives P record [] :=
  makes_pure everywhere_nil

theorem gives_cons {node : TemplateNode} (hnode : (bind record node).Makes (Everywhere P))
    (hnodes : Gives P record nodes) : Gives P record (node :: nodes) := by
  refine makes_bind hnode fun first hfirst => makes_bind hnodes fun rest hrest => makes_pure ?_
  exact everywhere_append.mpr ⟨hfirst, hrest⟩

theorem bindAll_append (record : Instance) (left right : List TemplateNode) :
    bindAll record (left ++ right) = do
      let first ← bindAll record left
      return first ++ (← bindAll record right) := by
  induction left with
  | nil => simp [bindAll]
  | cons node others ih =>
    simp only [List.cons_append, bindAll, ih, bind_assoc, pure_bind, List.append_assoc]

theorem gives_append {left right : List TemplateNode} (hleft : Gives P record left)
    (hright : Gives P record right) : Gives P record (left ++ right) := by
  rw [Gives, bindAll_append]
  refine makes_bind hleft fun first hfirst => makes_bind hright fun rest hrest => makes_pure ?_
  exact everywhere_append.mpr ⟨hfirst, hrest⟩

theorem gives_of_forall_mem (h : ∀ node ∈ nodes, Gives P record [node]) :
    Gives P record nodes := by
  induction nodes with
  | nil => exact gives_nil
  | cons node others ih =>
    obtain ⟨hnode, hothers⟩ := List.forall_mem_cons.mp h
    exact gives_append hnode (ih hothers)

theorem makes_bindRow {var : String} {item : Address}
    (hrow : ∀ number bindings made, P (.row number (item.substitute bindings) made))
    (hnodes : Gives P record nodes) (number : Nat) :
    (bindRow var item (bindAll record nodes) number).Makes fun row =>
      P row ∧ Everywhere P row.children := by
  refine makes_bind (makes_trivial _) fun _ _ => makes_bind (makes_trivial _) fun _ _ => ?_
  exact makes_bind hnodes fun made hmade => makes_pure ⟨hrow _ _ made, hmade⟩

/-- A node makes what has the property when all that it becomes has it, and all that is in it. -/
theorem makes_of_becomes {node : TemplateNode} (hnode : ∀ made, node.Becomes made → P made)
    (hcontents : Gives P record node.contents) : (bind record node).Makes (Everywhere P) := by
  have hone : ∀ made, node.Becomes made → Everywhere P made.children → Everywhere P [made] :=
    fun made hmade hchildren => everywhere_singleton.mpr ⟨hnode made hmade, hchildren⟩
  cases node with
  | group kind children =>
    exact makes_bind hcontents fun made hmade => makes_pure (hone _ .group hmade)
  | header label controls =>
    refine makes_bind (makes_trivial _) fun bindings _ => ?_
    exact makes_bind hcontents fun made hmade => makes_pure (hone _ .header hmade)
  | field address input label options controls =>
    refine makes_bind (makes_trivial _) fun bindings _ => ?_
    exact makes_bind hcontents fun made hmade => makes_pure (hone _ (.field bindings) hmade)
  | guard test target children =>
    refine makes_bind (makes_trivial _) fun bindings _ => ?_
    split
    · exact hcontents
    · exact makes_pure everywhere_nil
  | iteration siblings var item children =>
    refine makes_bind (makes_trivial _) fun bindings _ => ?_
    have hrow : ∀ number, (bindRow var item (bindAll record children) number).Makes fun row =>
        P row ∧ Everywhere P row.children :=
      makes_bindRow (fun _ bindings _ => hnode _ (.row bindings)) hcontents
    refine makes_bind (makes_mapM hrow _) fun rows hrows => ?_
    refine makes_bind (makes_trivial _) fun _ _ => makes_pure ?_
    rw [← List.map_id rows]
    exact everywhere_map hrows
  | affordance kind target label candidates =>
    refine makes_bind (makes_trivial _) fun bindings _ => ?_
    exact makes_pure (hone _ (.affordance bindings) everywhere_nil)
  | choicePrompt target isRequired candidates =>
    refine makes_bind (makes_trivial _) fun bindings _ => ?_
    exact makes_pure (hone _ (.choicePrompt bindings) everywhere_nil)
  | toggle label children =>
    exact makes_bind hcontents fun made hmade => makes_pure (hone _ .toggle hmade)
  | recursive address =>
    refine makes_bind (makes_trivial _) fun bindings _ => ?_
    exact makes_pure (hone _ (.recursive bindings) everywhere_nil)

theorem gives_node {node : TemplateNode} (hnode : ∀ made, node.Becomes made → P made)
    (hcontents : Gives P record node.contents) : Gives P record [node] :=
  gives_cons (makes_of_becomes hnode hcontents) gives_nil

/-- Under a guard only the variables count that let it pass. -/
theorem gives_guard {test : GuardTest} {target : Address}
    (h : ∀ bindings, record.holds test (target.substitute bindings) = true →
      Everywhere P ((bindAll record nodes).run bindings).1) :
    Gives P record [.guard test target nodes] := by
  refine gives_cons (fun bindings => ?_) gives_nil
  change Everywhere P ((if record.holds test (target.substitute bindings) then bindAll record nodes
    else pure [] : Binding (List FormNode)).run bindings).1
  split
  · rename_i hholds
    exact h bindings hholds
  · exact everywhere_nil

mutual

theorem makes_of_throughout {T : TemplateNode → Prop}
    (hT : ∀ node made, T node → node.Becomes made → P made) (record : Instance)
    (node : TemplateNode) (hnode : T node) (hcontents : Throughout T node.contents) :
    (bind record node).Makes (Everywhere P) := by
  refine makes_of_becomes (fun made => hT node made hnode) ?_
  cases node with
  | group kind children => exact gives_of_throughout hT record children hcontents
  | header label controls => exact gives_of_throughout hT record controls hcontents
  | field address input label options controls =>
    exact gives_of_throughout hT record controls hcontents
  | guard test target children => exact gives_of_throughout hT record children hcontents
  | iteration siblings var item children =>
    exact gives_of_throughout hT record children hcontents
  | affordance => exact gives_nil
  | choicePrompt => exact gives_nil
  | toggle label children => exact gives_of_throughout hT record children hcontents
  | recursive => exact gives_nil

/-- What every node of a template says about all that it may become is said of the form. -/
theorem gives_of_throughout {T : TemplateNode → Prop}
    (hT : ∀ node made, T node → node.Becomes made → P made) (record : Instance)
    (nodes : List TemplateNode) (h : Throughout T nodes) : Gives P record nodes := by
  cases nodes with
  | nil => exact gives_nil
  | cons node others =>
    obtain ⟨hnode, hcontents, hothers⟩ := throughout_cons.mp h
    exact gives_cons (makes_of_throughout hT record node hnode hcontents)
      (gives_of_throughout hT record others hothers)

end

end TemplateNode

/-- A form has what all fillings of its template have. -/
theorem Template.everywhere_of_gives {template : Template} {record : Instance} {form : Form}
    {P : FormNode → Prop} (h : TemplateNode.Gives P record template.nodes)
    (hbind : template.bind record = .ok form) : ∀ node ∈ form.walk, P node := by
  unfold Template.bind at hbind
  split at hbind
  · obtain rfl := Except.ok.inj hbind
    exact h []
  · contradiction

end SchemaForms
