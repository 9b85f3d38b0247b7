import SchemaForms.Form.Bind
import SchemaForms.Proofs.Template.Scoping

/-!
Forms read off a template with the variables passed downwards. Filling threads one map of variables
through the whole template and forgets a variable after its iteration. Where variables are in scope
this comes to the same as giving every node the positions of the iterations around it: no iteration
disturbs a variable that is still needed.
-/

namespace SchemaForms

namespace Bindings

/-- Both maps give the bound variables the same positions. -/
def Agree (bound : List String) (left right : Bindings) : Prop :=
  ∀ var ∈ bound, left.lookup var = right.lookup var

theorem Agree.insert {bound : List String} {left right : Bindings} (h : Agree bound left right)
    (name : String) (position : Nat) :
    Agree (bound ++ [name]) (left.insert name position) (right.insert name position) := by
  intro var hvar
  rw [lookup_insert, lookup_insert]
  split
  · rfl
  · rename_i hne
    rcases List.mem_append.mp hvar with hold | hnew
    · exact h var hold
    · exact absurd (List.mem_singleton.mp hnew) hne

/-- A variable that gets the position it has in the other map. -/
theorem Agree.insert_of_lookup {bound : List String} {left right : Bindings}
    (h : Agree bound left right) {name : String} {position : Nat}
    (hname : right.lookup name = some position) :
    Agree (bound ++ [name]) (left.insert name position) right := by
  intro var hvar
  rw [lookup_insert]
  split
  · rename_i heq
    rw [heq, hname]
  · rename_i hne
    rcases List.mem_append.mp hvar with hold | hnew
    · exact h var hold
    · exact absurd (List.mem_singleton.mp hnew) hne

/-- Outside the rows of an iteration its variable does not matter. -/
theorem Agree.of_insert {bound : List String} {left right : Bindings} {name : String}
    {position : Nat} (hname : name ∉ bound)
    (h : Agree (bound ++ [name]) left (right.insert name position)) : Agree bound left right := by
  intro var hvar
  have hne : var ≠ name := fun heq => hname (heq ▸ hvar)
  rw [h var (List.mem_append_left _ hvar), lookup_insert, if_neg hne]

theorem Agree.erase {bound : List String} {left right : Bindings} {name : String}
    (hname : name ∉ bound) (h : Agree bound left right) : Agree bound (left.erase name) right := by
  intro var hvar
  have hne : var ≠ name := fun heq => hname (heq ▸ hvar)
  rw [lookup_erase, if_neg hne, h var hvar]

end Bindings

namespace TemplateNode

open Bindings

mutual

/-- The nodes of the form, with the positions of the iterations around a node. -/
def fill (record : Instance) (bindings : Bindings) : TemplateNode → List FormNode
  | group kind children => [.group kind (fillAll record bindings children)]
  | header label controls => [.header (label.caption bindings) (fillAll record bindings controls)]
  | field address input label _ controls =>
    [.field (address.substitute bindings) input (label.caption bindings)
      (record.value? (address.substitute bindings)) (fillAll record bindings controls)]
  | guard test target children =>
    if record.holds test (target.substitute bindings) then fillAll record bindings children else []
  | iteration siblings var item children =>
    (List.range' 1 (record.count (siblings.substitute bindings))).map fun number =>
      .row number (item.substitute (bindings.insert var number))
        (fillAll record (bindings.insert var number) children)
  | affordance kind target label candidates =>
    [.affordance kind (target.substitute bindings) label candidates]
  | choicePrompt target isRequired candidates =>
    [.choicePrompt (target.substitute bindings) (choiceLabel isRequired) candidates]
  | toggle label children => [.toggle label (fillAll record bindings children)]
  | recursive address => [.recursive (address.substitute bindings)]

def fillAll (record : Instance) (bindings : Bindings) : List TemplateNode → List FormNode
  | [] => []
  | node :: others => fill record bindings node ++ fillAll record bindings others

end

theorem fillAll_append (record : Instance) (bindings : Bindings) (left right : List TemplateNode) :
    fillAll record bindings (left ++ right) =
      fillAll record bindings left ++ fillAll record bindings right := by
  induction left with
  | nil => rfl
  | cons node others ih => simp [fillAll, ih]

@[simp] theorem fillAll_singleton (record : Instance) (bindings : Bindings) (node : TemplateNode) :
    fillAll record bindings [node] = fill record bindings node :=
  List.append_nil _

/-- A step of filling that makes what is expected and leaves the bound variables as they are. -/
def Fills {α : Type} (bound : List String) (bindings : Bindings) (step : Binding α)
    (expected : α) : Prop :=
  ∀ state, Agree bound state bindings →
    (step.run state).1 = expected ∧ Agree bound (step.run state).2 bindings

section Fills

variable {bound : List String} {bindings : Bindings} {record : Instance}

theorem fills_pure {α : Type} (a : α) : Fills bound bindings (pure a) a :=
  fun _ hagree => ⟨rfl, hagree⟩

theorem fills_bind {α β : Type} {step : Binding α} {next : α → Binding β} {first : α} {last : β}
    (hstep : Fills bound bindings step first) (hnext : Fills bound bindings (next first) last) :
    Fills bound bindings (step >>= next) last := by
  intro state hagree
  obtain ⟨hvalue, hafter⟩ := hstep state hagree
  have hrest := hnext _ hafter
  rw [← hvalue] at hrest
  exact hrest

/-- A step that looks at the map is judged by what it does with maps that agree. -/
theorem fills_get {α : Type} {next : Bindings → Binding α} {expected : α}
    (h : ∀ state, Agree bound state bindings → Fills bound bindings (next state) expected) :
    Fills bound bindings (get >>= next) expected :=
  fun state hagree => h state hagree state hagree

theorem substitute_eq_of_agree {address : Address} (hscoped : address.vars ⊆ bound)
    {state : Bindings} (hagree : Agree bound state bindings) :
    address.substitute state = address.substitute bindings :=
  Address.substitute_congr address state bindings fun var hvar => hagree var (hscoped hvar)

theorem caption_eq_of_agree {label : Label} (hscoped : label.Scoped bound) {state : Bindings}
    (hagree : Agree bound state bindings) : label.caption state = label.caption bindings := by
  unfold Label.caption
  cases hvar : label.var with
  | none => rfl
  | some var => simp only [Option.bind_some, hagree var (hscoped var hvar)]

theorem fills_rows {item : Address} {var : String} {children : List TemplateNode}
    (hname : var ∉ bound) (hitem : item.vars ⊆ bound ++ [var])
    (hchildren : ∀ inner, Fills (bound ++ [var]) inner (bindAll record children)
      (fillAll record inner children)) (numbers : List Nat) :
    Fills bound bindings (numbers.mapM (bindRow var item (bindAll record children)))
      (numbers.map fun number => .row number (item.substitute (bindings.insert var number))
        (fillAll record (bindings.insert var number) children)) := by
  induction numbers with
  | nil => exact fills_pure _
  | cons number others ih =>
    rw [List.mapM_cons]
    refine fills_bind ?_ (fills_bind ih (fills_pure _))
    intro state hagree
    have hinner := hagree.insert var number
    obtain ⟨hvalue, hafter⟩ := hchildren _ _ hinner
    refine ⟨?_, Agree.of_insert hname hafter⟩
    have hrun : ((bindRow var item (bindAll record children) number).run state).1 =
        .row number (item.substitute (state.insert var number))
          ((bindAll record children).run (state.insert var number)).1 := rfl
    rw [hrun, hvalue, substitute_eq_of_agree hitem hinner]

end Fills

mutual

theorem fills_bindNode (record : Instance) (node : TemplateNode) {bound : List String}
    {bindings : Bindings} (hscoped : Scoped bound node) :
    Fills bound bindings (bind record node) (fill record bindings node) := by
  cases node with
  | group kind children =>
    exact fills_bind (fills_bindAll record children hscoped) (fills_pure _)
  | header label controls =>
    refine fills_get fun state hagree => ?_
    rw [fill, ← caption_eq_of_agree hscoped.1 hagree]
    exact fills_bind (fills_bindAll record controls hscoped.2) (fills_pure _)
  | field address input label options controls =>
    refine fills_get fun state hagree => ?_
    rw [fill, ← caption_eq_of_agree hscoped.2.1 hagree, ← substitute_eq_of_agree hscoped.1 hagree]
    exact fills_bind (fills_bindAll record controls hscoped.2.2) (fills_pure _)
  | guard test target children =>
    refine fills_get fun state hagree => ?_
    rw [fill, ← substitute_eq_of_agree hscoped.1 hagree]
    split
    · exact fills_bindAll record children hscoped.2
    · exact fills_pure _
  | iteration siblings var item children =>
    obtain ⟨hsiblings, hname, -, hitem, hchildren⟩ := hscoped
    refine fills_get fun state hagree => ?_
    rw [fill, ← substitute_eq_of_agree hsiblings hagree]
    refine fills_bind (fills_rows hname hitem
      (fun inner => fills_bindAll record children hchildren) _) ?_
    exact fun after hafter => ⟨rfl, hafter.erase hname⟩
  | affordance kind target label candidates =>
    refine fills_get fun state hagree => ?_
    rw [fill, ← substitute_eq_of_agree hscoped hagree]
    exact fills_pure _
  | choicePrompt target isRequired candidates =>
    refine fills_get fun state hagree => ?_
    rw [fill, ← substitute_eq_of_agree hscoped hagree]
    exact fills_pure _
  | toggle label children =>
    exact fills_bind (fills_bindAll record children hscoped) (fills_pure _)
  | recursive address =>
    refine fills_get fun state hagree => ?_
    rw [fill, ← substitute_eq_of_agree hscoped hagree]
    exact fills_pure _

/-- In scope, the map that is threaded through the template gives what the positions of the
iterations around each node give. -/
theorem fills_bindAll (record : Instance) (nodes : List TemplateNode) {bound : List String}
    {bindings : Bindings} (hscoped : ScopedAll bound nodes) :
    Fills bound bindings (bindAll record nodes) (fillAll record bindings nodes) := by
  cases nodes with
  | nil => exact fills_pure _
  | cons node others =>
    exact fills_bind (fills_bindNode record node hscoped.1)
      (fills_bind (fills_bindAll record others hscoped.2) (fills_pure _))

end

end TemplateNode

/-- The address of a row, whatever the other variables stand for, is its place among siblings. -/
theorem Compile.substitute_itemAddress {address : Address} {nodes : List TemplateNode}
    {bound : List String}
    (hscoped : TemplateNode.Scoped bound (Compile.itemIteration address nodes))
    (bindings : Bindings) (number : Nat) :
    (itemAddress address).substitute (bindings.insert (itemVariable address) number) =
      (address.siblingPath.substitute bindings).withIndex (.position number) := by
  obtain ⟨hsiblings, hfresh, -⟩ := hscoped
  have hkept : address.siblingPath.substitute (bindings.insert (itemVariable address) number) =
      address.siblingPath.substitute bindings := by
    apply Address.substitute_congr
    intro var hvar
    have hother : var ≠ itemVariable address := fun heq => hfresh (heq ▸ hsiblings hvar)
    rw [Bindings.lookup_insert, if_neg hother]
  rw [itemAddress, Address.substitute_withIndex, hkept]
  simp [Index.substitute, Bindings.lookup_insert]

/-- A form in scope is the template filled from no positions. -/
theorem Template.bind_eq_ok {template : Template} {record : Instance} {form : Form}
    (hscoped : TemplateNode.ScopedAll [] template.nodes) (h : template.bind record = .ok form) :
    template.matchesRoot record = true ∧
      form.nodes = TemplateNode.fillAll record [] template.nodes := by
  unfold bind at h
  split at h
  · rename_i hroot
    obtain rfl := Except.ok.inj h
    exact ⟨hroot, (TemplateNode.fills_bindAll record template.nodes hscoped [] (by simp
      [Bindings.Agree])).1⟩
  · contradiction

end SchemaForms
