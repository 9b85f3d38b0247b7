import SchemaForms.Proofs.Address.Variables
import SchemaForms.Proofs.Compile.Controls
import SchemaForms.Proofs.Compile.Rendering

/-!
Templates whose variables are in scope. Below an iteration its variable may be used, in addresses
and in labels, and no iteration below takes it again. Each iteration goes over the siblings of its
item. All nodes that are rendered for a place are in scope of the variables of its address, because
every iteration adds its variable to the addresses below it.
-/

namespace SchemaForms

def Label.Scoped (bound : List String) (label : Label) : Prop :=
  ∀ var, label.var = some var → var ∈ bound

namespace TemplateNode

mutual

/-- A node below iterations under the bound variables. -/
def Scoped (bound : List String) : TemplateNode → Prop
  | group _ children => ScopedAll bound children
  | header label controls => label.Scoped bound ∧ ScopedAll bound controls
  | field address _ label _ controls =>
    address.vars ⊆ bound ∧ label.Scoped bound ∧ ScopedAll bound controls
  | guard _ target children => target.vars ⊆ bound ∧ ScopedAll bound children
  | iteration siblings var item children =>
    siblings.vars ⊆ bound ∧ var ∉ bound ∧ item = siblings.withIndex (.var var) ∧
      item.vars ⊆ bound ++ [var] ∧ ScopedAll (bound ++ [var]) children
  | affordance _ target _ _ => target.vars ⊆ bound
  | choicePrompt target _ _ => target.vars ⊆ bound
  | toggle _ children => ScopedAll bound children
  | recursive address => address.vars ⊆ bound

def ScopedAll (bound : List String) : List TemplateNode → Prop
  | [] => True
  | node :: others => Scoped bound node ∧ ScopedAll bound others

end

theorem scopedAll_append {bound : List String} {left right : List TemplateNode} :
    ScopedAll bound (left ++ right) ↔ ScopedAll bound left ∧ ScopedAll bound right := by
  induction left with
  | nil => simp [ScopedAll]
  | cons node others ih => simp [ScopedAll, ih, and_assoc]

theorem scopedAll_of_forall_mem {bound : List String} {nodes : List TemplateNode}
    (h : ∀ node ∈ nodes, Scoped bound node) : ScopedAll bound nodes := by
  induction nodes with
  | nil => exact trivial
  | cons node others ih =>
    obtain ⟨hnode, hothers⟩ := List.forall_mem_cons.mp h
    exact ⟨hnode, ih hothers⟩

end TemplateNode

namespace Compile

open TemplateNode

variable {scope : Scope}

section Controls

variable (address : Address) {bound : List String} (hbound : address.vars ⊆ bound)

theorem scopedAll_editing {controls : List TemplateNode} (h : ScopedAll bound controls) :
    ScopedAll bound (scope.editing controls) := by
  unfold Scope.editing
  split
  · exact h
  · exact trivial

theorem scoped_captionOf (node : SchemaNode) {var : Option String}
    (hvar : ∀ name, var = some name → name ∈ bound) : (captionOf address node var).Scoped bound :=
  fun name hname => hvar name hname

include hbound

theorem scoped_controlAt {control : TemplateNode} (h : scope.ControlAt address control) :
    Scoped bound control := by
  cases h with
  | delete => exact hbound
  | choiceDelete => exact hbound
  | choose test => exact ⟨hbound, hbound, trivial⟩
  | remove => exact ⟨hbound, hbound, trivial⟩
  | @start singleton name hsingleton hname =>
    have hchild : (address.child name).vars ⊆ bound := by simpa using hbound
    exact ⟨hchild, hchild, trivial⟩

theorem scopedAll_editing_of_controlAt {controls : List TemplateNode}
    (h : ∀ control ∈ controls, scope.ControlAt address control) :
    ScopedAll bound (scope.editing controls) :=
  scopedAll_editing (scopedAll_of_forall_mem fun control hcontrol =>
    scoped_controlAt address hbound (h control hcontrol))

theorem scoped_scalarField (node : SchemaNode) (type : TypeId) (role : FieldRole)
    (hrole : ∀ name, role.var? = some name → name ∈ bound) :
    Scoped bound (scope.scalarField address node type role) :=
  ⟨hbound, scoped_captionOf address node hrole,
    scopedAll_editing_of_controlAt address hbound fun _ => controlAt_fieldControls⟩

theorem scoped_anyField (node : SchemaNode) {var : Option String}
    (hvar : ∀ name, var = some name → name ∈ bound) :
    Scoped bound (scope.anyField address node var) :=
  ⟨hbound, scoped_captionOf address node hvar,
    scopedAll_editing_of_controlAt address hbound fun _ => controlAt_rowControls⟩

theorem scoped_elementGroup (node : SchemaNode) (row : Option Row) {nodes : List TemplateNode}
    (hvar : ∀ name, row.map Row.var = some name → name ∈ bound) (hnodes : ScopedAll bound nodes) :
    Scoped bound (scope.elementGroup address node row nodes) := by
  have hheader : Scoped bound (scope.header address node (row.map Row.var)) :=
    ⟨scoped_captionOf address node hvar,
      scopedAll_editing_of_controlAt address hbound fun _ => controlAt_headerControls⟩
  unfold Scope.elementGroup
  split
  · exact ⟨hheader, hnodes⟩
  · exact ⟨hheader, hnodes, trivial⟩

theorem scopedAll_prompts (occurs : Occurs) (members : List PrefixedName) :
    ScopedAll bound [Scope.singlePrompt address occurs members] ∧
      ScopedAll bound [Scope.repeatedPrompt address occurs members] :=
  ⟨⟨⟨hbound, ⟨hbound, hbound, trivial⟩, trivial⟩, trivial⟩,
    ⟨⟨hbound, ⟨hbound, hbound, trivial⟩,
      ⟨hbound, ⟨hbound, ⟨hbound, trivial⟩, trivial⟩, trivial⟩, trivial⟩, trivial⟩⟩

end Controls

/-- What a place has to be like for its nodes to be in scope: fresh variables are fresh there, a row
stands under a variable of its address, and only an occurrence has a variable at its own leaf. The
numbers of variables are counted from a base. -/
def Task.ReadyFrom (base : Nat) : Task → Prop
  | .occurrence address row =>
    address.CountedFrom base ∧ ∀ r, row = some r → r.var ∈ address.vars
  | .text address row => address.CountedFrom base ∧ ∀ r, row = some r → r.var ∈ address.vars
  | .content here => here.CountedFrom base
  | .branches here => here.CountedFrom base
  | .node address => address.CountedFrom base ∧ address.siblingPath.vars = address.vars
  | .shown address => address.CountedFrom base ∧ address.siblingPath.vars = address.vars

def Task.Ready (task : Task) : Prop := task.ReadyFrom 0

def Task.vars : Task → List String
  | .occurrence address _ => address.vars
  | .text address _ => address.vars
  | .content here => here.vars
  | .branches here => here.vars
  | .node address => address.vars
  | .shown address => address.vars

/-- The index repeats elements only, and its addresses have lengths that fit a word. -/
structure Iterable (index : SchemaIndex) : Prop where
  ne_nil : ∀ address, index.isRepeating address = true → address.segments ≠ []
  element : ∀ address, index.isRepeating address = true → address.isAttribute = false
  depth_le : ∀ address node, index.nodeOf? address = some node → address.depth ≤ Text.maxWord

section Item

variable {base : Nat} {address : Address} (hcounted : address.siblingPath.CountedFrom base)
  (hdepth : base + address.depth ≤ Text.maxWord)

include hcounted hdepth

theorem itemVariable_not_mem : itemVariable address ∉ address.siblingPath.vars := by
  have hsiblings : base + address.siblingPath.depth ≤ Text.maxWord := by simpa using hdepth
  exact Address.freshVariable_not_mem_vars _ (hcounted.numbersFit hsiblings)

variable (hne : address.segments ≠ []) (helement : address.isAttribute = false)

include hne helement

theorem item_ready (isCollapsible : Bool) :
    (Task.occurrence (itemAddress address)
        (some ⟨itemVariable address, isCollapsible⟩)).ReadyFrom base ∧
      (itemAddress address).vars = address.siblingPath.vars ++ [itemVariable address] := by
  have hvars : (itemAddress address).vars = address.siblingPath.vars ++ [itemVariable address] :=
    Address.vars_item address _ hne helement
  have hnil : address.siblingPath.segments ≠ [] := by
    intro h
    have hlength := Address.depth_siblingPath address
    simp only [Address.depth, h, List.length_nil] at hlength
    exact hne (List.length_eq_zero_iff.mp hlength.symm)
  refine ⟨⟨?_, ?_⟩, hvars⟩
  · exact hcounted.item (by simpa using hdepth) (by simp) hnil (by simpa using helement)
  · intro row hrow
    obtain rfl := Option.some.inj hrow
    simp [hvars]

/-- An iteration is in scope when its rows are. -/
theorem scoped_itemIteration {nodes : List TemplateNode}
    (hnodes : ScopedAll (itemAddress address).vars nodes) :
    Scoped address.siblingPath.vars (itemIteration address nodes) := by
  obtain ⟨-, hvars⟩ := item_ready hcounted hdepth hne helement false
  refine ⟨List.Subset.refl _, itemVariable_not_mem hcounted hdepth, rfl, ?_, ?_⟩
  · exact hvars ▸ List.Subset.refl _
  · exact hvars ▸ hnodes

end Item

theorem scopedAll_guarded {address : Address} {nodes : List TemplateNode}
    (hnodes : ScopedAll address.vars nodes) :
    ScopedAll address.vars (scope.guarded address nodes) := by
  unfold Scope.guarded
  split
  · exact hnodes
  · rename_i parent hparent
    refine ⟨⟨?_, hnodes⟩, trivial⟩
    split
    · exact Address.vars_subset_of_parent? hparent
    · exact List.Subset.refl _

theorem scopedAll_of_elementGroup {bound : List String} {address : Address} {node : SchemaNode}
    {row : Option Row} {nodes : List TemplateNode}
    (h : ScopedAll bound [scope.elementGroup address node row nodes]) : ScopedAll bound nodes := by
  unfold Scope.elementGroup at h
  split at h
  · exact h.1.2
  · exact h.1.2.1

theorem scopedAll_of_guarded {bound : List String} {address : Address}
    {nodes : List TemplateNode} (h : ScopedAll bound (scope.guarded address nodes)) :
    ScopedAll bound nodes := by
  unfold Scope.guarded at h
  split at h
  · exact h
  · exact h.1.2

theorem fieldRole_var {here : Address} {node : SchemaNode} {row : Option Row} {name : String}
    (h : (scope.fieldRole here node row).var? = some name) : row.map Row.var = some name := by
  cases row with
  | none =>
    have hnone : scope.fieldRole here node none = .optionalText ∨
        scope.fieldRole here node none = .plain := by
      simp only [Scope.fieldRole]
      split
      · exact Or.inl rfl
      · exact Or.inr rfl
    rcases hnone with hrole | hrole <;> simp [hrole, FieldRole.var?] at h
  | some row => exact h

theorem scalarRole_var {row : Option Row} {name : String}
    (h : (Scope.scalarRole row).var? = some name) : row.map Row.var = some name := by
  cases row with
  | none => contradiction
  | some row => exact h

section Repeating

variable {base : Nat} (hindex : Iterable scope.index)
  (hroom : ∀ address node, scope.index.nodeOf? address = some node →
    base + address.depth ≤ Text.maxWord)

include hindex hroom

/-- A repetition is in scope of the variables of the siblings when its rows are in scope. -/
theorem scopedAll_repeated {address : Address} {node : SchemaNode} {rows : List TemplateNode}
    (hcounted : address.siblingPath.CountedFrom base)
    (hnode : scope.index.nodeOf? address = some node)
    (hrepeating : scope.index.isRepeating address = true)
    (hrows : (Task.occurrence (itemAddress address)
      (some ⟨itemVariable address, false⟩)).ReadyFrom base →
        ScopedAll (itemAddress address).vars rows) :
    ScopedAll address.siblingPath.vars (scope.repeated address node rows) := by
  have hdepth := hroom address node hnode
  have hne := hindex.ne_nil _ hrepeating
  have helement := hindex.element _ hrepeating
  have hready := (item_ready hcounted hdepth hne helement false).1
  have hiteration := scoped_itemIteration hcounted hdepth hne helement (hrows hready)
  have hbound := List.Subset.refl address.siblingPath.vars
  refine scopedAll_append.mpr ⟨⟨⟨hbound, hiteration, ?_⟩, trivial⟩, ?_⟩
  · exact scopedAll_editing ⟨⟨hbound, hbound, trivial⟩, trivial⟩
  · refine scopedAll_editing ?_
    split
    · exact trivial
    · refine ⟨⟨hbound, ⟨?_, hbound, trivial⟩, trivial⟩, trivial⟩
      simp [Label.Scoped, Label.ofAddress, Label.plain]

/-- What is rendered for a place is in scope of the variables of its address, as long as the base
leaves room for the variables of all addresses. -/
theorem scopedAll_of_renders_from {task : Task} {nodes : List TemplateNode}
    (h : Renders scope task nodes) (hready : task.ReadyFrom base) :
    ScopedAll task.vars nodes := by
  have hrow : ∀ {address : Address} {row : Option Row},
      (∀ r, row = some r → r.var ∈ address.vars) →
        ∀ name, row.map Row.var = some name → name ∈ address.vars := by
    intro address row hrow name hname
    obtain ⟨r, hr, rfl⟩ := Option.map_eq_some_iff.mp hname
    exact hrow r hr
  have hsubset : ∀ address : Address, address.vars ⊆ address.vars := fun _ =>
    List.Subset.refl _
  induction h with
  | recursive hnode hrecursive => exact ⟨hsubset _, trivial⟩
  | scalar hnode hexpanded =>
    exact ⟨scoped_scalarField _ (hsubset _) _ _ _ fun name hname =>
      hrow hready.2 name (scalarRole_var hname), trivial⟩
  | anything hnode hexpanded => exact ⟨scoped_anyField _ (hsubset _) _ (hrow hready.2), trivial⟩
  | element hnode hexpanded hcontent ih =>
    exact ⟨scoped_elementGroup _ (hsubset _) _ _ (hrow hready.2) (ih hready.1), trivial⟩
  | textOnly hnode hexpanded htext ih => exact ih hready
  | restricted => exact trivial
  | value hnode hcontent ih =>
    refine ⟨scopedAll_append.mpr ⟨⟨?_, trivial⟩, ih hready.1⟩, trivial⟩
    exact scoped_scalarField _ (hsubset _) _ _ _ fun name hname =>
      hrow hready.2 name (fieldRole_var hname)
  | extended htext hcontent ihtext ihcontent =>
    exact ⟨scopedAll_append.mpr ⟨ihtext hready, ihcontent hready.1⟩, trivial⟩
  | nothing => exact trivial
  | append hleft hright ihleft ihright =>
    exact scopedAll_append.mpr ⟨ihleft hready, ihright hready⟩
  | ownText htext ih => exact ih ⟨hready, by simp⟩
  | compositor hcontent ih => exact ⟨ih hready, trivial⟩
  | attributeUse hshown ih =>
    simpa [Task.vars] using ih ⟨Address.countedFrom_of_vars_eq (by simp) hready, by simp⟩
  | child hshown ih =>
    simpa [Task.vars] using ih ⟨Address.countedFrom_of_vars_eq (by simp) hready, by simp⟩
  | alternative hnode ih =>
    have hchild := ih ⟨Address.countedFrom_of_vars_eq (by simp) hready, by simp⟩
    simp only [Task.vars, Address.vars_child] at hchild ⊢
    exact ⟨⟨by simp, hchild⟩, trivial⟩
  | choices hbranches ih => exact ih hready
  | singlePrompt => exact scopedAll_editing (scopedAll_prompts _ (hsubset _) _ _).1
  | repeatedPrompt => exact scopedAll_editing (scopedAll_prompts _ (hsubset _) _ _).2
  | noBranch => exact trivial
  | @branch here name node isCollapsible nodes hnode hname hitem ih =>
    have hcounted : (here.child name).siblingPath.CountedFrom base :=
      Address.countedFrom_of_vars_eq (by simp) hready
    have hdepth := hroom _ _ (Scope.node_eq_ok_iff.mp hnode)
    have hne : (here.child name).segments ≠ [] := by simp [Address.child]
    have helement : (here.child name).isAttribute = false := by
      simp [Address.isAttribute, Segment.isAttribute]
    have hrows := ih (item_ready hcounted hdepth hne helement isCollapsible).1
    have hiteration := scoped_itemIteration hcounted hdepth hne helement hrows
    simp only [Address.siblingPath_child, Address.vars_child] at hiteration
    exact ⟨⟨by simp [Task.vars], hiteration, trivial⟩, trivial⟩
  | moreBranches hleft hright ihleft ihright =>
    exact scopedAll_append.mpr ⟨ihleft hready, ihright hready⟩
  | single hclassified hhead hrepeating hoccurrence ih => exact ih ⟨hready.1, by simp⟩
  | @repeating address node rows hnode hrecursive hplain hrepeating hitem ih =>
    obtain ⟨hcounted, hleaf⟩ := hready
    have hsiblings : address.siblingPath.CountedFrom base :=
      Address.countedFrom_of_vars_eq hleaf.symm hcounted
    have hrepeated := scopedAll_repeated hindex hroom hsiblings (Scope.node_eq_ok_iff.mp hnode)
      hrepeating ih
    rw [hleaf] at hrepeated
    exact hrepeated
  | @head address parent node members hnode hrecursive hhead hparent hmembers ih =>
    have hvars := Address.vars_eq_of_parent? hparent hready.2
    have hbranches := ih (Address.countedFrom_of_vars_eq hvars.symm hready.1)
    simp only [Task.vars, hvars] at hbranches ⊢
    refine scopedAll_append.mpr ⟨hbranches, scopedAll_editing ?_⟩
    unfold Scope.memberControl
    split
    · exact trivial
    · have hbound : parent.vars ⊆ address.vars := Address.vars_subset_of_parent? hparent
      exact ⟨⟨hbound, hbound, trivial⟩, trivial⟩
  | hidden => exact trivial
  | shown hnode ih => exact scopedAll_guarded (ih hready)

end Repeating

/-- Where the variables were made one after another, there is room for them in every address of the
index. -/
theorem scopedAll_of_renders (hindex : Iterable scope.index) {task : Task}
    {nodes : List TemplateNode} (h : Renders scope task nodes) (hready : task.Ready) :
    ScopedAll task.vars nodes := by
  refine scopedAll_of_renders_from hindex (fun address node hnode => ?_) h hready
  have hdepth := hindex.depth_le address node hnode
  omega

end Compile

end SchemaForms
