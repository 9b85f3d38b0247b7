import SchemaForms.Proofs.Compile.Rendering
import SchemaForms.Proofs.Template.Skeleton

/-!
Where the fields of a template stand. What is made for a place has fields for the place itself and
for places below it. What is made for a head has them for the elements beside it instead, which are
no attributes. So the field of an attribute is made for the attribute alone, never on the way to
something else.
-/

namespace SchemaForms

namespace TemplateNode

/-- The addresses of the fields among the nodes. -/
def fieldAddresses (nodes : List TemplateNode) : List Address :=
  (skeleton nodes).filterMap Mark.fieldAddress?

/-- How many fields among the nodes are for a place in the schema. -/
def fieldsFor (place : Address) (nodes : List TemplateNode) : Nat :=
  (fieldAddresses nodes).countP (·.schemaAddress = place)

variable {left right nodes : List TemplateNode} {place : Address}

theorem fieldAddresses_congr (h : skeleton left = skeleton right) :
    fieldAddresses left = fieldAddresses right :=
  congrArg (List.filterMap Mark.fieldAddress?) h

theorem fieldsFor_congr (h : fieldAddresses left = fieldAddresses right) :
    fieldsFor place left = fieldsFor place right := by
  rw [fieldsFor, h, fieldsFor]

@[simp] theorem fieldAddresses_nil : fieldAddresses [] = [] := rfl

@[simp] theorem fieldAddresses_append :
    fieldAddresses (left ++ right) = fieldAddresses left ++ fieldAddresses right := by
  simp [fieldAddresses]

@[simp] theorem fieldsFor_nil : fieldsFor place [] = 0 := rfl

@[simp] theorem fieldsFor_append :
    fieldsFor place (left ++ right) = fieldsFor place left + fieldsFor place right := by
  simp [fieldsFor]

theorem fieldAddresses_flatMap {α : Type} (make : α → List TemplateNode) (as : List α) :
    fieldAddresses (as.flatMap make) = as.flatMap fun a => fieldAddresses (make a) := by
  induction as with
  | nil => rfl
  | cons a others ih => simp [ih]

theorem fieldsFor_eq_zero (h : ∀ address ∈ fieldAddresses nodes, address.schemaAddress ≠ place) :
    fieldsFor place nodes = 0 :=
  List.countP_eq_zero.mpr fun address haddress => by simpa using h address haddress

end TemplateNode

namespace Compile

open TemplateNode

variable {scope : Scope}

section Nodes

variable (address : Address) (node : SchemaNode) (nodes : List TemplateNode)

@[simp] theorem fieldAddresses_scalarField (type : TypeId) (role : FieldRole) :
    fieldAddresses [scope.scalarField address node type role] = [address] := by
  rw [fieldAddresses, skeleton_scalarField]
  rfl

@[simp] theorem fieldAddresses_anyField (var : Option String) :
    fieldAddresses [scope.anyField address node var] = [address] := by
  rw [fieldAddresses, skeleton_anyField]
  rfl

@[simp] theorem fieldAddresses_group (kind : GroupKind) :
    fieldAddresses [.group kind nodes] = fieldAddresses nodes :=
  fieldAddresses_congr (skeleton_group kind nodes)

@[simp] theorem fieldAddresses_guard (test : GuardTest) :
    fieldAddresses [.guard test address nodes] = fieldAddresses nodes :=
  fieldAddresses_congr (skeleton_guard test address nodes)

@[simp] theorem fieldAddresses_guarded :
    fieldAddresses (scope.guarded address nodes) = fieldAddresses nodes :=
  fieldAddresses_congr (skeleton_guarded address nodes)

@[simp] theorem fieldAddresses_elementGroup (row : Option Row) :
    fieldAddresses [scope.elementGroup address node row nodes] = fieldAddresses nodes :=
  fieldAddresses_congr (skeleton_elementGroup address node row nodes)

@[simp] theorem fieldAddresses_itemIteration :
    fieldAddresses [itemIteration address nodes] = fieldAddresses nodes := by
  rw [fieldAddresses, skeleton_itemIteration]
  rfl

@[simp] theorem fieldAddresses_repeated :
    fieldAddresses (scope.repeated address node nodes) = fieldAddresses nodes := by
  rw [fieldAddresses_congr (skeleton_repeated address node nodes), fieldAddresses_itemIteration]

end Nodes

/-- The place itself, or a place further down. -/
def AtOrBelow (place address : Address) : Prop :=
  address.schemaAddress = place.schemaAddress ∨ place.depth < address.depth

/-- The place itself, an element beside it, or a place further down. -/
def AtOrBeside (place address : Address) : Prop :=
  address.schemaAddress = place.schemaAddress ∨
    place.depth ≤ address.depth ∧ (address.isAttribute = true → place.depth < address.depth)

/-- Where the fields are that are made for a task. -/
def Task.ShowsAt (address : Address) : Task → Prop
  | .occurrence place _ => AtOrBelow place address
  | .text place _ => AtOrBelow place address
  | .content here => AtOrBelow here address
  | .branches here => here.depth < address.depth ∧
      (address.isAttribute = true → here.depth + 1 < address.depth)
  | .node place => AtOrBeside place address
  | .shown place => AtOrBeside place address

variable {place here address : Address} {name : PrefixedName}

@[simp] theorem atOrBelow_itemAddress :
    AtOrBelow (itemAddress place) address ↔ AtOrBelow place address := by
  simp [AtOrBelow]

theorem AtOrBelow.atOrBeside (h : AtOrBelow place address) : AtOrBeside place address :=
  h.imp_right fun hdeeper => ⟨Nat.le_of_lt hdeeper, fun _ => hdeeper⟩

theorem AtOrBeside.depth_le (h : AtOrBeside place address) : place.depth ≤ address.depth := by
  rcases h with hsame | ⟨hle, -⟩
  · exact Nat.le_of_eq (by rw [← Address.depth_schemaAddress, ← hsame, Address.depth_schemaAddress])
  · exact hle

/-- A field at the same depth that is for an attribute is for the place itself. -/
theorem AtOrBeside.eq_of_depth (h : AtOrBeside place address)
    (hattribute : address.isAttribute = true) (hdepth : address.depth = place.depth) :
    address.schemaAddress = place.schemaAddress := by
  refine h.resolve_right fun ⟨_, hdeeper⟩ => ?_
  exact absurd (hdeeper hattribute) (by omega)

theorem AtOrBelow.of_child (h : AtOrBeside (here.child name) address) : AtOrBelow here address := by
  have hdepth := h.depth_le
  rw [Address.depth_child] at hdepth
  exact Or.inr hdepth

theorem AtOrBelow.of_attr (h : AtOrBeside (here.attr name) address) : AtOrBelow here address := by
  have hdepth := h.depth_le
  rw [Address.depth_attr] at hdepth
  exact Or.inr hdepth

/-- A child is not an attribute, so attributes in it are further down. -/
theorem AtOrBelow.beyond_child (h : AtOrBelow (here.child name) address) :
    here.depth < address.depth ∧ (address.isAttribute = true → here.depth + 1 < address.depth) := by
  have hdepth := h.atOrBeside.depth_le
  rw [Address.depth_child] at hdepth
  refine ⟨hdepth, fun hattribute => ?_⟩
  rcases h with hsame | hdeeper
  · rw [← Address.isAttribute_schemaAddress, hsame] at hattribute
    simp at hattribute
  · rwa [Address.depth_child] at hdeeper

variable {scope : Scope}

theorem showsAt_of_renders {task : Task} {nodes : List TemplateNode}
    (h : Renders scope task nodes) : ∀ address ∈ fieldAddresses nodes, task.ShowsAt address := by
  have happend : ∀ {left right : List TemplateNode} {P : Address → Prop},
      (∀ address ∈ fieldAddresses left, P address) →
        (∀ address ∈ fieldAddresses right, P address) →
          ∀ address ∈ fieldAddresses (left ++ right), P address := by
    intro left right P hleft hright
    rw [fieldAddresses_append]
    exact List.forall_mem_append.mpr ⟨hleft, hright⟩
  have hfield : ∀ place address : Address, address ∈ [place] → AtOrBelow place address :=
    fun place address haddress => Or.inl (by rw [List.mem_singleton.mp haddress])
  induction h with
  | recursive => simp [fieldAddresses, mark?, contents, Mark.fieldAddress?]
  | scalar => exact fun address haddress => hfield _ _ (by simpa using haddress)
  | anything => exact fun address haddress => hfield _ _ (by simpa using haddress)
  | element hnode hexpanded hcontent ih =>
    rw [fieldAddresses_elementGroup]
    exact ih
  | textOnly hnode hexpanded htext ih => exact ih
  | restricted => simp
  | value hnode hcontent ih =>
    rw [fieldAddresses_group]
    exact happend (fun address haddress => hfield _ _ (by simpa using haddress)) ih
  | extended htext hcontent ihtext ihcontent =>
    rw [fieldAddresses_group]
    exact happend ihtext ihcontent
  | nothing => simp
  | append hleft hright ihleft ihright => exact happend ihleft ihright
  | ownText htext ih => exact ih
  | compositor hcontent ih =>
    rw [fieldAddresses_group]
    exact ih
  | attributeUse hshown ih => exact fun address haddress => .of_attr (ih address haddress)
  | child hshown ih => exact fun address haddress => .of_child (ih address haddress)
  | alternative hnode ih =>
    rw [fieldAddresses_guard]
    exact fun address haddress => .of_child (ih address haddress)
  | choices hbranches ih => exact fun address haddress => Or.inr (ih address haddress).1
  | singlePrompt => simp [fieldAddresses, skeleton_singlePrompt]
  | repeatedPrompt => simp [fieldAddresses, skeleton_repeatedPrompt]
  | noBranch => simp
  | branch hnode hname hitem ih =>
    rw [fieldAddresses_guard, fieldAddresses_itemIteration]
    exact fun address haddress => (atOrBelow_itemAddress.mp (ih address haddress)).beyond_child
  | moreBranches hleft hright ihleft ihright => exact happend ihleft ihright
  | single hclassified hhead hrepeating hoccurrence ih =>
    exact fun address haddress => (ih address haddress).atOrBeside
  | repeating hnode hrecursive hplain hrepeating hitem ih =>
    rw [fieldAddresses_repeated]
    exact fun address haddress => (atOrBelow_itemAddress.mp (ih address haddress)).atOrBeside
  | @head place parent node members hnode hrecursive hhead hparent hmembers ih =>
    obtain ⟨-, leaf, hbeside⟩ := Address.segments_of_parent? hparent
    have hdepth : place.depth = parent.depth + 1 := by simp [Address.depth, hbeside]
    refine happend (fun address haddress => Or.inr ?_) (by
      simp [fieldAddresses, skeleton_memberControl])
    rw [hdepth]
    exact ih address haddress
  | hidden => simp
  | shown hnode ih =>
    rw [fieldAddresses_guarded]
    exact ih

end Compile

end SchemaForms
