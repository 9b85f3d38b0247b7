import SchemaForms.Schema.Loader
import Mathlib.Logic.Relation

/-!
The references of a schema. A reference to a global element or attribute keeps what it means, how it
is written and the document that it stands in. What is said of references is said of all constructs
at whatever depth, in the types of a table and in the groups. Steps that read or load may fail half
way, and what they entered before stays; a property of the state is therefore kept by a step whether
it succeeds or not.
-/

namespace SchemaForms

/-- A step keeps what holds of the state even when it fails, and makes what is described. -/
def Keeps {σ ε α : Type} (kept : σ → Prop) (made : α → Prop) (step : ExceptT ε (StateM σ) α) :
    Prop :=
  ∀ state, kept state →
    kept (step.run.run state).2 ∧ ∀ a, (step.run.run state).1 = .ok a → made a

section Steps

variable {σ ε α β : Type} {kept : σ → Prop} {made : α → Prop}

theorem Keeps.pure {a : α} (h : made a) :
    Keeps kept made (Pure.pure a : ExceptT ε (StateM σ) α) := by
  intro state hkept
  refine ⟨hkept, fun b hb => ?_⟩
  obtain rfl := Except.ok.inj hb
  exact h

theorem Keeps.throw {error : ε} :
    Keeps kept made (MonadExcept.throw error : ExceptT ε (StateM σ) α) :=
  fun _ hkept => ⟨hkept, fun _ h => nomatch h⟩

theorem Keeps.bind {step : ExceptT ε (StateM σ) α} {next : α → ExceptT ε (StateM σ) β}
    {Q : β → Prop} (hstep : Keeps kept made step) (hnext : ∀ a, made a → Keeps kept Q (next a)) :
    Keeps kept Q (step >>= next) := by
  intro state hkept
  have hfirst := hstep state hkept
  rw [ExceptT.run_bind, StateT.run_bind]
  rcases hrun : step.run.run state with ⟨error | a, reached⟩
  · rw [hrun] at hfirst
    exact ⟨hfirst.1, fun _ h => nomatch h⟩
  · rw [hrun] at hfirst
    exact hnext a (hfirst.2 a rfl) reached hfirst.1

theorem Keeps.weaken {step : ExceptT ε (StateM σ) α} {weaker : α → Prop}
    (h : Keeps kept made step) (hweaker : ∀ a, made a → weaker a) : Keeps kept weaker step :=
  fun state hkept => ⟨(h state hkept).1, fun a ha => hweaker a ((h state hkept).2 a ha)⟩

/-- What is looked up changes nothing. -/
theorem Keeps.except {result : Except ε α} (h : ∀ a, result = .ok a → made a) :
    Keeps kept made (liftM result : ExceptT ε (StateM σ) α) :=
  fun _ hkept => ⟨hkept, h⟩

theorem Keeps.after {result : Except ε α} {next : α → ExceptT ε (StateM σ) β} {Q : β → Prop}
    (h : ∀ a, Keeps kept Q (next a)) : Keeps kept Q (liftM result >>= next) :=
  .bind (.except fun _ _ => trivial) fun a _ => h a

theorem Keeps.modify {change : σ → σ} (h : ∀ state, kept state → kept (change state)) :
    Keeps kept (fun _ => True) (modify change : ExceptT ε (StateM σ) PUnit) :=
  fun state hkept => ⟨h state hkept, fun _ _ => trivial⟩

end Steps

mutual

/-- A construct and everything that stands inside of it. -/
def Construct.parts : Construct → List Construct
  | .simpleContent method base children =>
    .simpleContent method base children :: Construct.partsOf children
  | .complexContent method base children =>
    .complexContent method base children :: Construct.partsOf children
  | .compositor kind occurs children =>
    .compositor kind occurs children :: Construct.partsOf children
  | construct => [construct]

def Construct.partsOf : List Construct → List Construct
  | [] => []
  | construct :: others => construct.parts ++ Construct.partsOf others

end

theorem Construct.mem_partsOf {part : Construct} {constructs : List Construct} :
    part ∈ Construct.partsOf constructs ↔ ∃ construct ∈ constructs, part ∈ construct.parts := by
  induction constructs with
  | nil => simp [Construct.partsOf]
  | cons construct others ih => simp [Construct.partsOf, ih]

/-- What stands directly inside of a construct. -/
def Construct.children : Construct → List Construct
  | .simpleContent _ _ children => children
  | .complexContent _ _ children => children
  | .compositor _ _ children => children
  | _ => []

theorem Construct.parts_eq (construct : Construct) :
    construct.parts = construct :: Construct.partsOf construct.children := by
  cases construct <;> rfl

section Refers

variable (R : ExpandedName → String → DocumentId → Prop)

/-- A property of the name that an attribute refers to, if it does. -/
def AttributeDeclaration.Refers (use : AttributeDeclaration) : Prop :=
  use.isReference = true → R use.name use.written use.document

/-- A property of the name that a construct itself refers to. -/
def Construct.Refers : Construct → Prop
  | .attributeUse use => use.Refers R
  | .element (.globally name written document) _ => R name written document
  | _ => True

/-- A property of all references inside a construct. -/
def Construct.AllRefer (construct : Construct) : Prop := ∀ part ∈ construct.parts, part.Refers R

def TypeDefinition.content : TypeDefinition → List Construct
  | complex type => type.content
  | _ => []

def TypeDefinition.AllRefer (definition : TypeDefinition) : Prop :=
  ∀ construct ∈ definition.content, construct.AllRefer R

def TypeTable.AllRefer (table : TypeTable) : Prop :=
  ∀ definition ∈ table.definitions, definition.AllRefer R

variable {R}

theorem Construct.AllRefer.mono {S : ExpandedName → String → DocumentId → Prop}
    (h : ∀ name written document, R name written document → S name written document)
    {construct : Construct} (hall : construct.AllRefer R) : construct.AllRefer S := by
  intro part hpart
  have hrefers := hall part hpart
  unfold Construct.Refers at hrefers ⊢
  split
  · exact fun href => h _ _ _ (hrefers href)
  · exact h _ _ _ hrefers
  · trivial

theorem Construct.AllRefer.of_children {construct : Construct} (hrefers : construct.Refers R)
    (h : ∀ child ∈ construct.children, child.AllRefer R) : construct.AllRefer R := by
  intro part hpart
  rw [Construct.parts_eq, List.mem_cons, Construct.mem_partsOf] at hpart
  rcases hpart with rfl | ⟨child, hchild, hinside⟩
  · exact hrefers
  · exact h child hchild part hinside

theorem Construct.AllRefer.of_leaf {construct : Construct} (hleaf : construct.children = [])
    (h : construct.Refers R) : construct.AllRefer R :=
  .of_children h (by simp [hleaf])

theorem TypeDefinition.AllRefer.mono {S : ExpandedName → String → DocumentId → Prop}
    (h : ∀ name written document, R name written document → S name written document)
    {definition : TypeDefinition} (hall : definition.AllRefer R) : definition.AllRefer S :=
  fun construct hconstruct => (hall construct hconstruct).mono h

theorem TypeDefinition.AllRefer.of_content {definition : TypeDefinition}
    (h : definition.content = []) : definition.AllRefer R := by
  intro construct hconstruct
  rw [h] at hconstruct
  exact nomatch hconstruct

theorem TypeTable.AllRefer.push {table : TypeTable} {definition : TypeDefinition}
    (h : table.AllRefer R) (hdefinition : definition.AllRefer R) :
    (table.push definition).1.AllRefer R := by
  simpa [TypeTable.AllRefer, TypeTable.push, or_imp, forall_and] using ⟨h, hdefinition⟩

theorem TypeTable.AllRefer.intern {table : TypeTable} (h : table.AllRefer R)
    (name : ExpandedName) : (table.intern name).AllRefer R := by
  unfold TypeTable.intern
  split
  · exact h
  · exact h.push (TypeDefinition.AllRefer.of_content rfl)

theorem TypeTable.allRefer_initial : TypeTable.initial.AllRefer R := by
  have hempty : TypeTable.AllRefer R ⟨[], []⟩ := by simp [TypeTable.AllRefer]
  exact (hempty.intern _).intern _

end Refers

namespace Xml.Element

/-- An element stands at the top of another one or somewhere below. -/
def Holds : Element → Element → Prop :=
  Relation.ReflTransGen fun outer inner => inner ∈ outer.children

/-- A reference is written at some element and means there what it means. -/
def Writes (root : Element) (name : ExpandedName) (written : String) : Prop :=
  ∃ element value, root.Holds element ∧ element.attribute? "ref" = some value ∧
    Text.trim value = written ∧ ExpandedName.resolve written element = .ok name

end Xml.Element

/-- A reference is written in the document of the number, below its document element. -/
def WrittenIn (root : Xml.Element) (document : DocumentId) (name : ExpandedName)
    (written : String) (id : DocumentId) : Prop :=
  id = document ∧ root.Writes name written

/-- A property of all references that are written in a document. -/
def HoldsIn (R : ExpandedName → String → DocumentId → Prop) (root : Xml.Element)
    (document : DocumentId) : Prop :=
  ∀ name written id, WrittenIn root document name written id → R name written id

end SchemaForms
