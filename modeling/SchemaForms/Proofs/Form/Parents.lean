import SchemaForms.Proofs.Form.Presence

/-!
Forms show things below what is there. Each place is put under a guard that asks for its parent, for
itself or for its siblings, and each of these needs the parent: a path that selects something goes
through its parent. A row has the parent of its siblings, and the text of an element stands where
the element stands.
-/

namespace SchemaForms

/-- The record has the parent of the address, if the address has one. -/
def Instance.HasParent (record : Instance) (address : Address) : Prop :=
  ∀ parent, address.parent? = some parent → record.elements parent ≠ []

namespace Instance

variable {record : Instance} {address : Address}

theorem hasParent_of_count (h : 0 < record.count address) : record.HasParent address :=
  fun _ hparent => elements_parent_ne_nil hparent h

theorem HasParent.withIndex (h : record.HasParent address) (index : Index) :
    record.HasParent (address.withIndex index) :=
  fun parent hparent => h parent (by simpa using hparent)

end Instance

/-- What the node shows of the record is below something that the record has. -/
def FormNode.Parented (record : Instance) (node : FormNode) : Prop :=
  ∀ shown, node.shown? = some shown → record.HasParent shown

namespace Compile

open FormNode TemplateNode

variable {scope : Scope} {record : Instance} {bindings : Bindings}

theorem aboutShown_parented : AboutShown (Parented record) := by
  intro node hnone shown hshown
  rw [hnone] at hshown
  contradiction

theorem parented_of_hasParent {address : Address} (h : record.HasParent address) :
    HoldsAt (Parented record) address := by
  intro node haddress shown hshown
  rw [haddress] at hshown
  obtain rfl := Option.some.inj hshown
  exact h

/-- What is known of the parent of a place when its nodes are filled in. -/
def Task.HasParent (record : Instance) (bindings : Bindings) : Task → Prop
  | .occurrence address _ => record.HasParent (address.substitute bindings)
  | .text address _ => record.HasParent (address.substitute bindings)
  | .content here => record.HasParent (here.substitute bindings)
  | .branches _ => True
  | .node address => record.HasParent (address.substitute bindings)
  | .shown _ => True

/-- Each row has the parent of its siblings, and there are rows only where there are siblings. -/
theorem parented_itemIteration {address : Address} {nodes : List TemplateNode}
    {bound : List String} (hscoped : Scoped bound (itemIteration address nodes))
    (hrow : ∀ inner, record.HasParent ((itemAddress address).substitute inner) →
      Everywhere (Parented record) (fillAll record inner nodes)) :
    Everywhere (Parented record) (fill record bindings (itemIteration address nodes)) := by
  refine everywhere_itemIteration hscoped fun number inner hitem hpos hle => ?_
  have hsiblings : record.HasParent (address.siblingPath.substitute bindings) :=
    Instance.hasParent_of_count (by omega)
  have hparent : record.HasParent ((itemAddress address).substitute inner) := by
    rw [hitem]
    exact hsiblings.withIndex _
  exact ⟨parented_of_hasParent hparent, hrow inner hparent⟩

/-- A guard asks for the parent or for a node below it, and the root has no parent. -/
theorem parented_guarded {address : Address} {nodes : List TemplateNode}
    (h : record.HasParent (address.substitute bindings) →
      Everywhere (Parented record) (fillAll record bindings nodes)) :
    Everywhere (Parented record) (fillAll record bindings (scope.guarded address nodes)) := by
  unfold Scope.guarded
  cases hparent : address.parent? with
  | none =>
    apply h
    intro parent hroot
    rw [(Address.parent?_substitute_eq_none bindings).mpr hparent] at hroot
    contradiction
  | some parent =>
    refine everywhere_guard fun hholds => h ?_
    have hcount := Instance.holds_present.mp hholds
    split at hcount
    · intro found hfound
      rw [Address.parent?_substitute bindings hparent] at hfound
      obtain rfl := Option.some.inj hfound
      exact Instance.elements_ne_nil hcount
    · exact Instance.hasParent_of_count hcount

/-- What is rendered shows something below what is there, wherever the place has its parent. -/
theorem parented_of_renders {task : Task} {nodes : List TemplateNode}
    (h : Renders scope task nodes) {bound : List String} {bindings : Bindings}
    (hscoped : ScopedAll bound nodes) (hparent : task.HasParent record bindings) :
    Everywhere (Parented record) (fillAll record bindings nodes) := by
  have habout : AboutShown (Parented record) := aboutShown_parented
  induction h generalizing bound bindings with
  | recursive => exact everywhere_recursive (parented_of_hasParent hparent _ rfl)
  | scalar => exact everywhere_scalarField habout _ _ _ (parented_of_hasParent hparent)
  | anything => exact everywhere_anyField habout _ _ (parented_of_hasParent hparent)
  | element hnode hexpanded hcontent ih =>
    exact everywhere_elementGroup habout _ _ _ (ih (scopedAll_of_elementGroup hscoped) hparent)
  | textOnly hnode hexpanded htext ih => exact ih hscoped hparent
  | restricted => exact everywhere_nil
  | value hnode hcontent ih =>
    have hcontentScoped := (scopedAll_append.mp hscoped.1).2
    refine everywhere_group habout _ (everywhere_fillAll_append ?_ (ih hcontentScoped hparent))
    exact everywhere_scalarField habout _ _ _ (parented_of_hasParent hparent)
  | extended htext hcontent ihtext ihcontent =>
    obtain ⟨hinner, hnodes⟩ := scopedAll_append.mp hscoped.1
    exact everywhere_group habout _
      (everywhere_fillAll_append (ihtext hinner hparent) (ihcontent hnodes hparent))
  | nothing => exact everywhere_nil
  | append hleft hright ihleft ihright =>
    obtain ⟨hscopedLeft, hscopedRight⟩ := scopedAll_append.mp hscoped
    exact everywhere_fillAll_append (ihleft hscopedLeft hparent) (ihright hscopedRight hparent)
  | ownText htext ih => exact ih hscoped hparent
  | compositor hcontent ih => exact everywhere_group habout _ (ih hscoped.1 hparent)
  | attributeUse hshown ih => exact ih hscoped trivial
  | child hshown ih => exact ih hscoped trivial
  | alternative hnode ih =>
    refine everywhere_guard fun hholds => ih hscoped.1.2 ?_
    exact Instance.hasParent_of_count (Instance.holds_present.mp hholds)
  | choices hbranches ih => exact ih hscoped trivial
  | singlePrompt => exact everywhere_of_skeleton habout (skeleton_singlePrompt _ _ _)
  | repeatedPrompt => exact everywhere_of_skeleton habout (skeleton_repeatedPrompt _ _ _)
  | noBranch => exact everywhere_nil
  | branch hnode hname hitem ih =>
    have hiteration := hscoped.1.2.1
    refine everywhere_guard fun _ => ?_
    rw [fillAll_singleton]
    exact parented_itemIteration hiteration fun inner hrow => ih hiteration.2.2.2.2 hrow
  | moreBranches hleft hright ihleft ihright =>
    obtain ⟨hscopedLeft, hscopedRight⟩ := scopedAll_append.mp hscoped
    exact everywhere_fillAll_append (ihleft hscopedLeft trivial) (ihright hscopedRight trivial)
  | single hclassified hhead hrepeating hoccurrence ih => exact ih hscoped hparent
  | repeating hnode hrecursive hplain hrepeating hitem ih =>
    have hiteration := hscoped.1.2.1
    refine everywhere_repeated habout fun _ => ?_
    exact parented_itemIteration hiteration fun inner hrow => ih hiteration.2.2.2.2 hrow
  | head hnode hrecursive hhead hparent hmembers ih =>
    obtain ⟨hmembersScoped, -⟩ := scopedAll_append.mp hscoped
    exact everywhere_fillAll_append (ih hmembersScoped trivial)
      (everywhere_of_skeleton habout (skeleton_memberControl _ _ _))
  | hidden => exact everywhere_nil
  | shown hnode ih => exact parented_guarded fun hfound => ih (scopedAll_of_guarded hscoped) hfound

end Compile

/-- What a form shows, its root apart, is below an element that the record has. -/
theorem shown_below_present {set : SchemaSet} {namespaces : InstanceNamespaces}
    {roots : List ExpandedName} {index : SchemaIndex}
    (hbuild : SchemaIndex.build set namespaces roots = .ok index)
    (hdepth : ∀ node ∈ index.nodes, node.address.depth ≤ Text.maxWord) (mode : Mode)
    {address : Address} (hvars : address.vars = []) {compilation : Compilation}
    (hcompile : index.compile mode address = .ok compilation) {record : Instance} {form : Form}
    (hbind : compilation.template.bind record = .ok form) :
    ∀ node ∈ form.walk, ∀ shown, node.shown? = some shown → 2 ≤ shown.depth →
      ∃ parent, shown.parent? = some parent ∧ record.elements parent ≠ [] := by
  have hform := SchemaIndex.filledFrom_of_bind hbuild hdepth hvars hcompile hbind
  intro node hnode shown hshown hbelow
  obtain ⟨parent, hparent⟩ := Address.exists_parent hbelow
  have hparented := Compile.parented_of_renders hform.renders hform.inScope
    (show Compile.Task.HasParent record [] (.shown address) from trivial)
  rw [← hform.filled] at hparented
  exact ⟨parent, hparent, hparented node hnode shown hshown parent hparent⟩

/-- The record has two parents where the schema has one. -/
theorem shown_below_present_twoParents :
    SchemaIndex.build absentInside .disabled [⟨none, "r"⟩, ⟨none, "q"⟩] = .ok absentInsideIndex ∧
      (∀ node ∈ absentInsideIndex.nodes, node.address.depth ≤ Text.maxWord) ∧
      ∃ compilation form,
        absentInsideIndex.compile .edit (.root (.unprefixed "q")) = .ok compilation ∧
        compilation.template.bind withTwoParents = .ok form ∧
        ∀ node ∈ form.walk, ∀ shown, node.shown? = some shown → 2 ≤ shown.depth →
          ∃ parent, shown.parent? = some parent ∧ withTwoParents.elements parent ≠ [] := by
  have hbuild : SchemaIndex.build absentInside .disabled [⟨none, "r"⟩, ⟨none, "q"⟩] =
      .ok absentInsideIndex := rfl
  have hdepth : ∀ node ∈ absentInsideIndex.nodes, node.address.depth ≤ Text.maxWord := by decide
  have hvars : (Address.root (.unprefixed "q")).vars = [] := rfl
  refine ⟨hbuild, hdepth, _, _, rfl, rfl, ?_⟩
  exact shown_below_present hbuild hdepth .edit hvars rfl rfl

end SchemaForms
