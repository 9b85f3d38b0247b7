import SchemaForms.Proofs.Form.Closed
import SchemaForms.Proofs.Form.Selecting
import SchemaForms.Proofs.Form.Shown

/-!
Forms for display show what is present. A node is put under a guard that asks for its own address,
and a row is made for each occurrence, so what is shown was found before. There are two ways around
this. The guard of a node that is shown by occurrence asks for the parent only, because an iteration
finds the occurrences; but a recursive node is shown without iteration. And the number of a row may
be astray, where several parents are selected.
-/

namespace SchemaForms

namespace Compile

open FormNode TemplateNode

namespace Scope

variable (scope : Scope) (record : Instance)

/-- A guard lets the node pass because the parent is there: the node is meant to be shown by
occurrence. -/
def PassedByParent (address : Address) : Prop :=
  scope.isShownByOccurrence address = true ∧
    ∃ parent, address.parent? = some parent ∧ 0 < record.count parent

/-- Recursive nodes that pass by their parent are shown whether they are there or not. -/
def ShownAnyway (address : Address) : Prop :=
  scope.index.isRecursive address = true ∧ scope.PassedByParent record address

/-- A recursive node is not there and passes by its parent. -/
def ShownAbsent (address : Address) : Prop :=
  scope.ShownAnyway record address ∧ record.count address = 0

/-- Fields, rows and recursive nodes show something of the record. -/
def Present : FormNode → Prop
  | .field address .. => record.Selects address
  | .row _ address _ => record.Selects address
  | .recursive address => record.Selects address ∨ scope.ShownAnyway record address
  | _ => True

end Scope

/-- What is shown is there, unless it is astray or is a recursive node that is shown anyway. -/
theorem Scope.present_shown {scope : Scope} {record : Instance} {node : FormNode}
    (h : scope.Present record node) {shown : Address} (hshown : node.shown? = some shown) :
    0 < record.count shown ↔
      ¬ record.Astray shown ∧ ¬ (node = .recursive shown ∧ scope.ShownAbsent record shown) := by
  have hpresent : record.Selects shown ∨
      node = .recursive shown ∧ scope.ShownAnyway record shown := by
    cases node with
    | field address input label value controls =>
      obtain rfl := Option.some.inj hshown
      exact Or.inl h
    | row number address children =>
      obtain rfl := Option.some.inj hshown
      exact Or.inl h
    | recursive address =>
      obtain rfl := Option.some.inj hshown
      exact h.imp_right fun hanyway => ⟨rfl, hanyway⟩
    | _ => contradiction
  constructor
  · intro hcount
    refine ⟨fun hastray => ?_, fun ⟨_, _, hzero⟩ => by omega⟩
    have hzero := Instance.count_of_astray hastray
    omega
  · rintro ⟨hastray, habsent⟩
    by_contra hzero
    have hcount : record.count shown = 0 := by omega
    rcases hpresent with (hselects | hbeyond) | ⟨hrecursive, hanyway⟩
    · exact hzero hselects
    · exact hastray hbeyond
    · exact habsent ⟨hrecursive, hanyway, hcount⟩

variable {scope : Scope} {record : Instance} {bindings : Bindings}

theorem Scope.aboutShown_present : AboutShown (scope.Present record) := by
  intro node hnone
  cases node <;> first | exact trivial | contradiction

/-- What shows a selected address shows something. -/
theorem Scope.present_of_selects {address : Address} (h : record.Selects address) :
    HoldsAt (scope.Present record) address := by
  intro node hshown
  cases node with
  | field own input label value controls =>
    obtain rfl := Option.some.inj hshown
    exact h
  | row number own children =>
    obtain rfl := Option.some.inj hshown
    exact h
  | recursive own =>
    obtain rfl := Option.some.inj hshown
    exact Or.inl h
  | _ => exact trivial

/-- What is known of the address of a place when its nodes are filled in. -/
def Task.Found (scope : Scope) (record : Instance) (bindings : Bindings) : Task → Prop
  | .occurrence address _ => record.Selects (address.substitute bindings) ∨
      scope.ShownAnyway record (address.substitute bindings)
  | .text address _ => record.Selects (address.substitute bindings)
  | .content here => record.Selects (here.substitute bindings)
  | .branches _ => True
  | .node address => record.Selects (address.substitute bindings) ∨
      scope.PassedByParent record (address.substitute bindings)
  | .shown address => address.parent? = none → record.Selects (address.substitute bindings)

theorem isRecursive_substitute {address : Address} {node : SchemaNode}
    (hnode : scope.node address = .ok node) :
    scope.index.isRecursive (address.substitute bindings) = node.isRecursive := by
  have hfound : scope.index.nodeOf? (address.substitute bindings) = some node := by
    rw [Scope.node_eq_ok_iff] at hnode
    simpa [SchemaIndex.nodeOf?] using hnode
  simp [SchemaIndex.isRecursive, hfound]

theorem isShownByOccurrence_substitute (address : Address) :
    scope.isShownByOccurrence (address.substitute bindings) =
      scope.isShownByOccurrence address := by
  simp [Scope.isShownByOccurrence, SchemaIndex.isRepeating, SchemaIndex.nodeOf?]

/-- What is not recursive is not shown anyway. -/
theorem Task.Found.selects {address : Address} {row : Option Row} {node : SchemaNode}
    (h : (Task.occurrence address row).Found scope record bindings)
    (hnode : scope.node address = .ok node) (hexpanded : node.isRecursive = false) :
    record.Selects (address.substitute bindings) := by
  rcases h with hselects | ⟨hrecursive, -⟩
  · exact hselects
  · rw [isRecursive_substitute hnode, hexpanded] at hrecursive
    contradiction

/-- A node that is shown once was asked for itself, unless it is recursive. -/
theorem Task.Found.single {address : Address} {classification : Classification}
    (h : (Task.node address).Found scope record bindings)
    (hclassified : scope.classify address = .ok classification)
    (hhead : classification.isHead = false) (hrepeating : classification.isRepeating = false) :
    (Task.occurrence address none).Found scope record bindings := by
  obtain ⟨node, hnode, rfl⟩ := Scope.classify_eq_ok hclassified
  rcases h with hselects | hpassed
  · exact Or.inl hselects
  · right
    refine ⟨?_, hpassed⟩
    rw [isRecursive_substitute hnode]
    by_contra hexpanded
    have hfound := Scope.node_eq_ok_iff.mp hnode
    have hshown := hpassed.1
    rw [isShownByOccurrence_substitute] at hshown
    simp only [Bool.not_eq_true] at hexpanded
    simp only [hexpanded, Bool.not_false, Bool.true_and] at hhead hrepeating
    simp [Scope.isShownByOccurrence, hfound, hhead, hrepeating] at hshown

theorem ne_nil_of_selects {here : Address} (h : record.Selects (here.substitute bindings)) :
    here.segments ≠ [] := by
  intro hnil
  apply h.ne_nil
  simp [Address.substitute, hnil]

/-- The rows of an iteration show its occurrences when what is in a row is shown for each. -/
theorem present_itemIteration {address : Address} {nodes : List TemplateNode} {bound : List String}
    (hscoped : Scoped bound (itemIteration address nodes)) (hne : address.segments ≠ [])
    (helement : address.isAttribute = false)
    (hrow : ∀ inner, record.Selects ((itemAddress address).substitute inner) →
      Everywhere (scope.Present record) (fillAll record inner nodes)) :
    Everywhere (scope.Present record) (fill record bindings (itemIteration address nodes)) := by
  refine everywhere_itemIteration hscoped fun number inner hitem hpos hle => ?_
  have hselects : record.Selects ((itemAddress address).substitute inner) := by
    rw [hitem]
    apply Instance.selects_position
    · intro hnil
      have hlength := congrArg List.length hnil
      have hdepth := Address.depth_siblingPath address
      simp only [Address.substitute, List.length_map, List.length_nil] at hlength
      simp only [Address.depth, hlength] at hdepth
      exact hne (List.length_eq_zero_iff.mp hdepth.symm)
    · simpa using helement
    · simp
    · exact hpos
    · exact hle
  exact ⟨Scope.present_of_selects hselects, hrow _ hselects⟩

section Display

variable (hdisplay : scope.mode = .display)

include hdisplay

/-- Below the root a guard asks for the node, or for its parent where occurrences are looked for. -/
theorem present_guarded {address : Address} {nodes : List TemplateNode}
    (hfound : (Task.shown address).Found scope record bindings)
    (hnodes : (Task.node address).Found scope record bindings →
      Everywhere (scope.Present record) (fillAll record bindings nodes)) :
    Everywhere (scope.Present record)
      (fillAll record bindings (scope.guarded address nodes)) := by
  unfold Scope.guarded
  cases hparent : address.parent? with
  | none => exact hnodes (Or.inl (hfound hparent))
  | some parent =>
    refine everywhere_guard fun hholds => hnodes ?_
    have hcount := Instance.holds_present.mp hholds
    by_cases hshown : scope.isShownByOccurrence address = true
    · have hedit : (scope.isEdit || scope.isShownByOccurrence address) = true := by simp [hshown]
      rw [if_pos hedit] at hcount
      right
      refine ⟨by rwa [isShownByOccurrence_substitute], parent.substitute bindings, ?_, hcount⟩
      exact Address.parent?_substitute bindings hparent
    · have hedit : ¬ (scope.isEdit || scope.isShownByOccurrence address) = true := by
        simp [Scope.isEdit, hdisplay, hshown]
      rw [if_neg hedit] at hcount
      exact Or.inl (Or.inl hcount)

/-- What is rendered for display shows something wherever the place was found. -/
theorem present_of_renders (hindex : Iterable scope.index) {task : Task}
    {nodes : List TemplateNode} (h : Renders scope task nodes) {bound : List String}
    {bindings : Bindings} (hscoped : ScopedAll bound nodes)
    (hfound : task.Found scope record bindings) :
    Everywhere (scope.Present record) (fillAll record bindings nodes) := by
  have habout : AboutShown (scope.Present record) := Scope.aboutShown_present
  induction h generalizing bound bindings with
  | recursive hnode hrecursive => exact everywhere_recursive hfound
  | scalar hnode hexpanded =>
    have hselects := hfound.selects hnode hexpanded
    exact everywhere_scalarField habout _ _ _ (Scope.present_of_selects hselects)
  | anything hnode hexpanded =>
    have hselects := hfound.selects hnode hexpanded
    exact everywhere_anyField habout _ _ (Scope.present_of_selects hselects)
  | element hnode hexpanded hcontent ih =>
    have hselects := hfound.selects hnode hexpanded
    exact everywhere_elementGroup habout _ _ _ (ih (scopedAll_of_elementGroup hscoped) hselects)
  | textOnly hnode hexpanded htext ih =>
    exact ih hscoped (hfound.selects hnode hexpanded)
  | restricted => exact everywhere_nil
  | value hnode hcontent ih =>
    have hcontentScoped := (scopedAll_append.mp hscoped.1).2
    refine everywhere_group habout _ (everywhere_fillAll_append ?_ (ih hcontentScoped hfound))
    exact everywhere_scalarField habout _ _ _ (Scope.present_of_selects hfound)
  | extended htext hcontent ihtext ihcontent =>
    obtain ⟨hinner, hnodes⟩ := scopedAll_append.mp hscoped.1
    exact everywhere_group habout _
      (everywhere_fillAll_append (ihtext hinner hfound) (ihcontent hnodes hfound))
  | nothing => exact everywhere_nil
  | append hleft hright ihleft ihright =>
    obtain ⟨hscopedLeft, hscopedRight⟩ := scopedAll_append.mp hscoped
    exact everywhere_fillAll_append (ihleft hscopedLeft hfound) (ihright hscopedRight hfound)
  | ownText htext ih => exact ih hscoped hfound
  | compositor hcontent ih => exact everywhere_group habout _ (ih hscoped.1 hfound)
  | attributeUse hshown ih =>
    apply ih hscoped
    intro hroot
    rw [Address.parent?_attr _ _ (ne_nil_of_selects hfound)] at hroot
    contradiction
  | child hshown ih =>
    apply ih hscoped
    intro hroot
    rw [Address.parent?_child _ _ (ne_nil_of_selects hfound)] at hroot
    contradiction
  | alternative hnode ih =>
    refine everywhere_guard fun hholds => ih hscoped.1.2 (Or.inl (Or.inl ?_))
    exact Instance.holds_present.mp hholds
  | choices hbranches ih => exact ih hscoped trivial
  | singlePrompt => exact everywhere_of_skeleton habout (skeleton_singlePrompt _ _ _)
  | repeatedPrompt => exact everywhere_of_skeleton habout (skeleton_repeatedPrompt _ _ _)
  | noBranch => exact everywhere_nil
  | @branch here name node isCollapsible nodes hnode hname hitem ih =>
    refine everywhere_guard fun _ => ?_
    rw [fillAll_singleton]
    have hiteration : Scoped bound (itemIteration (here.child name) nodes) := hscoped.1.2.1
    apply present_itemIteration hiteration
    · simp [Address.child]
    · simp
    · exact fun inner hselects => ih hiteration.2.2.2.2 (Or.inl hselects)
  | moreBranches hleft hright ihleft ihright =>
    obtain ⟨hscopedLeft, hscopedRight⟩ := scopedAll_append.mp hscoped
    exact everywhere_fillAll_append (ihleft hscopedLeft trivial) (ihright hscopedRight trivial)
  | single hclassified hhead hrepeating hoccurrence ih =>
    exact ih hscoped (hfound.single hclassified hhead hrepeating)
  | @repeating address node rows hnode hrecursive hplain hrepeating hitem ih =>
    have hiteration : Scoped bound (itemIteration address rows) := hscoped.1.2.1
    refine everywhere_repeated habout fun _ => ?_
    apply present_itemIteration hiteration
    · exact hindex.ne_nil _ hrepeating
    · exact hindex.element _ hrepeating
    · exact fun inner hselects => ih hiteration.2.2.2.2 (Or.inl hselects)
  | head hnode hrecursive hhead hparent hmembers ih =>
    obtain ⟨hmembersScoped, -⟩ := scopedAll_append.mp hscoped
    exact everywhere_fillAll_append (ih hmembersScoped trivial)
      (everywhere_of_skeleton habout (skeleton_memberControl _ _ _))
  | hidden => exact everywhere_nil
  | shown hnode ih =>
    exact present_guarded hdisplay hfound (ih (scopedAll_of_guarded hscoped))

end Display

end Compile

open Compile

/-- A form for display, below a root without variables, shows what is present, apart from recursive
nodes that pass by their parent and from positions that are astray. -/
theorem display_shows_present_iff {set : SchemaSet} {namespaces : InstanceNamespaces}
    {roots : List ExpandedName} {index : SchemaIndex}
    (hbuild : SchemaIndex.build set namespaces roots = .ok index)
    (hdepth : ∀ node ∈ index.nodes, node.address.depth ≤ Text.maxWord)
    {address : Address} (hroot : address.depth = 1) (hvars : address.vars = [])
    {compilation : Compilation} (hcompile : index.compile .display address = .ok compilation)
    {record : Instance} {form : Form} (hbind : compilation.template.bind record = .ok form) :
    ∀ node ∈ form.walk, ∀ shown, node.shown? = some shown →
      (0 < record.count shown ↔ ¬ record.Astray shown ∧
        ¬ (node = .recursive shown ∧
          Scope.ShownAbsent ⟨index, .display, address⟩ record shown)) := by
  obtain ⟨-, -, visits, hlists⟩ := SchemaIndex.exists_lists hbuild
  obtain ⟨hindexed, htemplate, hrenders, -⟩ := SchemaIndex.renders_of_compile hcompile
  have hiterable := hlists.iterable hdepth
  have hready : (Task.shown address).Ready := by
    refine ⟨Address.counted_of_vars_nil hvars, ?_⟩
    have hsubset := Address.vars_siblingPath_subset address
    rw [hvars] at hsubset ⊢
    exact List.subset_nil.mp hsubset
  have hscoped := scopedAll_of_renders hiterable hrenders hready
  simp only [Task.vars, hvars] at hscoped
  obtain ⟨hmatches, hform⟩ := Template.bind_eq_ok hscoped hbind
  have hselects : record.Selects (address.substitute []) := by
    obtain ⟨node, hnode⟩ := Option.isSome_iff_exists.mp hindexed
    obtain ⟨-, hattribute, hbelow⟩ := hlists.isAttribute_of_nodeOf? hnode
    obtain ⟨leaf, hleaf⟩ := List.length_eq_one_iff.mp hroot
    cases leaf with
    | attr name =>
      have hkind : address.isAttribute = true := by
        simp [Address.isAttribute, Address.leaf?, hleaf, Segment.isAttribute]
      have := hbelow (hattribute.symm.trans hkind)
      omega
    | element name position =>
      have hname : record.namespaces.matchesElement name record.root = true := by
        simpa [Template.matchesRoot, htemplate, hleaf, Segment.name] using hmatches
      have hsegments : (address.substitute []).segments =
          [.element name (position.map (Index.substitute []))] := by
        simp [Address.substitute, hleaf, Segment.substitute]
      have hcount := Instance.count_root hsegments hname
      left
      omega
  have hpresent := present_of_renders rfl hiterable hrenders hscoped fun _ => hselects
  rw [← hform] at hpresent
  exact fun node hnode shown hshown => Scope.present_shown (hpresent node hnode) hshown

/-- An element that repeats in its own type, and a repeating element below one that does not. -/
def absentInside : SchemaSet :=
  .declaring [.builtin (schemaName "string"),
    .containing [.particle "x" (.anonymous ⟨0⟩) .once,
      .particle "s" (.anonymous ⟨1⟩) ⟨0, .unbounded⟩],
    .containing [.particle "b" (.anonymous ⟨0⟩) ⟨1, .unbounded⟩],
    .containing [.particle "a" (.anonymous ⟨2⟩) .once]]
    [.unqualified "r" (.anonymous ⟨1⟩), .unqualified "q" (.anonymous ⟨3⟩)]

def absentInsideIndex : SchemaIndex :=
  (SchemaIndex.build absentInside .disabled [⟨none, "r"⟩, ⟨none, "q"⟩]).toOption.getD default

def withoutOccurrence : Instance := ⟨.plain "r" "" [.plain "x" "1" []], .disabled⟩

def withTwoParents : Instance :=
  ⟨.plain "q" "" [.plain "a" "" [.plain "b" "1" []], .plain "a" "" [.plain "b" "2" []]], .disabled⟩

/-- Some form for display shows what the record does not have. -/
def SchemaIndex.ShowsAbsent (index : SchemaIndex) (address : Address) (record : Instance) : Prop :=
  ∃ compilation form, index.compile .display address = .ok compilation ∧
    compilation.template.bind record = .ok form ∧
    ∃ node ∈ form.walk, node.shown?.any fun shown => record.count shown = 0

/-- The recursive element is shown though the record has none, and so is a row for the second of two
occurrences that have different parents. -/
theorem display_shows_absent :
    SchemaIndex.build absentInside .disabled [⟨none, "r"⟩, ⟨none, "q"⟩] = .ok absentInsideIndex ∧
      absentInsideIndex.ShowsAbsent (.root (.unprefixed "r")) withoutOccurrence ∧
      absentInsideIndex.ShowsAbsent (.root (.unprefixed "q")) withTwoParents := by
  refine ⟨rfl, ⟨_, _, rfl, rfl, ?_⟩, _, _, rfl, rfl, ?_⟩
  · decide
  · decide

theorem display_shows_present_iff_absentInside :
    SchemaIndex.build absentInside .disabled [⟨none, "r"⟩, ⟨none, "q"⟩] = .ok absentInsideIndex ∧
      (∀ node ∈ absentInsideIndex.nodes, node.address.depth ≤ Text.maxWord) ∧
      ∃ compilation form,
        absentInsideIndex.compile .display (.root (.unprefixed "r")) = .ok compilation ∧
        compilation.template.bind withoutOccurrence = .ok form ∧
        ∀ node ∈ form.walk, ∀ shown, node.shown? = some shown →
          (0 < withoutOccurrence.count shown ↔ ¬ withoutOccurrence.Astray shown ∧
            ¬ (node = .recursive shown ∧
              Scope.ShownAbsent ⟨absentInsideIndex, .display, .root (.unprefixed "r")⟩
                withoutOccurrence shown)) := by
  have hbuild : SchemaIndex.build absentInside .disabled [⟨none, "r"⟩, ⟨none, "q"⟩] =
      .ok absentInsideIndex := rfl
  have hdepth : ∀ node ∈ absentInsideIndex.nodes, node.address.depth ≤ Text.maxWord := by decide
  refine ⟨hbuild, hdepth, _, _, rfl, rfl, ?_⟩
  exact display_shows_present_iff hbuild hdepth rfl rfl rfl rfl

end SchemaForms
