import SchemaForms.Proofs.Form.Everywhere
import SchemaForms.Proofs.Form.Filling
import SchemaForms.Proofs.Index.Listing

/-!
Forms without variables. The template for an address without variables is in scope of no variable,
so every variable in it belongs to an iteration around it, and filling puts a position for each.
-/

namespace SchemaForms

/-- The node is not about an address with a variable. -/
def FormNode.Closed (node : FormNode) : Prop :=
  ∀ address, node.address? = some address → address.vars = []

namespace TemplateNode

open FormNode

/-- All variables in scope have a position. -/
def Assigned (bound : List String) (bindings : Bindings) : Prop :=
  ∀ var ∈ bound, (bindings.lookup var).isSome

theorem Assigned.insert {bound : List String} {bindings : Bindings} (h : Assigned bound bindings)
    (name : String) (position : Nat) :
    Assigned (bound ++ [name]) (bindings.insert name position) := by
  intro var hvar
  rw [Bindings.lookup_insert]
  split
  · rfl
  · rename_i hne
    rcases List.mem_append.mp hvar with hold | hnew
    · exact h var hold
    · exact absurd (List.mem_singleton.mp hnew) hne

theorem Assigned.vars_substitute {bound : List String} {bindings : Bindings} {address : Address}
    (h : Assigned bound bindings) (hscoped : address.vars ⊆ bound) :
    (address.substitute bindings).vars = [] :=
  Address.vars_substitute address bindings fun var hvar => h var (hscoped hvar)

mutual

theorem closed_fill (record : Instance) (node : TemplateNode) {bound : List String}
    {bindings : Bindings} (hscoped : Scoped bound node) (hassigned : Assigned bound bindings) :
    Everywhere FormNode.Closed (fill record bindings node) := by
  cases node with
  | group kind children =>
    rw [fill, everywhere_singleton]
    exact ⟨by simp [FormNode.Closed, address?], closed_fillAll record children hscoped hassigned⟩
  | header label controls =>
    rw [fill, everywhere_singleton]
    exact ⟨by simp [FormNode.Closed, address?], closed_fillAll record controls hscoped.2 hassigned⟩
  | field address input label options controls =>
    rw [fill, everywhere_singleton]
    refine ⟨?_, closed_fillAll record controls hscoped.2.2 hassigned⟩
    simpa [FormNode.Closed, address?] using hassigned.vars_substitute hscoped.1
  | guard test target children =>
    rw [fill]
    split
    · exact closed_fillAll record children hscoped.2 hassigned
    · exact everywhere_nil
  | iteration siblings var item children =>
    obtain ⟨-, -, -, hitem, hchildren⟩ := hscoped
    rw [fill]
    refine everywhere_map fun number _ => ?_
    have hinner := hassigned.insert var number
    refine ⟨?_, closed_fillAll record children hchildren hinner⟩
    simpa [FormNode.Closed, address?] using hinner.vars_substitute hitem
  | affordance kind target label candidates =>
    rw [fill, everywhere_singleton]
    exact ⟨by simpa [FormNode.Closed, address?] using hassigned.vars_substitute hscoped,
      everywhere_nil⟩
  | choicePrompt target isRequired candidates =>
    rw [fill, everywhere_singleton]
    exact ⟨by simpa [FormNode.Closed, address?] using hassigned.vars_substitute hscoped,
      everywhere_nil⟩
  | toggle label children =>
    rw [fill, everywhere_singleton]
    exact ⟨by simp [FormNode.Closed, address?], closed_fillAll record children hscoped hassigned⟩
  | recursive address =>
    rw [fill, everywhere_singleton]
    exact ⟨by simpa [FormNode.Closed, address?] using hassigned.vars_substitute hscoped,
      everywhere_nil⟩

theorem closed_fillAll (record : Instance) (nodes : List TemplateNode) {bound : List String}
    {bindings : Bindings} (hscoped : ScopedAll bound nodes) (hassigned : Assigned bound bindings) :
    Everywhere FormNode.Closed (fillAll record bindings nodes) := by
  cases nodes with
  | nil => exact everywhere_nil
  | cons node others =>
    rw [fillAll, everywhere_append]
    exact ⟨closed_fill record node hscoped.1 hassigned,
      closed_fillAll record others hscoped.2 hassigned⟩

end

end TemplateNode

namespace SchemaIndex

open Compile

variable {index : SchemaIndex} {roots : List ExpandedName} {visits : List Index.Visit}

/-- The address of an element has no attribute in it. -/
theorem Lists.forall_isAttribute_of_nodeOf? (h : index.Lists roots visits) {address : Address}
    {node : SchemaNode} (hnode : index.nodeOf? address = some node)
    (helement : node.isAttribute = false) :
    ∀ segment ∈ address.segments, segment.isAttribute = false := by
  obtain ⟨haddress, visit, hvisit, hbare⟩ := h.visit_of_nodeOf? hnode
  have habove := h.history.forall_isAttribute_above visit hvisit
  rw [hbare] at habove
  change ∀ segment ∈ node.address.segments.dropLast, segment.isAttribute = false at habove
  rw [haddress] at habove
  have hsegments := Address.forall_isAttribute_of_leaf habove (by
    rw [Address.isAttribute_schemaAddress, (h.isAttribute_of_nodeOf? hnode).2.1, helement])
  intro segment hsegment
  have hschema := hsegments segment.withoutIndex (List.mem_map_of_mem hsegment)
  cases segment with
  | attr name => exact hschema
  | element name index => rfl

/-- Roots do not repeat. -/
theorem Lists.two_le_depth (h : index.Lists roots visits) {address : Address}
    (hrepeating : index.isRepeating address = true) : 2 ≤ address.depth := by
  cases hnode : index.nodeOf? address with
  | none => simp [isRepeating, hnode] at hrepeating
  | some node =>
    obtain ⟨haddress, visit, hvisit, hbare⟩ := h.visit_of_nodeOf? hnode
    have hdepth := h.history.one_lt_depth_or_root hvisit
    rw [hbare] at hdepth
    rcases hdepth with hbelow | ⟨-, honce, halone⟩
    · change 1 < node.address.depth at hbelow
      rw [haddress, Address.depth_schemaAddress] at hbelow
      exact hbelow
    · change node.occurs = .once at honce
      change node.compositor = none at halone
      simp [isRepeating, hnode, SchemaNode.isRepeating, honce, halone, Occurs.once,
        Occurs.isMany, MaxOccurs.isMany] at hrepeating

/-- Only elements repeat, since attributes never do. -/
theorem Lists.iterable (h : index.Lists roots visits)
    (hdepth : ∀ node ∈ index.nodes, node.address.depth ≤ Text.maxWord) : Iterable index := by
  have hfound : ∀ address, index.isRepeating address = true →
      ∃ node, index.nodeOf? address = some node ∧ node.isAttribute = false := by
    intro address hrepeating
    cases hnode : index.nodeOf? address with
    | none => simp [isRepeating, hnode] at hrepeating
    | some node =>
      simp only [isRepeating, hnode, Option.any_some, SchemaNode.isRepeating, Bool.and_eq_true,
        Bool.not_eq_true'] at hrepeating
      exact ⟨node, rfl, hrepeating.1⟩
  refine ⟨fun address hrepeating => ?_, fun address hrepeating => ?_, fun address node hnode => ?_⟩
  · obtain ⟨node, hnode, -⟩ := hfound address hrepeating
    exact (h.isAttribute_of_nodeOf? hnode).1
  · obtain ⟨node, hnode, helement⟩ := hfound address hrepeating
    exact (h.isAttribute_of_nodeOf? hnode).2.1.trans helement
  · have haddress := (h.visit_of_nodeOf? hnode).1
    have hle := hdepth node (List.mem_of_find?_eq_some hnode)
    rw [haddress] at hle
    simpa using hle

end SchemaIndex

/-- A form is filled from nodes that are rendered for the root of a template, in scope of no
variables. -/
structure Form.FilledFrom (form : Form) (scope : Compile.Scope) (record : Instance)
    (nodes : List TemplateNode) : Prop where
  iterable : Compile.Iterable scope.index
  renders : Compile.Renders scope (.shown scope.root) nodes
  inScope : TemplateNode.ScopedAll [] nodes
  filled : form.nodes = TemplateNode.fillAll record [] nodes

/-- The template for an address without variables has all its variables in scope. -/
theorem SchemaIndex.scopedAll_of_compile {set : SchemaSet} {namespaces : InstanceNamespaces}
    {roots : List ExpandedName} {index : SchemaIndex}
    (hbuild : SchemaIndex.build set namespaces roots = .ok index)
    (hdepth : ∀ node ∈ index.nodes, node.address.depth ≤ Text.maxWord)
    {mode : Mode} {address : Address} (hvars : address.vars = []) {compilation : Compilation}
    (hcompile : index.compile mode address = .ok compilation) :
    TemplateNode.ScopedAll [] compilation.template.nodes := by
  obtain ⟨-, -, visits, hlists⟩ := SchemaIndex.exists_lists hbuild
  obtain ⟨-, -, hrenders, -⟩ := SchemaIndex.renders_of_compile hcompile
  have hsiblings : address.siblingPath.vars = address.vars := by
    have hsubset := Address.vars_siblingPath_subset address
    rw [hvars] at hsubset ⊢
    exact List.subset_nil.mp hsubset
  have hscoped := Compile.scopedAll_of_renders (hlists.iterable hdepth) hrenders
    ⟨Address.counted_of_vars_nil hvars, hsiblings⟩
  simpa only [Compile.Task.vars, hvars] using hscoped

theorem SchemaIndex.filledFrom_of_bind {set : SchemaSet} {namespaces : InstanceNamespaces}
    {roots : List ExpandedName} {index : SchemaIndex}
    (hbuild : SchemaIndex.build set namespaces roots = .ok index)
    (hdepth : ∀ node ∈ index.nodes, node.address.depth ≤ Text.maxWord)
    {mode : Mode} {address : Address} (hvars : address.vars = []) {compilation : Compilation}
    (hcompile : index.compile mode address = .ok compilation) {record : Instance} {form : Form}
    (hbind : compilation.template.bind record = .ok form) :
    form.FilledFrom ⟨index, mode, address⟩ record compilation.template.nodes := by
  obtain ⟨-, -, visits, hlists⟩ := SchemaIndex.exists_lists hbuild
  obtain ⟨-, -, hrenders, -⟩ := SchemaIndex.renders_of_compile hcompile
  have hscoped := SchemaIndex.scopedAll_of_compile hbuild hdepth hvars hcompile
  exact ⟨hlists.iterable hdepth, hrenders, hscoped, (Template.bind_eq_ok hscoped hbind).2⟩

/-- The template for an address without variables has all its variables in scope, and the forms that
are filled from it have no variables. -/
theorem compiled_in_scope {set : SchemaSet} {namespaces : InstanceNamespaces}
    {roots : List ExpandedName} {index : SchemaIndex}
    (hbuild : SchemaIndex.build set namespaces roots = .ok index)
    (hdepth : ∀ node ∈ index.nodes, node.address.depth ≤ Text.maxWord)
    {mode : Mode} {address : Address} (hvars : address.vars = []) {compilation : Compilation}
    (hcompile : index.compile mode address = .ok compilation) :
    TemplateNode.ScopedAll [] compilation.template.nodes ∧
      ∀ record form, compilation.template.bind record = .ok form →
        ∀ node ∈ form.walk, ∀ found, node.address? = some found → found.vars = [] := by
  have hscoped := SchemaIndex.scopedAll_of_compile hbuild hdepth hvars hcompile
  refine ⟨hscoped, fun record form hbind => ?_⟩
  obtain ⟨-, hform⟩ := Template.bind_eq_ok hscoped hbind
  rw [Form.walk, hform]
  exact TemplateNode.closed_fillAll record _ hscoped (by simp [TemplateNode.Assigned])

/-- Elements of one name that repeat inside each other. -/
def repeatedInside : SchemaSet :=
  .declaring [.builtin (schemaName "string"),
    .containing [.particle "x" (.anonymous ⟨0⟩) ⟨0, .unbounded⟩],
    .containing [.particle "x" (.anonymous ⟨1⟩) ⟨0, .unbounded⟩]]
    [.unqualified "r" (.anonymous ⟨2⟩)]

def repeatedInsideIndex : SchemaIndex :=
  (SchemaIndex.build repeatedInside .disabled [⟨none, "r"⟩]).toOption.getD default

theorem compiled_in_scope_repeatedInside :
    SchemaIndex.build repeatedInside .disabled [⟨none, "r"⟩] = .ok repeatedInsideIndex ∧
      (∀ node ∈ repeatedInsideIndex.nodes, node.address.depth ≤ Text.maxWord) ∧
      ∃ compilation,
        repeatedInsideIndex.compile .edit (.root (.unprefixed "r")) = .ok compilation ∧
        TemplateNode.ScopedAll [] compilation.template.nodes ∧
        ∀ record form, compilation.template.bind record = .ok form →
          ∀ node ∈ form.walk, ∀ found, node.address? = some found → found.vars = [] := by
  have hbuild : SchemaIndex.build repeatedInside .disabled [⟨none, "r"⟩] =
      .ok repeatedInsideIndex := rfl
  have hdepth : ∀ node ∈ repeatedInsideIndex.nodes, node.address.depth ≤ Text.maxWord := by decide
  have hcompile : repeatedInsideIndex.compile .edit (.root (.unprefixed "r")) = .ok _ :=
    SchemaIndex.compile_of_ended (by decide) (by decide)
  exact ⟨hbuild, hdepth, _, hcompile, compiled_in_scope hbuild hdepth rfl hcompile⟩

end SchemaForms
