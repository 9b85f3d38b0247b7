import SchemaForms.Proofs.Form.Presence
import SchemaForms.Proofs.Form.Ways

/-!
Values of forms for display. A field stands on an iteration if what it shows repeats, under
variables that are all different, so each occurrence in a document has a place of the field, and a
field that is reached is shown there. What is shown is the first element at the place. So a value is
lost where the place does not tell an occurrence from others: under an element that the schema does
not repeat but the document does, and for enumerations, whose values are chosen together and not
iterated.
-/

namespace SchemaForms

namespace Compile

open TemplateNode

variable {scope : Scope}

/-- Where a field can stand in a template: what repeats is on an iteration. -/
structure Scope.Stands (scope : Scope) (address : Address) : Prop where
  isPattern : address.IsPattern
  isIterated : scope.index.isRepeating address = true → address.isIterated = true

/-- What is known of a place where fields are rendered. A recursive node is not on an iteration, but
it is no field. -/
def Task.Stands (scope : Scope) : Task → Prop
  | .occurrence address _ => address.IsPattern ∧
      (scope.index.isRepeating address = true →
        address.isIterated = true ∨ scope.index.isRecursive address = true)
  | .text address _ => scope.Stands address
  | .content here => scope.Stands here
  | .branches here => here.IsPattern
  | .node address => address.IsPattern
  | .shown address => address.IsPattern

/-- All fields of the template stand where a field can stand. -/
def Scope.FieldsStand (scope : Scope) (nodes : List TemplateNode) : Prop :=
  ∀ address label, .field address label ∈ skeleton nodes → scope.Stands address

theorem Task.Stands.expanded {address : Address} {row : Option Row} {node : SchemaNode}
    (h : (Task.occurrence address row).Stands scope) (hnode : scope.node address = .ok node)
    (hexpanded : node.isRecursive = false) : scope.Stands address := by
  refine ⟨h.1, fun hrepeating => (h.2 hrepeating).resolve_right ?_⟩
  simp [SchemaIndex.isRecursive, Scope.node_eq_ok_iff.mp hnode, hexpanded]

theorem fieldsStand_nil : scope.FieldsStand [] := by
  simp [Scope.FieldsStand]

theorem fieldsStand_append {left right : List TemplateNode} (hleft : scope.FieldsStand left)
    (hright : scope.FieldsStand right) : scope.FieldsStand (left ++ right) := by
  intro address label hmem
  rw [skeleton_append] at hmem
  exact (List.mem_append.mp hmem).elim (hleft address label) (hright address label)

theorem fieldsStand_of_skeleton {nodes others : List TemplateNode}
    (h : skeleton others = skeleton nodes) (hnodes : scope.FieldsStand nodes) :
    scope.FieldsStand others := by
  simpa only [Scope.FieldsStand, h] using hnodes

theorem fieldsStand_group (kind : GroupKind) {nodes : List TemplateNode}
    (h : scope.FieldsStand nodes) : scope.FieldsStand [.group kind nodes] :=
  fieldsStand_of_skeleton (skeleton_group kind nodes) h

theorem fieldsStand_guard (test : GuardTest) (target : Address) {nodes : List TemplateNode}
    (h : scope.FieldsStand nodes) : scope.FieldsStand [.guard test target nodes] :=
  fieldsStand_of_skeleton (skeleton_guard test target nodes) h

theorem fieldsStand_itemIteration (address : Address) {nodes : List TemplateNode}
    (h : scope.FieldsStand nodes) : scope.FieldsStand [itemIteration address nodes] := by
  intro found label hmem
  simp only [skeleton_itemIteration, List.mem_cons, reduceCtorEq, false_or] at hmem
  exact h found label hmem

theorem fieldsStand_field {address : Address} {label : Label} {nodes : List TemplateNode}
    (h : scope.Stands address) (hnodes : skeleton nodes = [.field address label]) :
    scope.FieldsStand nodes := by
  intro found caption hmem
  rw [hnodes] at hmem
  obtain ⟨rfl, -⟩ := Mark.field.inj (List.mem_singleton.mp hmem)
  exact h

/-- The occurrences of a node stand on the iteration that is made for them. -/
theorem stands_item {address : Address} {nodes : List TemplateNode} {bound : List String}
    (hscoped : Scoped bound (itemIteration address nodes)) (h : address.IsPattern)
    (hne : address.segments ≠ []) (helement : address.isAttribute = false) (row : Option Row) :
    (Task.occurrence (itemAddress address) row).Stands scope := by
  obtain ⟨hsiblings, hfresh, -⟩ := hscoped
  have hitem := h.item hne helement fun hmem => hfresh (hsiblings hmem)
  exact ⟨hitem.1, fun _ => Or.inl hitem.2⟩

/-- Every field that is rendered stands where a field can stand. -/
theorem fieldsStand_of_renders (hindex : Iterable scope.index) {task : Task}
    {nodes : List TemplateNode} (h : Renders scope task nodes) {bound : List String}
    (hscoped : ScopedAll bound nodes) (hstands : task.Stands scope) :
    scope.FieldsStand nodes := by
  induction h generalizing bound with
  | recursive hnode hrecursive => simp [Scope.FieldsStand, mark?, contents]
  | scalar hnode hexpanded =>
    exact fieldsStand_field (hstands.expanded hnode hexpanded) (skeleton_scalarField _ _ _ _)
  | anything hnode hexpanded =>
    exact fieldsStand_field (hstands.expanded hnode hexpanded) (skeleton_anyField _ _ _)
  | element hnode hexpanded hcontent ih =>
    have hcontentScoped := scopedAll_of_elementGroup hscoped
    exact fieldsStand_of_skeleton (skeleton_elementGroup _ _ _ _)
      (ih hcontentScoped (hstands.expanded hnode hexpanded))
  | textOnly hnode hexpanded htext ih => exact ih hscoped (hstands.expanded hnode hexpanded)
  | restricted => exact fieldsStand_nil
  | value hnode hcontent ih =>
    have hcontentScoped := (scopedAll_append.mp hscoped.1).2
    refine fieldsStand_group _ (fieldsStand_append ?_ (ih hcontentScoped hstands))
    exact fieldsStand_field hstands (skeleton_scalarField _ _ _ _)
  | extended htext hcontent ihtext ihcontent =>
    obtain ⟨hinner, hnodes⟩ := scopedAll_append.mp hscoped.1
    exact fieldsStand_group _
      (fieldsStand_append (ihtext hinner hstands) (ihcontent hnodes hstands))
  | nothing => exact fieldsStand_nil
  | append hleft hright ihleft ihright =>
    obtain ⟨hscopedLeft, hscopedRight⟩ := scopedAll_append.mp hscoped
    exact fieldsStand_append (ihleft hscopedLeft hstands) (ihright hscopedRight hstands)
  | ownText htext ih => exact ih hscoped hstands
  | compositor hcontent ih => exact fieldsStand_group _ (ih hscoped.1 hstands)
  | attributeUse hshown ih => exact ih hscoped (hstands.isPattern.attr _)
  | child hshown ih => exact ih hscoped (hstands.isPattern.child _)
  | alternative hnode ih =>
    exact fieldsStand_guard _ _ (ih hscoped.1.2 (hstands.isPattern.child _))
  | choices hbranches ih => exact ih hscoped hstands.isPattern
  | singlePrompt => exact fieldsStand_of_skeleton (skeleton_singlePrompt _ _ _) fieldsStand_nil
  | repeatedPrompt => exact fieldsStand_of_skeleton (skeleton_repeatedPrompt _ _ _) fieldsStand_nil
  | noBranch => exact fieldsStand_nil
  | branch hnode hname hitem ih =>
    have hiteration := hscoped.1.2.1
    refine fieldsStand_guard _ _ (fieldsStand_itemIteration _ (ih hiteration.2.2.2.2 ?_))
    exact stands_item hiteration (hstands.child _) (by simp [Address.child]) (by simp) _
  | moreBranches hleft hright ihleft ihright =>
    obtain ⟨hscopedLeft, hscopedRight⟩ := scopedAll_append.mp hscoped
    exact fieldsStand_append (ihleft hscopedLeft hstands) (ihright hscopedRight hstands)
  | single hclassified hhead hrepeating hoccurrence ih =>
    refine ih hscoped ⟨hstands, fun hrepeats => Or.inr ?_⟩
    obtain ⟨node, hnode, rfl⟩ := Scope.classify_eq_ok hclassified
    simpa [SchemaIndex.isRecursive, Scope.node_eq_ok_iff.mp hnode, hrepeats] using hrepeating
  | repeating hnode hrecursive hplain hrepeating hitem ih =>
    have hiteration := hscoped.1.2.1
    refine fieldsStand_of_skeleton (skeleton_repeated _ _ _) (fieldsStand_itemIteration _ ?_)
    exact ih hiteration.2.2.2.2 (stands_item hiteration hstands (hindex.ne_nil _ hrepeating)
      (hindex.element _ hrepeating) _)
  | head hnode hrecursive hhead hparent hmembers ih =>
    obtain ⟨hmembersScoped, -⟩ := scopedAll_append.mp hscoped
    refine fieldsStand_append (ih hmembersScoped (hstands.of_parent? hparent)) ?_
    exact fieldsStand_of_skeleton (skeleton_memberControl _ _ _) fieldsStand_nil
  | hidden => exact fieldsStand_nil
  | shown hnode ih =>
    exact fieldsStand_of_skeleton (skeleton_guarded _ _) (ih (scopedAll_of_guarded hscoped) hstands)

end Compile

/-- A field of the form, at a place where the address selects the element, has the element's text as
its value. -/
def Form.ShowsValue (form : Form) (record : Instance) (address : Address) (element : Xml.Element) :
    Prop :=
  ∃ place : Address, place.IsPlaceOf address ∧ element ∈ record.elements place ∧
    ∃ node ∈ form.walk, node.IsFieldAt place (some (Text.trim element.text))

/-- An element that occurs several times repeats, unless it is an enumeration. -/
theorem SchemaNode.isMultiSelect_of_not_isRepeating {node : SchemaNode} {types : TypeTable}
    (helement : node.isElement = true) (hmany : node.occurs.isMany = true)
    (h : node.isRepeating types = false) : node.isMultiSelect types = true := by
  have hattribute : node.isAttribute = false := by
    simp only [isElement, decide_eq_true_eq] at helement
    simp [isAttribute, helement]
  simp only [isRepeating, hattribute, hmany, Bool.not_false, Bool.true_and, Bool.or_eq_false_iff,
    Bool.not_eq_false'] at h
  simp [isMultiSelect, helement, hmany, h.1]

namespace Form

variable {form : Form} {scope : Compile.Scope} {record : Instance} {nodes : List TemplateNode}
  {field : Address}

/-- A form has a field that is reached at each place where something is selected. -/
theorem FilledFrom.hasField (h : form.FilledFrom scope record nodes)
    (hfield : TemplateNode.reachesAll field nodes = true) {place : Address}
    (hplace : place.IsPlaceOf field) (hselects : record.elements place ≠ []) :
    FormNode.HasField record place form.nodes := by
  obtain ⟨bindings, hplaces, rfl⟩ := hplace
  rw [h.filled]
  exact TemplateNode.hasField_fillAll hplaces hselects nodes h.inScope hfield (by simp
    [Bindings.Agree])

variable (hne : field.segments ≠ []) (helement : field.isAttribute = false)
  {element : Xml.Element} (htext : Text.trim element.text ≠ "")

include hne helement htext

/-- The value is shown where the element, or one with the same text, is selected first. -/
theorem FilledFrom.showsValue (h : form.FilledFrom scope record nodes)
    (hfield : TemplateNode.reachesAll field nodes = true) {place : Address}
    (hplace : place.IsPlaceOf field) (hmem : element ∈ record.elements place) {first : Xml.Element}
    (hfirst : (record.elements place).head? = some first)
    (hsame : Text.trim first.text = Text.trim element.text) :
    form.ShowsValue record field element := by
  obtain ⟨node, hnode, hfieldAt⟩ := h.hasField hfield hplace (List.ne_nil_of_mem hmem)
  have hvalue : record.value? place = some (Text.trim element.text) :=
    (Instance.value?_eq_some_iff (hplace.ne_nil hne) (hplace.isAttribute.trans helement)).mpr
      ⟨htext, first, hfirst, hsame⟩
  exact ⟨place, hplace, hmem, node, hnode, hvalue ▸ hfieldAt⟩

theorem FilledFrom.showsValue_iff (h : form.FilledFrom scope record nodes)
    (hfield : TemplateNode.reachesAll field nodes = true) :
    form.ShowsValue record field element ↔ ¬ record.Shadowed field element := by
  constructor
  · rintro ⟨place, hplace, hmem, node, hnode, input, label, controls, rfl⟩ hshadowed
    have hheld : some (Text.trim element.text) = record.value? place := by
      rw [walk, h.filled] at hnode
      exact TemplateNode.held_fillAll record [] nodes _ hnode
    obtain ⟨-, first, hfirst, hsame⟩ := (Instance.value?_eq_some_iff (hplace.ne_nil hne)
      (hplace.isAttribute.trans helement)).mp hheld.symm
    exact hshadowed place hplace hmem first hfirst hsame
  · intro hshadowed
    simp only [Instance.Shadowed, not_forall, ne_eq, not_not] at hshadowed
    obtain ⟨place, hplace, hmem, first, hfirst, hsame⟩ := hshadowed
    exact h.showsValue hne helement htext hfield hplace hmem hfirst hsame

/-- What is single along the field is alone at its place. -/
theorem FilledFrom.showsValue_of_singleAlong (h : form.FilledFrom scope record nodes)
    (hfield : TemplateNode.reachesAll field nodes = true) (hvars : field.vars.Nodup)
    (hmem : element ∈ record.elements field) (hsingle : record.SingleAlong field) :
    form.ShowsValue record field element := by
  obtain ⟨place, hplace, hfound, halone⟩ := Instance.exists_place hvars hmem
  have hfirst : (record.elements place).head? = some element := by
    rw [halone hsingle]
    rfl
  exact h.showsValue hne helement htext hfield hplace hfound hfirst rfl

end Form

/-- A field of a template for display is on an iteration if the element occurs several times, unless
the element is an enumeration whose values are chosen together. It is reached unless there is an
element beside the way that others stand in for. A field that is reached has a place for each
occurrence of an element, and shows the values of those that no other element shadows there. Where
nothing that is not iterated occurs several times, no value is lost. -/
theorem display_shows_value_iff {set : SchemaSet} {namespaces : InstanceNamespaces}
    {roots : List ExpandedName} {index : SchemaIndex}
    (hbuild : SchemaIndex.build set namespaces roots = .ok index)
    (hdepth : ∀ node ∈ index.nodes, node.address.depth ≤ Text.maxWord)
    {address : Address} (hroot : address.depth = 1) (hvars : address.vars = [])
    {compilation : Compilation} (hcompile : index.compile .display address = .ok compilation)
    {record : Instance} {form : Form} (hbind : compilation.template.bind record = .ok form)
    {field : Address} {label : Label} (hfield : .field field label ∈ compilation.template.skeleton)
    {node : SchemaNode} (hnode : index.nodeOf? field = some node)
    (helement : node.isElement = true) (hmany : node.occurs.isMany = true) :
    (field.isIterated = true ∨
      node.isMultiSelect index.set.types = true ∧ node.isRepeating index.set.types = false) ∧
    (index.NoHeadBeside field →
      TemplateNode.reachesAll field compilation.template.nodes = true) ∧
    (TemplateNode.reachesAll field compilation.template.nodes = true →
      ∀ element ∈ record.elements node.address, Text.trim element.text ≠ "" →
        (form.ShowsValue record field element ↔ ¬ record.Shadowed field element) ∧
        (record.SingleAlong field → form.ShowsValue record field element)) := by
  have hform := SchemaIndex.filledFrom_of_bind hbuild hdepth hvars hcompile hbind
  obtain ⟨-, -, visits, hlists⟩ := SchemaIndex.exists_lists hbuild
  obtain ⟨hne, hattribute, -⟩ := hlists.isAttribute_of_nodeOf? hnode
  have hnodeElement : node.isAttribute = false := by
    simp only [SchemaNode.isElement, decide_eq_true_eq] at helement
    simp [SchemaNode.isAttribute, helement]
  have hleaf : field.isAttribute = false := hattribute.trans hnodeElement
  obtain ⟨segment, hsegment⟩ := List.length_eq_one_iff.mp hroot
  have hpattern : address.IsPattern := ⟨by simp [hsegment], by simp [hvars]⟩
  have hstands : Compile.Scope.Stands ⟨index, .display, address⟩ field :=
    Compile.fieldsStand_of_renders hform.iterable hform.renders hform.inScope hpattern _ _ hfield
  refine ⟨?_, fun hbeside => ?_, fun hreached element hmem htext => ⟨?_, fun hsingle => ?_⟩⟩
  · cases hrepeating : node.isRepeating index.set.types with
    | true =>
      left
      apply hstands.isIterated
      simpa [SchemaIndex.isRepeating, hnode] using hrepeating
    | false =>
      right
      exact ⟨SchemaNode.isMultiSelect_of_not_isRepeating helement hmany hrepeating, rfl⟩
  · have helements := hlists.forall_isAttribute_of_nodeOf? hnode hnodeElement
    have hplace : (Compile.Task.shown address).place.segments ≠ [] := by
      simp [Compile.Task.place, hsegment]
    have hreached := Compile.reached_of_renders hform.renders hplace
      (fun _ => hlists.two_le_depth) helements hbeside
    exact (hreached label hfield).2
  · exact hform.showsValue_iff hne hleaf htext hreached
  · have hselected : element ∈ record.elements field := by
      rw [← Instance.elements_schemaAddress hstands.isPattern.noPosition,
        ← (hlists.visit_of_nodeOf? hnode).1]
      exact hmem
    exact hform.showsValue_of_singleAlong hne hleaf htext hreached hstands.isPattern.nodup hselected
      hsingle

def repeatedField : Address :=
  ⟨[.element (.unprefixed "q") none, .element (.unprefixed "a") none,
    .element (.unprefixed "b") (some (.var "bIndex"))]⟩

theorem display_shows_value_iff_twoParents :
    SchemaIndex.build absentInside .disabled [⟨none, "r"⟩, ⟨none, "q"⟩] = .ok absentInsideIndex ∧
      (∀ node ∈ absentInsideIndex.nodes, node.address.depth ≤ Text.maxWord) ∧
      ∃ compilation form label node,
        absentInsideIndex.compile .display (.root (.unprefixed "q")) = .ok compilation ∧
        compilation.template.bind withTwoParents = .ok form ∧
        .field repeatedField label ∈ compilation.template.skeleton ∧
        absentInsideIndex.nodeOf? repeatedField = some node ∧ node.isElement = true ∧
        node.occurs.isMany = true ∧
        (repeatedField.isIterated = true ∨
          node.isMultiSelect absentInsideIndex.set.types = true ∧
            node.isRepeating absentInsideIndex.set.types = false) ∧
        (absentInsideIndex.NoHeadBeside repeatedField →
          TemplateNode.reachesAll repeatedField compilation.template.nodes = true) ∧
        (TemplateNode.reachesAll repeatedField compilation.template.nodes = true →
          ∀ element ∈ withTwoParents.elements node.address, Text.trim element.text ≠ "" →
            (form.ShowsValue withTwoParents repeatedField element ↔
              ¬ withTwoParents.Shadowed repeatedField element) ∧
            (withTwoParents.SingleAlong repeatedField →
              form.ShowsValue withTwoParents repeatedField element)) := by
  have hbuild : SchemaIndex.build absentInside .disabled [⟨none, "r"⟩, ⟨none, "q"⟩] =
      .ok absentInsideIndex := rfl
  have hdepth : ∀ node ∈ absentInsideIndex.nodes, node.address.depth ≤ Text.maxWord := by decide
  have hroot : (Address.root (.unprefixed "q")).depth = 1 := rfl
  have hfield : .field repeatedField ⟨"b", some "bIndex", true⟩ ∈
      (absentInsideIndex.compile .display (.root (.unprefixed "q"))).toOption.elim []
        fun compilation => compilation.template.skeleton := by
    decide
  refine ⟨hbuild, hdepth, _, _, _, _, rfl, rfl, hfield, rfl, rfl, rfl, ?_⟩
  exact display_shows_value_iff hbuild hdepth hroot rfl rfl rfl hfield rfl rfl rfl

/-- The value of a field of a form, if it has one. -/
def FormNode.value? : FormNode → Option String
  | .field _ _ _ value _ => value
  | _ => none

/-- A scalar element that may occur several times and has a field in the template for display, but
occurs in the record with a value that no field of the form has. -/
def SchemaIndex.LosesValue (index : SchemaIndex) (root : Address) (record : Instance)
    (address : Address) : Prop :=
  ∃ compilation form node, index.compile .display root = .ok compilation ∧
    compilation.template.bind record = .ok form ∧ index.node? address = some node ∧
    (node.isElement = true ∧ (index.set.types.definition node.type).isComplex = false ∧
      node.occurs.isMany = true) ∧
    (∃ mark ∈ compilation.template.skeleton,
      ∃ field ∈ mark.fieldAddress?, field.schemaAddress = address) ∧
    ∃ element ∈ record.elements address, Text.trim element.text ≠ "" ∧
      ∀ node ∈ form.walk, node.value? ≠ some (Text.trim element.text)

/-- An enumeration that occurs several times, and a choice of an element for which another one
stands in that has a stand-in itself. -/
def oftenChosen : SchemaSet :=
  { SchemaSet.declaring [.builtin (schemaName "string"),
      .simple ⟨none, 0, .restriction (.anonymous ⟨0⟩) ["red", "blue"]⟩,
      .containing [.particle "color" (.anonymous ⟨1⟩) ⟨1, .unbounded⟩],
      .containing [.compositor .choice .once
        [.element (.globally ⟨none, "h"⟩ "h" 0) ⟨1, .unbounded⟩]]]
      [.unqualified "colors" (.anonymous ⟨2⟩), .unqualified "choice" (.anonymous ⟨3⟩),
        ⟨⟨none, "h"⟩, 0, .anonymous ⟨0⟩, true, none⟩,
        ⟨⟨none, "m"⟩, 0, .anonymous ⟨0⟩, false, some ⟨none, "h"⟩⟩,
        ⟨⟨none, "k"⟩, 0, .anonymous ⟨0⟩, false, some ⟨none, "m"⟩⟩] with
    members := [(⟨none, "h"⟩, [⟨none, "m"⟩]), (⟨none, "m"⟩, [⟨none, "k"⟩])] }

def oftenChosenIndex : SchemaIndex :=
  (SchemaIndex.build oftenChosen .disabled [⟨none, "colors"⟩, ⟨none, "choice"⟩]).toOption.getD
    default

def withTwoColors : Instance :=
  ⟨.plain "colors" "" [.plain "color" "red" [], .plain "color" "blue" []], .disabled⟩

def withStandIn : Instance := ⟨.plain "choice" "" [.plain "k" "1" []], .disabled⟩

/-- The second color is lost, since one field is made for all of them, and so is the element below
the second of two parents, and the element that is behind a guard for another one. -/
theorem display_loses_value :
    SchemaIndex.build oftenChosen .disabled [⟨none, "colors"⟩, ⟨none, "choice"⟩] =
        .ok oftenChosenIndex ∧
      oftenChosenIndex.LosesValue (.root (.unprefixed "colors")) withTwoColors
        ((Address.root (.unprefixed "colors")).child (.unprefixed "color")) ∧
      SchemaIndex.build absentInside .disabled [⟨none, "r"⟩, ⟨none, "q"⟩] =
        .ok absentInsideIndex ∧
      absentInsideIndex.LosesValue (.root (.unprefixed "q")) withTwoParents
        (((Address.root (.unprefixed "q")).child (.unprefixed "a")).child (.unprefixed "b")) ∧
      oftenChosenIndex.LosesValue (.root (.unprefixed "choice")) withStandIn
        ((Address.root (.unprefixed "choice")).child (.unprefixed "k")) := by
  refine ⟨rfl, ⟨_, _, _, rfl, rfl, rfl, ?_⟩, rfl, ⟨_, _, _, rfl, rfl, rfl, ?_⟩,
    ⟨_, _, _, rfl, rfl, rfl, ?_⟩⟩
  · decide
  · decide
  · decide

end SchemaForms
