import SchemaForms.Proofs.Form.Reaching
import SchemaForms.Proofs.Form.Repeating
import SchemaForms.Proofs.Form.Starting
import SchemaForms.Proofs.Namespaces.Wildcard

/-!
Rows of iterations. An iteration counts what is selected at its siblings, and the address of a row
selects by position. Below one parent both go through the same children, so the rows stand for the
elements one by one, and what a row shows at its own address is the text of its element. The rows
share one map of variables with the iterations inside of them, which leave the variables around them
as they are.
-/

namespace SchemaForms

namespace Instance

variable {record : Instance}

theorem pick_position {elements : List Xml.Element} {i : Nat} (h : i < elements.length) :
    pick (some (.position (i + 1))) elements = [elements[i]] := by
  rw [pick, Nat.add_sub_cancel, List.drop_eq_getElem_cons h]
  rfl

section OneParent

variable {place : Address} {parent : Xml.Element} (hplace : place.IsElementPath)
  (hone : record.elements place = [parent]) (name : PrefixedName)

include hplace hone

theorem elements_child_of_one :
    record.elements (place.child name) = record.childrenNamed name parent := by
  rw [elements_child hplace, hone, List.flatMap_singleton]

theorem count_child_of_one :
    record.count (place.child name) = (record.childrenNamed name parent).length := by
  rw [count_child, elements_child_of_one hplace hone]

/-- A position below one parent is a position among the children of the name. -/
theorem elements_position_of_one (number : Nat) :
    record.elements ((place.child name).withIndex (.position number)) =
      pick (some (.position number)) (record.childrenNamed name parent) := by
  obtain ⟨hne, helements⟩ := hplace
  obtain ⟨first, others, hsegments⟩ := List.exists_cons_of_ne_nil hne
  rw [hsegments, List.forall_mem_cons] at helements
  have hitem : ((place.child name).withIndex (.position number)).segments =
      first :: (others ++ [.element name (some (.position number))]) := by
    rw [Address.withIndex, Address.child, Address.setLeafIndex_append, hsegments]
    rfl
  simp only [elements, hsegments] at hone
  simp only [elements, hitem]
  split at hone
  · rename_i hroot
    rw [if_pos hroot, descend_concat helements.2, hone, List.flatMap_singleton]
  · contradiction

theorem elements_row_of_one {i : Nat} (h : i < (record.childrenNamed name parent).length) :
    record.elements ((place.child name).withIndex (.position (i + 1))) =
      [(record.childrenNamed name parent)[i]] := by
  rw [elements_position_of_one hplace hone, pick_position h]

end OneParent

/-- Where an element is selected alone, its text without the blanks around it is the value. -/
theorem value?_of_one {place : Address} {element : Xml.Element}
    (helement : place.isAttribute = false) (hone : record.elements place = [element]) :
    record.value? place =
      if Text.trim element.text = "" then none else some (Text.trim element.text) := by
  have hne : place.segments ≠ [] := by
    intro hnil
    simp [elements, hnil] at hone
  split
  · rename_i hblank
    refine Option.eq_none_iff_forall_ne_some.mpr fun text htext => ?_
    obtain ⟨hne, first, hfirst, htrim⟩ := (value?_eq_some_iff hne helement).mp htext
    rw [hone] at hfirst
    obtain rfl := Option.some.inj hfirst
    exact hne (htrim.symm.trans hblank)
  · rename_i hvisible
    exact (value?_eq_some_iff hne helement).mpr ⟨hvisible, element, by rw [hone]; rfl, rfl⟩

/-- The row stands for the element. It is made with its number for the variable of the iteration,
its address selects the element and nothing else, and a field at this address has the text of the
element as its value, or none if the text is blank. -/
structure IsRowOf (record : Instance) (address : Address) (contents : List TemplateNode)
    (bindings : Bindings) (number : Nat) (element : Xml.Element) (row : FormNode) : Prop where
  made : row = .row number
    ((Compile.itemAddress address).substitute
      (bindings.insert (Compile.itemVariable address) number))
    (TemplateNode.fillAll record (bindings.insert (Compile.itemVariable address) number) contents)
  selects : record.elements ((Compile.itemAddress address).substitute
    (bindings.insert (Compile.itemVariable address) number)) = [element]
  shows : ∀ node ∈ row.walk, ∀ value,
    node.IsFieldAt ((Compile.itemAddress address).substitute
      (bindings.insert (Compile.itemVariable address) number)) value →
    value = if Text.trim element.text = "" then none else some (Text.trim element.text)

/-- The rows stand for the elements, one for each, in their order and numbered from one. -/
structure AreRowsOf (record : Instance) (address : Address) (contents : List TemplateNode)
    (bindings : Bindings) (elements : List Xml.Element) (rows : List FormNode) : Prop where
  length_eq : rows.length = elements.length
  row : ∀ (i : Nat) (hrow : i < rows.length) (helement : i < elements.length),
    record.IsRowOf address contents bindings (i + 1) elements[i] rows[i]

end Instance

namespace SchemaIndex

/-- With room for the numbers of variables above a base, only elements repeat, and there is room in
every address of the index. -/
theorem iterable_of_build {set : SchemaSet} {namespaces : InstanceNamespaces}
    {roots : List ExpandedName} {index : SchemaIndex}
    (hbuild : SchemaIndex.build set namespaces roots = .ok index) {base : Nat}
    (hroom : ∀ node ∈ index.nodes, base + node.address.depth ≤ Text.maxWord) :
    Compile.Iterable index ∧ ∀ address node, index.nodeOf? address = some node →
      base + address.depth ≤ Text.maxWord := by
  obtain ⟨-, -, visits, hlists⟩ := exists_lists hbuild
  refine ⟨hlists.iterable fun node hmem => ?_, fun address node hnode => ?_⟩
  · have hfit := hroom node hmem
    omega
  · have hfit := hroom node (List.mem_of_find?_eq_some hnode)
    rwa [(hlists.visit_of_nodeOf? hnode).1, Address.depth_schemaAddress] at hfit

/-- An indexed address that is no attribute's is the path of an element. -/
theorem isElementPath_of_build {set : SchemaSet} {namespaces : InstanceNamespaces}
    {roots : List ExpandedName} {index : SchemaIndex}
    (hbuild : SchemaIndex.build set namespaces roots = .ok index) {address : Address}
    {node : SchemaNode} (hnode : index.nodeOf? address = some node)
    (helement : address.isAttribute = false) : address.IsElementPath := by
  obtain ⟨-, -, visits, hlists⟩ := exists_lists hbuild
  obtain ⟨hne, hattribute, -⟩ := hlists.isAttribute_of_nodeOf? hnode
  exact ⟨hne, hlists.forall_isAttribute_of_nodeOf? hnode (hattribute.symm.trans helement)⟩

end SchemaIndex

namespace Address

variable {address parent : Address}

theorem IsElementPath.substitute (h : address.IsElementPath) (bindings : Bindings) :
    (address.substitute bindings).IsElementPath := by
  refine ⟨by simpa [Address.substitute] using h.1, fun segment hsegment => ?_⟩
  obtain ⟨held, hheld, rfl⟩ := List.mem_map.mp hsegment
  rw [Segment.isAttribute_substitute]
  exact h.2 held hheld

theorem IsElementPath.of_parent? (h : address.IsElementPath)
    (hparent : address.parent? = some parent) : parent.IsElementPath := by
  obtain ⟨hne, leaf, hsegments⟩ := segments_of_parent? hparent
  exact ⟨hne, fun segment hsegment => h.2 segment (hsegments ▸ List.mem_append_left _ hsegment)⟩

theorem IsElementPath.child (h : address.IsElementPath) (name : PrefixedName) :
    (address.child name).IsElementPath := by
  refine ⟨by simp [Address.child], fun segment hsegment => ?_⟩
  rcases List.mem_append.mp hsegment with habove | hleaf
  · exact h.2 segment habove
  · obtain rfl := List.mem_singleton.mp hleaf
    rfl

theorem substitute_child (address : Address) (name : PrefixedName) (bindings : Bindings) :
    (address.child name).substitute bindings = (address.substitute bindings).child name := by
  simp [Address.substitute, child, Segment.substitute]

end Address

namespace Compile

open TemplateNode FormNode

variable {scope : Scope}

/-- Below one parent, the rows of an iteration stand for the elements at its siblings. -/
theorem areRowsOf_fill {address parent : Address} {contents : List TemplateNode}
    {bound : List String} (hscoped : Scoped bound (itemIteration address contents))
    (hparent : address.parent? = some parent) (hpath : address.IsElementPath) {record : Instance}
    {bindings : Bindings} {element : Xml.Element}
    (hone : record.elements (parent.substitute bindings) = [element]) :
    record.AreRowsOf address contents bindings
      (record.elements (address.siblingPath.substitute bindings))
      (fill record bindings (itemIteration address contents)) := by
  have helement := Address.isAttribute_eq_false hpath.2
  obtain ⟨name, hsiblings, -⟩ := Address.siblingPath_of_parent? hparent helement
  have hplace : address.siblingPath.substitute bindings =
      (parent.substitute bindings).child name := by
    rw [hsiblings, Address.substitute_child]
  have hparentPath := (hpath.of_parent? hparent).substitute bindings
  have hchildren := Instance.elements_child_of_one hparentPath hone name
  have hcount := Instance.count_child_of_one hparentPath hone name
  rw [Scope.fill_itemIteration hscoped, hplace, hcount, hchildren]
  refine ⟨by simp, fun i hrow hchild => ?_⟩
  have hitem := substitute_itemAddress hscoped bindings (i + 1)
  have hselects : record.elements ((itemAddress address).substitute
      (bindings.insert (itemVariable address) (i + 1))) =
        [(record.childrenNamed name element)[i]] := by
    rw [hitem, hplace]
    exact Instance.elements_row_of_one hparentPath hone name hchild
  have hmade : ((List.range' 1 (record.childrenNamed name element).length).map
      (occurrence ((parent.substitute bindings).child name) fun number =>
        fillAll record (bindings.insert (itemVariable address) number) contents))[i] =
      .row (i + 1) ((itemAddress address).substitute
        (bindings.insert (itemVariable address) (i + 1)))
        (fillAll record (bindings.insert (itemVariable address) (i + 1)) contents) := by
    simp [occurrence, hitem, hplace, Nat.add_comm]
  refine ⟨hmade, hselects, ?_⟩
  rintro node hnode value ⟨input, label, controls, rfl⟩
  rw [hmade, walk_eq] at hnode
  have hheld : value = record.value? ((itemAddress address).substitute
      (bindings.insert (itemVariable address) (i + 1))) :=
    held_fillAll record _ contents _ ((List.mem_cons.mp hnode).resolve_left (by simp))
  rw [hheld, Instance.value?_of_one ?_ hselects]
  rw [hitem, hplace]
  simp [Address.isAttribute, Address.leaf?, Address.withIndex, Address.child,
    Address.setLeafIndex_append, Segment.withIndex, Segment.isAttribute]

/-- Wherever the parent of the siblings selects one element, the rows of an iteration stand for the
elements that the siblings select: one row for each, in document order, whose address selects this
element alone and whose fields show its text. -/
theorem iteration_rows {set : SchemaSet} {namespaces : InstanceNamespaces}
    {roots : List ExpandedName} {scope : Scope}
    (hbuild : SchemaIndex.build set namespaces roots = .ok scope.index) {base : Nat}
    (hroom : ∀ node ∈ scope.index.nodes, base + node.address.depth ≤ Text.maxWord)
    {address parent : Address} (hcounted : address.siblingPath.CountedFrom base)
    (helement : address.isAttribute = false) {classification : Classification}
    (hclassified : scope.classify address = .ok classification) {isCollapsible : Bool}
    {levels : Nat} {iterated : TemplateNode}
    (hmade : (iteration (scope.render levels) address isCollapsible
      classification.shape).run.value = .ok iterated)
    (record : Instance) (bindings : Bindings) (hparent : address.parent? = some parent)
    {element : Xml.Element} (hone : record.elements (parent.substitute bindings) = [element]) :
    ∃ contents, iterated =
        .iteration address.siblingPath (itemVariable address) (itemAddress address) contents ∧
      record.AreRowsOf address contents bindings
        (record.elements (address.siblingPath.substitute bindings))
        ((bind record iterated).run bindings).1 := by
  obtain ⟨hiterable, hspace⟩ := SchemaIndex.iterable_of_build hbuild hroom
  obtain ⟨node, hnode, rfl⟩ := Scope.classify_eq_ok hclassified
  have hfound := Scope.node_eq_ok_iff.mp hnode
  have hpath := SchemaIndex.isElementPath_of_build hbuild hfound helement
  have hrendered := (Scope.yields_iteration (scope.faithful_render_honest levels) address
    (Nat.zero_le _) isCollapsible hnode).value
  rw [hmade] at hrendered
  obtain ⟨contents, rfl, hcontents⟩ := hrendered
  have hdepth := hspace address node hfound
  have hready := (item_ready hcounted hdepth hpath.1 helement isCollapsible).1
  have hscoped := scoped_itemIteration hcounted hdepth hpath.1 helement
    (scopedAll_of_renders_from hiterable hspace hcontents hready)
  refine ⟨contents, rfl, ?_⟩
  rw [(fills_bindNode record _ hscoped bindings fun _ _ => rfl).1]
  exact areRowsOf_fill hscoped hparent hpath hone

/-- Two elements of one name. In the second there are three more, one of them blank, between others
of another name. -/
def mixedInside : Instance :=
  ⟨.plain "r" "" [.plain "x" "" [.plain "x" "1" []],
    .plain "x" "" [.plain "x" " 2 " [], .plain "y" "3" [], .plain "x" " " [], .plain "y" "5" [],
      .plain "x" "6" []]], .disabled⟩

/-- Below the second row the three rows stand for the elements of their name alone. -/
theorem iteration_rows_mixedInside :
    SchemaIndex.build repeatedInside .disabled [⟨none, "r"⟩] = .ok repeatedInsideIndex ∧
    (∀ node ∈ repeatedInsideIndex.nodes, 0 + node.address.depth ≤ Text.maxWord) ∧
    addressInside.siblingPath.CountedFrom 0 ∧ addressInside.isAttribute = false ∧
    ∃ classification iterated contents parent element,
      scopeInside.classify addressInside = .ok classification ∧
      (iteration (scopeInside.render 3) addressInside false classification.shape).run.value =
        .ok iterated ∧
      addressInside.parent? = some parent ∧
      mixedInside.elements (parent.substitute [("xIndex", 2)]) = [element] ∧
      mixedInside.AreRowsOf addressInside contents [("xIndex", 2)]
        [.plain "x" " 2 " [], .plain "x" " " [], .plain "x" "6" []]
        ((bind mixedInside iterated).run [("xIndex", 2)]).1 := by
  have hbuild : SchemaIndex.build repeatedInside .disabled [⟨none, "r"⟩] =
      .ok repeatedInsideIndex := rfl
  have hroom : ∀ node ∈ repeatedInsideIndex.nodes, 0 + node.address.depth ≤ Text.maxWord := by
    decide
  have helement : addressInside.isAttribute = false := by decide
  have hclassified : scopeInside.classify addressInside = .ok ⟨.simple, false, true⟩ := rfl
  have hmade : (iteration (scopeInside.render 3) addressInside false .simple).run.value = .ok _ :=
    rfl
  let parent : Address :=
    ⟨[.element (.unprefixed "r") none, .element (.unprefixed "x") (some (.var "xIndex"))]⟩
  have hparent : addressInside.parent? = some parent := rfl
  have hone : mixedInside.elements (parent.substitute [("xIndex", 2)]) = [_] := rfl
  obtain ⟨contents, -, hrows⟩ := iteration_rows hbuild hroom countedFrom_addressInside helement
    hclassified hmade mixedInside [("xIndex", 2)] hparent hone
  exact ⟨hbuild, hroom, countedFrom_addressInside, helement, _, _, contents, _, _, hclassified,
    hmade, hparent, hone, hrows⟩

end Compile

end SchemaForms
