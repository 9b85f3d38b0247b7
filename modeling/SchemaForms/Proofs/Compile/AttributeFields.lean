import SchemaForms.Proofs.Compile.Tallies
import SchemaForms.Proofs.Index.Attributes
import SchemaForms.Proofs.Template.Boxes

/-!
How often an attribute is shown. The index describes an attribute once, however often the content of
an element declares it. The template has a field for each declaration that it comes across, so two
groups that share a third one show the attributes of that twice.
-/

namespace SchemaForms

namespace Compile

open TemplateNode

namespace Scope

variable {scope : Scope} {parent here : Address} {name : PrefixedName} {render : Renderer}
  {constructs : List Construct}

/-- What a content model shows inside an element, with so many steps along the bases left. -/
def renderModel (scope : Scope) (each : ConstructRenderer) (here : Address) (steps : Nat) :
    ContentModel → Attempt (List TemplateNode)
  | .constructs content => renderAll each here content
  | .derived derivation => scope.renderDerivation each here steps derivation
  | .textOnly derivation =>
    scope.renderText each here none TypeTable.maxDerivationDepth derivation

section Derivations

variable {node : SchemaNode} {each : ConstructRenderer} {shows : Construct → Prop}
  {derivation : Derivation} {model : ContentModel} {steps : Nat}
  (hnode : scope.node here = .ok node) (helement : node.kind = .element)
  (hexpanded : node.isRecursive = false) (hhere : here.schemaAddress = parent)
  (hset : scope.index.set.Shows shows)
  (heach : ∀ construct, shows construct →
    scope.Tallies parent name [construct] (Attempt.orSkip here (each construct)).value)

include hnode helement hexpanded hhere hset heach

/-- The text is no attribute; beside it, the constructs are shown along the bases. -/
theorem makes_renderText (row : Option Row)
    (h : scope.index.set.ShowsBesideText steps derivation constructs)
    (hchildren : ∀ child ∈ derivation.children, shows child) :
    (scope.renderText each here row steps derivation).Makes
      (scope.Tallies parent name constructs) := by
  have hown : ∀ children text inherited, (∀ child ∈ children, shows child) →
      scope.Tallies parent name inherited text →
        (do
          let others ← liftM (renderAll each here children)
          return [.group .box (text ++ others)] : Attempt (List TemplateNode)).Makes
            (scope.Tallies parent name (inherited ++ children)) := by
    intro children text inherited hshows htext
    refine .bind (.lift (tallies_renderAll fun child hchild =>
      heach child (hshows child hchild))) fun others hothers => .pure ?_
    exact (htext.append hothers).congr (fieldsFor_congr (fieldAddresses_group _ _))
  induction h with
  | restricted =>
    exact .bind (P := fun _ => True) (.lift trivial) fun _ _ => .pure (tallies_nil _ _ _)
  | @value steps base type children hbase hvalue =>
    have htype : scope.baseType here base = .ok type := by
      simp [baseType, types, hbase]
    refine .lookup htype (.lookup hnode ?_)
    split
    · rename_i inner htext
      have hfound : (Shape.ofNode scope.types node type).model? = some (.textOnly inner) := by
        rw [htext]
        rfl
      obtain ⟨-, complex, hcomplex, hmodel⟩ := Shape.exists_model hfound
      exact absurd hmodel (hvalue complex inner hcomplex)
    · refine .bind (P := scope.Tallies parent name []) (.pure ?_) fun text htext =>
        hown children text [] hchildren htext
      refine ⟨[], .nil, fieldsFor_eq_zero ?_⟩
      rw [fieldAddresses_scalarField]
      rintro _ hsame heq
      rw [List.mem_singleton.mp hsame, hhere] at heq
      have hdepth := congrArg Address.depth heq
      simp at hdepth
  | @extended steps base type inner derivation inherited children hbase hinner hmodel _ ih =>
    have htype : scope.baseType here base = .ok type := by
      simp [baseType, types, hbase]
    refine .lookup htype (.lookup hnode ?_)
    have htext : Shape.ofNode scope.types node type = .textOnly derivation := by
      simp [Shape.ofNode, hexpanded, helement, types, hinner, Shape.ofDefinition, hmodel]
    rw [htext]
    have hshows := hset type inner hinner
    rw [hmodel] at hshows
    exact .bind (ih hshows) fun text htext => hown children text inherited hchildren htext

theorem makes_renderModel (h : scope.index.set.ShowsContent steps model constructs)
    (hshows : ∀ child ∈ model.shown, shows child) :
    (scope.renderModel each here steps model).Makes (scope.Tallies parent name constructs) := by
  have hall : ∀ {content : List Construct}, (∀ child ∈ content, shows child) →
      scope.Tallies parent name content (renderAll each here content).value := fun hcontent =>
    tallies_renderAll fun child hchild => heach child (hcontent child hchild)
  have hown : ∀ {children inherited : List Construct} {nodes : List TemplateNode},
      (∀ child ∈ children, shows child) → scope.Tallies parent name inherited nodes →
        (do
          let others ← liftM (renderAll each here children)
          return nodes ++ others : Attempt (List TemplateNode)).Makes
            (scope.Tallies parent name (inherited ++ children)) := fun hchildren hnodes =>
    .bind (.lift (hall hchildren)) fun others hothers => .pure (hnodes.append hothers)
  induction h with
  | constructs => exact .lift (hall hshows)
  | textOnly h => exact makes_renderText hnode helement hexpanded hhere hset heach none h hshows
  | @restated steps base children =>
    have hrestated : (do
        Attempt.note here .restatedContent
        liftM (renderAll each here children) : Attempt (List TemplateNode)).Makes
          (scope.Tallies parent name children) :=
      .bind (P := fun _ => True) (.lift trivial) fun _ _ => .lift (hall hshows)
    cases steps with
    | zero => exact hrestated
    | succ steps => exact hrestated
  | @ofSimple steps base type children hbase hsimple =>
    have htype : scope.baseType here base = .ok type := by
      simp [baseType, types, hbase]
    refine .lookup htype ?_
    have hnone := tallies_nil scope parent name
    cases hdefinition : scope.types.definition type with
    | complex complex =>
      rw [types] at hdefinition
      simp [hdefinition, TypeDefinition.isComplex] at hsimple
    | _ => exact .bind (.pure hnone) fun nodes hnodes => hown hshows hnodes
  | @extended steps base type inner inherited children hbase hinner _ ih =>
    have htype : scope.baseType here base = .ok type := by
      simp [baseType, types, hbase]
    refine .lookup htype ?_
    have hdefinition : scope.types.definition type = .complex inner := hinner
    have hinherited := ih (hset type inner hinner)
    simp only [hdefinition]
    cases hmodel : inner.model with
    | _ =>
      rw [hmodel] at hinherited
      exact .bind hinherited fun nodes hnodes => hown hshows hnodes

end Derivations

theorem makes_renderElement {row : Option Row} {content : Attempt (List TemplateNode)}
    {node : SchemaNode} (hnode : scope.node here = .ok node)
    (hcontent : content.Makes (scope.Tallies parent name constructs)) :
    (scope.renderElement here row content).Makes (scope.Tallies parent name constructs) := by
  refine .lookup hnode (.bind hcontent fun nodes hnodes => ?_)
  have hgroup : scope.Tallies parent name constructs [scope.elementGroup here node row nodes] :=
    hnodes.congr (fieldsFor_congr (fieldAddresses_elementGroup here node nodes row))
  unfold elementGroup at hgroup
  split at hgroup
  · rename_i hroot
    simp only [hroot, if_true]
    exact .pure hgroup
  · rename_i hroot
    simp only [hroot]
    exact .pure hgroup

section Elements

variable {levels : Nat} {node : SchemaNode} {complex : ComplexType}
  (hgroups : scope.index.set.GroupsEnd) (htop : scope.index.set.derivesOnTop = true)
  (hknows : scope.KnowsAttribute (parent.attr name)) (helement : node.kind = .element)
  (hexpanded : node.isRecursive = false)
  (hcomplex : scope.types.definition node.type = .complex complex)
  (hcontent : scope.index.set.ShowsContent TypeTable.maxDerivationDepth complex.model constructs)

include hgroups htop hknows helement hexpanded hcomplex hcontent

theorem makes_render (hhere : here.schemaAddress = parent) (hnode : scope.node here = .ok node)
    (row : Option Row) :
    (scope.render (levels + 2) here row (.ofNode scope.types node node.type)).Makes
      (scope.Tallies parent name constructs) := by
  have hset := (nesting_ordinary hgroups htop).types
  have heach : ∀ construct, scope.index.set.Fits scope.constructDepth construct →
      scope.Tallies parent name [construct]
        (scope.shown (scope.render (levels + 1)) here scope.constructDepth construct).value :=
    tallies_shown hgroups htop hknows hhere scope.constructDepth
  have hshows := hset node.type complex hcomplex
  have hmade := makes_renderModel hnode helement hexpanded hhere hset heach hcontent hshows
  have hshape : Shape.ofNode scope.types node node.type = .ofDefinition (.complex complex) := by
    simp [Shape.ofNode, hexpanded, helement, hcomplex]
  rw [hshape, Shape.ofDefinition]
  cases hmodel : complex.model with
  | constructs content =>
    rw [hmodel] at hmade
    exact makes_renderElement hnode hmade
  | derived derivation =>
    rw [hmodel] at hmade
    exact makes_renderElement hnode hmade
  | textOnly derivation =>
    rw [hmodel] at hcontent hshows
    cases hcontent with
    | textOnly htext =>
      exact makes_renderText hnode helement hexpanded hhere hset heach row htext hshows

/-- An element that nothing stands in for is shown with the attributes that its content shows. -/
theorem tallies_renderGuarded (hplain : node.isSubstitutionHead = false)
    (hhere : here.schemaAddress = parent) (hnode : scope.node here = .ok node) :
    scope.Tallies parent name constructs
      (scope.renderGuarded (scope.render (levels + 2)) here).value := by
  have hmade : ∀ address row, address.schemaAddress = here.schemaAddress →
      (scope.render (levels + 2) address row (.ofNode scope.types node node.type)).Makes
        (scope.Tallies parent name constructs) := by
    intro address row haddress
    have hother : scope.node address = .ok node := by
      rw [node_eq_ok_iff] at hnode ⊢
      rwa [SchemaIndex.nodeOf?, haddress]
    exact makes_render hgroups htop hknows helement hexpanded hcomplex hcontent
      (haddress.trans hhere) hother row
  obtain ⟨shown, hshown, hsame⟩ := (makes_renderNode hnode hexpanded hplain hmade).orSkip here
  exact hshown.congr ((fieldsFor_congr (fieldAddresses_renderGuarded here)).trans
    (fieldsFor_congr hsame))

end Elements

end Scope

end Compile

theorem Template.fields_eq (template : Template) :
    template.fields = TemplateNode.fieldAddresses template.nodes := by
  simp only [Template.fields, Template.walk, TemplateNode.fieldAddresses, TemplateNode.skeleton,
    List.filterMap_filterMap]
  refine List.filterMap_congr fun node _ => ?_
  cases node <;> rfl

open Compile in
/-- Each attribute among the children of an element has as many fields in its template as the
content shows uses of its name: one field exactly if it is declared once there. -/
theorem attribute_fields_eq_uses {set : SchemaSet} {namespaces : InstanceNamespaces}
    {roots : List ExpandedName} {index : SchemaIndex} (hgroups : set.GroupsEnd)
    (htop : set.derivesOnTop = true) (hbuild : SchemaIndex.build set namespaces roots = .ok index)
    (mode : Mode) {address : Address} {node : SchemaNode} {complex : ComplexType}
    {constructs : List Construct} (hnode : index.nodeOf? address = some node)
    (helement : node.kind = .element) (hexpanded : node.isRecursive = false)
    (hplain : node.isSubstitutionHead = false)
    (hcomplex : set.types.definition node.type = .complex complex)
    (hcontent : set.ShowsContent TypeTable.maxDerivationDepth complex.model constructs) :
    ∃ compilation, index.compile mode address = .ok compilation ∧
      ∀ child ∈ node.children, child.isAttribute = true →
        ∃ name, child = node.address.attr name ∧ (∃ uses, set.ShowsUses constructs uses) ∧
          ∀ uses, set.ShowsUses constructs uses →
            compilation.template.fields.countP (·.schemaAddress = child) =
              uses.countP fun use => (index.attributeName use).toOption = some name := by
  have hindexed : (index.nodeOf? address).isSome := by simp [hnode]
  obtain ⟨compilation, hcompile⟩ := SchemaIndex.isOk_compile hgroups htop hbuild mode hindexed
  refine ⟨compilation, hcompile, fun child hchild hattribute => ?_⟩
  obtain ⟨-, -, rfl⟩ := SchemaIndex.compile_eq_ok_iff.mp hcompile
  obtain ⟨rfl, -, visits, hlists⟩ := SchemaIndex.exists_lists hbuild
  have hmem := List.mem_of_find?_eq_some hnode
  have haddress : node.address = address.schemaAddress := by simpa using List.find?_some hnode
  obtain ⟨name, own, rfl, hown, hkind, hownExpanded⟩ :=
    SchemaIndex.attribute_of_children hbuild hmem hchild hattribute
  let scope : Compile.Scope := ⟨index, mode, address⟩
  have hknows : scope.KnowsAttribute (node.address.attr name) := ⟨own, hown, hkind, hownExpanded⟩
  obtain ⟨levels, hlevels⟩ : ∃ levels, index.height = levels + 2 := by
    have hfound : index.nodeOf? (address.attr name) = some own := by
      rwa [SchemaIndex.nodeOf?, Address.schemaAddress_attr, ← haddress]
    have hlow := Scope.depth_le_height hfound
    obtain ⟨visit, hvisit, -, hsame⟩ := hlists.exists_visit_of_node? hnode
    have hne := List.length_pos_iff.mpr (hlists.history.sound visit hvisit).ne_nil
    have hpos : 0 < address.depth := by
      rw [← Address.depth_schemaAddress, ← hsame]
      exact hne
    rw [Address.depth_attr] at hlow
    exact ⟨index.height - 2, by omega⟩
  obtain ⟨shown, hshown, hcount⟩ : scope.Tallies node.address name constructs
      (scope.renderGuarded (scope.render (levels + 2)) address).value :=
    Scope.tallies_renderGuarded hgroups htop hknows helement hexpanded hcomplex hcontent hplain
      haddress.symm (Scope.node_eq_ok_iff.mpr hnode)
  refine ⟨name, rfl, ⟨shown, hshown⟩, fun uses huses => ?_⟩
  rw [Template.fields_eq, SchemaIndex.rendered, hlevels]
  exact hcount.trans ((hshown.perm huses).countP_eq _)

/-- An optional attribute of the simple type. -/
def optionalAttribute (name : String) : Construct :=
  .attributeUse ⟨⟨none, name⟩, name, 0, false, .anonymous ⟨0⟩, false⟩

/-- A type with two groups that share a third one, extended by an attribute. -/
def sharingGroups : SchemaSet :=
  { SchemaSet.declaring [.builtin (schemaName "string"),
      .containing [.attributeGroup ⟨none, "g1"⟩, .attributeGroup ⟨none, "g2"⟩],
      .containing [.complexContent .extension (.anonymous ⟨1⟩) [optionalAttribute "b"]]]
      [.unqualified "r" (.anonymous ⟨2⟩)] with
    attributeGroups := [
      (⟨none, "g1"⟩, ⟨⟨none, "g1"⟩, 0, [.attributeGroup ⟨none, "n"⟩]⟩),
      (⟨none, "g2"⟩, ⟨⟨none, "g2"⟩, 0, [.attributeGroup ⟨none, "n"⟩]⟩),
      (⟨none, "n"⟩, ⟨⟨none, "n"⟩, 0, [optionalAttribute "a"]⟩)] }

def sharingGroupsIndex : SchemaIndex :=
  (SchemaIndex.build sharingGroups .disabled [⟨none, "r"⟩]).toOption.getD default

theorem groupsEnd_sharingGroups : sharingGroups.GroupsEnd := by
  refine SchemaSet.groupsEnd_of_rank (fun _ => 0) ?_
  rintro outer inner ⟨group, hgroup, -⟩
  exact nomatch hgroup

/-- What the extension adds is declared once and shown once. -/
theorem attribute_fields_eq_uses_extended :
    let root : Address := .root (.unprefixed "r")
    let shown : List Construct :=
      [.attributeGroup ⟨none, "g1"⟩, .attributeGroup ⟨none, "g2"⟩, optionalAttribute "b"]
    SchemaIndex.build sharingGroups .disabled [⟨none, "r"⟩] = .ok sharingGroupsIndex ∧
      sharingGroups.GroupsEnd ∧ sharingGroups.derivesOnTop = true ∧
      ∃ node complex compilation uses, sharingGroupsIndex.nodeOf? root = some node ∧
        node.kind = .element ∧ node.isRecursive = false ∧ node.isSubstitutionHead = false ∧
        sharingGroups.types.definition node.type = .complex complex ∧
        sharingGroups.ShowsContent TypeTable.maxDerivationDepth complex.model shown ∧
        root.attr (.unprefixed "b") ∈ node.children ∧
        sharingGroupsIndex.compile .edit root = .ok compilation ∧
        compilation.template.fields.countP (·.schemaAddress = root.attr (.unprefixed "b")) = 1 ∧
        sharingGroups.ShowsUses shown uses ∧ (uses.countP fun use =>
          (sharingGroupsIndex.attributeName use).toOption = some (.unprefixed "b")) = 1 := by
  intro root shown
  have hbuild : SchemaIndex.build sharingGroups .disabled [⟨none, "r"⟩] =
    .ok sharingGroupsIndex := rfl
  have hnode : sharingGroupsIndex.nodeOf? root = some _ := rfl
  have hcomplex : sharingGroups.types.definition ⟨2⟩ = .complex _ := rfl
  have hcontent : sharingGroups.ShowsContent TypeTable.maxDerivationDepth
      (.derived ⟨.extension, .anonymous ⟨1⟩, [optionalAttribute "b"]⟩)
      ([.attributeGroup ⟨none, "g1"⟩, .attributeGroup ⟨none, "g2"⟩] ++ [optionalAttribute "b"]) :=
    .extended rfl rfl .constructs
  obtain ⟨compilation, hcompile, hfields⟩ := attribute_fields_eq_uses groupsEnd_sharingGroups
    (by decide) hbuild .edit hnode rfl rfl rfl hcomplex hcontent
  obtain ⟨name, hname, ⟨uses, huses⟩, hcount⟩ := hfields (root.attr (.unprefixed "b"))
    (by decide) rfl
  obtain rfl : .unprefixed "b" = name := by
    simpa using congrArg Address.leaf? hname
  have hone : (sharingGroupsIndex.compile .edit root).toOption.map (fun compilation =>
      compilation.template.fields.countP
        (·.schemaAddress = root.attr (.unprefixed "b"))) = some 1 := by decide
  rw [hcompile] at hone
  have hfieldsOne := Option.some.inj hone
  exact ⟨hbuild, groupsEnd_sharingGroups, by decide, _, _, compilation, uses, hnode, rfl, rfl, rfl,
    hcomplex, hcontent, by decide, hcompile, hfieldsOne, huses,
    (hcount uses huses).symm.trans hfieldsOne⟩

/-- The two groups share the third one, so the attribute in it is shown twice. -/
theorem attribute_of_shared_group_twice :
    let root : Address := .root (.unprefixed "r")
    SchemaIndex.build sharingGroups .disabled [⟨none, "r"⟩] = .ok sharingGroupsIndex ∧
      (∀ name ∈ ["g1", "g2", "n"], (sharingGroups.attributeGroup? ⟨none, name⟩).isSome) ∧
      ((sharingGroupsIndex.nodeOf? root).any fun node =>
        node.isElement && !node.isRecursive && !node.isSubstitutionHead &&
          node.children.contains (root.attr (.unprefixed "a"))) = true ∧
      (sharingGroupsIndex.compile .edit root).toOption.map (fun compilation =>
        compilation.template.fields.countP
          (·.schemaAddress = root.attr (.unprefixed "a"))) = some 2 :=
  ⟨rfl, by decide, by decide, by decide⟩

end SchemaForms
