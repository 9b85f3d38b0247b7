import SchemaForms.Proofs.Compile.Collecting

/-!
Everything that is compiled is related, and what is said of the errors on the way follows from what
is said of exhausted bounds. Each renderer is taken with a renderer for the addresses below it that
is faithful already, so one induction on the levels of addresses closes the circle. Inside an
element the induction is on the nesting of constructs, and along a chain of bases on the steps that
are left.
-/

namespace SchemaForms

/-- The content model that a shape was made from. -/
def Shape.model? : Shape → Option ContentModel
  | complex content => some (.constructs content)
  | derived derivation => some (.derived derivation)
  | textOnly derivation => some (.textOnly derivation)
  | _ => none

theorem Shape.exists_model {types : TypeTable} {node : SchemaNode} {type : TypeId}
    {model : ContentModel} (h : (Shape.ofNode types node type).model? = some model) :
    node.isAttribute = false ∧ ∃ complex, types.definition type = .complex complex ∧
      complex.model = model := by
  unfold Shape.ofNode at h
  split at h
  · simp [Shape.model?] at h
  · split at h
    · simp [Shape.model?] at h
    · simp [Shape.model?] at h
    · rename_i hkind
      refine ⟨by simp [SchemaNode.isAttribute, hkind], ?_⟩
      cases hdefinition : types.definition type with
      | builtin name =>
        rw [hdefinition, Shape.ofDefinition] at h
        split at h <;> simp [Shape.model?] at h
      | simple simple =>
        simp [hdefinition, Shape.ofDefinition, Shape.model?] at h
      | complex complex =>
        refine ⟨complex, rfl, ?_⟩
        rw [hdefinition, Shape.ofDefinition] at h
        cases hmodel : complex.model <;> simpa [hmodel, Shape.model?] using h

namespace Compile

theorem mem_of_mem_attributesFirst {construct : Construct} {constructs : List Construct}
    (h : construct ∈ attributesFirst constructs) : construct ∈ constructs := by
  rcases List.mem_append.mp h with h | h
  · exact List.mem_of_mem_filter h
  · exact List.mem_of_mem_filter h

namespace Scope

variable {scope : Scope} {failed : CompileError → Prop}

/-- A renderer that makes related nodes when it is given the shape of a node that is not above a
depth. -/
def Faithful (scope : Scope) (failed : CompileError → Prop) (top : Nat)
    (render : Renderer) : Prop :=
  ∀ address row node, top ≤ address.depth → scope.node address = .ok node →
    (render address row (.ofNode scope.types node node.type)).Yields failed
      (Renders scope (.occurrence address row))

@[simp] theorem node_itemAddress (address : Address) :
    scope.index.nodeOf? (itemAddress address) = scope.index.nodeOf? address := by
  simp [SchemaIndex.nodeOf?, itemAddress]

@[simp] theorem depth_itemAddress (address : Address) :
    (itemAddress address).depth = address.depth := by
  simp [itemAddress]

@[simp] theorem schemaAddress_itemAddress (address : Address) :
    (itemAddress address).schemaAddress = address.schemaAddress := by
  simp [itemAddress]

section Nodes

variable (hordinary : ∀ error, scope.Ordinary error → failed error)

include hordinary

theorem yields_node (address : Address) :
    Attempt.Yields failed (liftM (scope.node address) : Attempt SchemaNode)
      fun node => scope.node address = .ok node :=
  .except (fun _ h => h) fun _ h => hordinary _ (ordinary_node h)

theorem yields_classify (address : Address) :
    Attempt.Yields failed (liftM (scope.classify address) : Attempt Classification)
      fun classification => scope.classify address = .ok classification :=
  .except (fun _ h => h) fun _ h => hordinary _ (ordinary_classify h)

theorem yields_baseType (here : Address) (base : TypeRef) :
    Attempt.Yields failed (liftM (scope.baseType here base) : Attempt TypeId)
      fun type => scope.baseType here base = .ok type :=
  .except (fun _ h => h) fun _ h => hordinary _ (ordinary_baseType h)

variable {render : Renderer} {top : Nat} (hrender : scope.Faithful failed top render)

include hrender

omit hordinary in
theorem yields_iteration (address : Address) (htop : top ≤ address.depth) (isCollapsible : Bool)
    {node : SchemaNode} (hnode : scope.node address = .ok node) :
    (iteration render address isCollapsible (.ofNode scope.types node node.type)).Yields
      failed fun iterated => ∃ nodes, iterated = itemIteration address nodes ∧
        Renders scope (.occurrence (itemAddress address)
          (some ⟨itemVariable address, isCollapsible⟩)) nodes := by
  have hitem : scope.node (itemAddress address) = .ok node := by
    rw [node_eq_ok_iff] at hnode ⊢
    simpa using hnode
  have hdepth : top ≤ (itemAddress address).depth := by simpa using htop
  exact .bind (hrender _ _ node hdepth hitem) fun nodes hnodes => .pure ⟨nodes, rfl, hnodes⟩

/-- A branch is an iteration behind a guard. -/
theorem yields_guardedIteration (address : Address) (htop : top ≤ address.depth)
    (isCollapsible : Bool) :
    (branch scope render address isCollapsible).Yields failed fun made => ∃ node nodes,
      scope.node address = .ok node ∧
        made = [.guard .present address [itemIteration address nodes]] ∧
        Renders scope (.occurrence (itemAddress address)
          (some ⟨itemVariable address, isCollapsible⟩)) nodes := by
  refine .bind (yields_classify hordinary _) fun classification hclassified => ?_
  obtain ⟨node, hnode, rfl⟩ := classify_eq_ok hclassified
  refine .bind (yields_iteration hrender _ htop _ hnode) fun iterated hiterated => .pure ?_
  obtain ⟨nodes, rfl, hnodes⟩ := hiterated
  exact ⟨node, nodes, hnode, rfl, hnodes⟩

theorem yields_branch (here : Address) (htop : top ≤ here.depth + 1) (name : PrefixedName)
    (hname : scope.Candidate here name) (isCollapsible : Bool) :
    (branch scope render (here.child name) isCollapsible).Yields failed
      (Renders scope (.branches here)) := by
  have hdepth : top ≤ (here.child name).depth := by simpa using htop
  refine .mono (yields_guardedIteration hordinary hrender _ hdepth isCollapsible) ?_
  rintro made ⟨node, nodes, hnode, rfl, hnodes⟩
  exact .branch hnode hname hnodes

theorem yields_branches (here skipped : Address) (htop : top ≤ here.depth + 1)
    (names : List PrefixedName) (hnames : ∀ name ∈ names, scope.Candidate here name)
    (isCollapsible : Bool) :
    (Logged.collect (fun name => Attempt.orSkip skipped
      (branch scope render (here.child name) isCollapsible)) names).Yields failed
        (Renders scope (.branches here)) :=
  .collect .noBranch (fun _ _ => .moreBranches) fun name hname =>
    Attempt.orSkip_yields
      (yields_branch hordinary hrender here htop name (hnames name hname) isCollapsible) .noBranch

omit hordinary in
theorem yields_repetition {address : Address} (htop : top ≤ address.depth) {node : SchemaNode}
    (hnode : scope.node address = .ok node) (hrecursive : node.isRecursive = false)
    (hplain : node.isSubstitutionHead = false)
    (hrepeating : scope.index.isRepeating address = true) :
    (scope.repetition render address node (.ofNode scope.types node node.type)).Yields failed
      (Renders scope (.node address)) := by
  refine .bind (yields_iteration hrender address htop false hnode) fun iterated hiterated =>
    .pure ?_
  obtain ⟨rows, rfl, hrows⟩ := hiterated
  exact .repeating hnode hrecursive hplain hrepeating hrows

theorem yields_substitution {address : Address} (htop : top ≤ address.depth) {node : SchemaNode}
    (hnode : scope.node address = .ok node) (hrecursive : node.isRecursive = false)
    (hhead : node.isSubstitutionHead = true) :
    (scope.substitution render address node).Yields failed (Renders scope (.node address)) := by
  unfold substitution
  cases hparent : address.parent? with
  | none => exact .throw (hordinary _ (ordinary_of_ne (by simp) (by simp)))
  | some parent =>
    obtain ⟨-, leaf, hbeside⟩ := Address.segments_of_parent? hparent
    have hdepth : top ≤ parent.depth + 1 := by simpa [Address.depth, hbeside] using htop
    have hnames : ∀ name ∈ node.members, scope.Candidate parent name := fun name hname =>
      .listed hbeside (node_eq_ok_iff.mp hnode) hhead hname
    refine .bind (.lift (yields_branches hordinary hrender parent address hdepth _ hnames true)) ?_
    exact fun members hmembers => .pure (.head hnode hrecursive hhead hparent hmembers)

theorem yields_renderNode (address : Address) (htop : top ≤ address.depth) :
    (scope.renderNode render address).Yields failed (Renders scope (.node address)) := by
  refine .bind (yields_node hordinary address) fun node hnode => ?_
  refine .bind (yields_classify hordinary address) fun classification hclassified => ?_
  refine .bind (P := fun _ => True) (.note trivial (by simp)) fun _ _ => ?_
  obtain ⟨found, hfound, hclassification⟩ := classify_eq_ok hclassified
  obtain rfl : node = found := Except.ok.inj (hnode.symm.trans hfound)
  split
  · rename_i hhead
    simp only [hclassification, Bool.and_eq_true, Bool.not_eq_true'] at hhead
    exact yields_substitution hordinary hrender htop hnode hhead.1 hhead.2
  · rename_i hhead
    split
    · rename_i hrepeating
      subst hclassification
      simp only [Bool.and_eq_true, Bool.not_eq_true'] at hrepeating
      have hplain : node.isSubstitutionHead = false := by simpa [hrepeating.1] using hhead
      exact yields_repetition hrender htop hnode hrepeating.1 hplain hrepeating.2
    · rename_i hrepeating
      refine .mono ?_ fun nodes hnodes => .single hclassified (by simpa using hhead)
        (by simpa using hrepeating) hnodes
      subst hclassification
      exact hrender address none node htop hnode

theorem yields_renderGuarded (address : Address) (htop : top ≤ address.depth) :
    (scope.renderGuarded render address).Yields failed (Renders scope (.shown address)) := by
  refine .bind (P := fun nodes => nodes = [] ∨ Renders scope (.node address) nodes)
    (Attempt.orSkip_yields
      (.mono (yields_renderNode hordinary hrender address htop) fun _ => Or.inr) (Or.inl rfl)) ?_
  rintro nodes (rfl | hnodes)
  · exact .pure .hidden
  · refine .pure ?_
    split
    · exact .hidden
    · exact .shown hnodes

end Nodes

section Content

variable {each : ConstructRenderer} {here : Address}

theorem yields_renderAll (constructs : List Construct)
    (heach : ∀ construct ∈ constructs,
      (each construct).Yields failed (Renders scope (.content here))) :
    (renderAll each here constructs).Yields failed (Renders scope (.content here)) := by
  refine .collect .nothing (fun _ _ => .append) fun construct hconstruct => ?_
  exact Attempt.orSkip_yields (heach construct (mem_of_mem_attributesFirst hconstruct)) .nothing

/-- What a shape shows is what the type of the node shows. -/
theorem shown_of_shape {node : SchemaNode} {type : TypeId} {model : ContentModel}
    {P : Construct → Prop} (hset : scope.index.set.Shows P)
    (h : (Shape.ofNode scope.types node type).model? = some model) :
    ∀ construct ∈ model.shown, P construct := by
  obtain ⟨-, complex, hcomplex, rfl⟩ := Shape.exists_model h
  exact hset type complex hcomplex

variable {fits : Construct → Prop} (hordinary : ∀ error, scope.Ordinary error → failed error)
  (hset : scope.index.set.Shows fits)
  (heach : ∀ construct, fits construct → (each construct).Yields failed
    (Renders scope (.content here)))

include hordinary hset heach

theorem yields_renderText (row : Option Row) (steps : Nat) (derivation : Derivation)
    (hfits : ∀ child ∈ derivation.children, fits child) :
    (scope.renderText each here row steps derivation).Yields failed
      (Renders scope (.text here row)) := by
  induction steps generalizing derivation with
  | zero => exact .throw (hordinary _ (ordinary_of_ne (by simp) (by simp)))
  | succ steps ih =>
    have hothers := yields_renderAll derivation.children
      fun child hchild => heach child (hfits child hchild)
    unfold renderText
    split
    · refine .bind (P := fun _ => True) (.note trivial ?_) fun _ _ => .pure .restricted
      intro error herror
      obtain rfl := Note.skipped.inj herror
      exact hordinary _ (ordinary_of_ne (by simp) (by simp))
    · refine .bind (yields_baseType hordinary _ _) fun type _ => ?_
      refine .bind (yields_node hordinary here) fun node hnode => ?_
      split
      · rename_i inner hshape
        have hinner : ∀ child ∈ inner.children, fits child :=
          shown_of_shape hset (congrArg Shape.model? hshape)
        refine .bind (ih inner hinner) fun text htext => ?_
        exact .bind (.lift hothers) fun others hothers => .pure (.extended htext hothers)
      · refine .bind (P := fun text => text =
          [scope.scalarField here node type (scope.fieldRole here node row)]) (.pure rfl) ?_
        rintro text rfl
        exact .bind (.lift hothers) fun others hothers => .pure (.value hnode hothers)

theorem yields_renderDerivation (steps : Nat) (derivation : Derivation)
    (hfits : ∀ child ∈ derivation.children, fits child) :
    (scope.renderDerivation each here steps derivation).Yields failed
      (Renders scope (.content here)) := by
  induction steps generalizing derivation with
  | zero =>
    have hothers := yields_renderAll derivation.children
      fun child hchild => heach child (hfits child hchild)
    obtain ⟨method, base, children⟩ := derivation
    cases method with
    | extension => exact .throw (hordinary _ (ordinary_of_ne (by simp) (by simp)))
    | restriction =>
      exact .bind (P := fun _ => True) (.note trivial (by simp)) fun _ _ => .lift hothers
  | succ steps ih =>
    have hothers := yields_renderAll derivation.children
      fun child hchild => heach child (hfits child hchild)
    obtain ⟨method, base, children⟩ := derivation
    cases method with
    | restriction =>
      exact .bind (P := fun _ => True) (.note trivial (by simp)) fun _ _ => .lift hothers
    | extension =>
      refine .bind (yields_baseType hordinary _ _) fun type _ => ?_
      have hown : ∀ inherited, Renders scope (.content here) inherited →
          Attempt.Yields failed (do
            let others ← liftM (renderAll each here children)
            return inherited ++ others) (Renders scope (.content here)) := fun _ hinherited =>
        .bind (.lift hothers) fun _ hothers => .pure (.append hinherited hothers)
      split
      · rename_i complex hcomplex
        have hall := hset type complex hcomplex
        split
        · rename_i content hmodel
          rw [hmodel] at hall
          exact .bind (.lift (yields_renderAll content fun child hchild =>
            heach child (hall child hchild))) hown
        · rename_i inner hmodel
          rw [hmodel] at hall
          exact .bind (ih inner hall) hown
        · rename_i inner hmodel
          rw [hmodel] at hall
          exact .bind (yields_renderText hordinary hset heach none _ inner hall) fun _ htext =>
            hown _ (.ownText htext)
      · exact .bind (.pure .nothing) hown

end Content

/-- What is known of a construct while its nesting is followed so deep: enough to know it of what
the construct consists of, one step less deep, and of what is shown at once. Where no step is left,
the error has the property, and so has every ordinary error. -/
structure Nesting (scope : Scope) (failed : CompileError → Prop)
    (fits : Nat → Construct → Prop) : Prop where
  ordinary : ∀ error, scope.Ordinary error → failed error
  exhausted : ∀ construct here, fits 0 construct → failed (.nestedTooDeep here)
  compositor : ∀ depth kind occurs children, fits (depth + 1) (.compositor kind occurs children) →
    ∀ child ∈ children, fits depth child
  group : ∀ depth name occurs group, fits (depth + 1) (.group name occurs) →
    scope.index.set.modelGroup? name = some group → ∀ child ∈ group.children, fits depth child
  simpleContent : ∀ depth method base children,
    fits (depth + 1) (.simpleContent method base children) →
      (∀ child ∈ children, fits depth child) ∧ scope.index.set.Shows (fits depth)
  complexContent : ∀ depth method base children,
    fits (depth + 1) (.complexContent method base children) →
      (∀ child ∈ children, fits depth child) ∧ scope.index.set.Shows (fits depth)
  types : scope.index.set.Shows (fits scope.constructDepth)

section Constructs

variable {render : Renderer} {top : Nat} (hrender : scope.Faithful failed top render)
  {fits : Nat → Construct → Prop} (hnesting : scope.Nesting failed fits)
  (here : Address) (htop : top ≤ here.depth + 1)

include hrender hnesting htop

theorem yields_renderChoice (occurs : Occurs) (children : List Construct) :
    (scope.renderChoice render here occurs children).Yields failed
      (Renders scope (.content here)) := by
  refine .bind (.except (fun _ => candidates_of_leafNames)
    fun _ h => hnesting.ordinary _ (ordinary_leafNames h)) fun members hmembers => ?_
  split
  · refine .bind (.lift (yields_branches hnesting.ordinary hrender here here htop members hmembers
      false)) ?_
    exact fun branches hbranches =>
      .pure (.append (.choices hbranches) (.repeatedPrompt hmembers))
  · refine .bind (P := Renders scope (.content here)) (.lift ?_) ?_
    · refine .collect .nothing (fun _ _ => .append) fun name _ => Attempt.orSkip_yields ?_ .nothing
      have hdepth : top ≤ (here.child name).depth := by simpa using htop
      exact .bind (yields_renderNode hnesting.ordinary hrender _ hdepth) fun nodes hnodes =>
        .pure (.alternative hnodes)
    · exact fun branches hbranches => .pure (.append hbranches (.singlePrompt hmembers))

theorem yields_renderUse (use : AttributeDeclaration) :
    (scope.renderUse render here use).Yields failed (Renders scope (.content here)) := by
  refine .bind (.except (P := fun _ => True) (fun _ _ => trivial)
    fun _ h => hnesting.ordinary _ (ordinary_attributeName h)) fun name _ => ?_
  have hdepth : top ≤ (here.attr name).depth := by simpa using htop
  exact .lift (.mono (yields_renderGuarded hnesting.ordinary hrender _ hdepth)
    fun _ => .attributeUse)

theorem yields_renderChild (name : PrefixedName) :
    (scope.renderGuarded render (here.child name)).Yields failed
      (Renders scope (.content here)) := by
  have hdepth : top ≤ (here.child name).depth := by simpa using htop
  exact .mono (yields_renderGuarded hnesting.ordinary hrender _ hdepth) fun _ => .child

theorem yields_renderConstruct (depth : Nat) :
    ∀ construct, fits depth construct →
      (scope.renderConstruct render here depth construct).Yields failed
        (Renders scope (.content here)) := by
  induction depth with
  | zero => exact fun construct hfits => .throw (hnesting.exhausted construct here hfits)
  | succ depth ih =>
    intro construct hfits
    cases construct with
    | attributeUse use => exact yields_renderUse hrender hnesting here htop use
    | attributeGroup name =>
      refine .bind (.except (P := fun _ => True) (fun _ _ => trivial)
        fun _ h => hnesting.ordinary _ (ordinary_groupAttributes h)) fun uses _ => .lift ?_
      exact .collect .nothing (fun _ _ => .append) fun use _ =>
        Attempt.orSkip_yields (yields_renderUse hrender hnesting here htop use) .nothing
    | simpleContent method base children =>
      obtain ⟨hchildren, hset⟩ := hnesting.simpleContent _ _ _ _ hfits
      exact .mono (yields_renderText hnesting.ordinary hset ih none _ ⟨method, base, children⟩
        hchildren) fun _ => .ownText
    | complexContent method base children =>
      obtain ⟨hchildren, hset⟩ := hnesting.complexContent _ _ _ _ hfits
      exact yields_renderDerivation hnesting.ordinary hset ih _ ⟨method, base, children⟩ hchildren
    | compositor kind occurs children =>
      have hchildren := hnesting.compositor _ _ _ _ hfits
      have hgroup : Attempt.Yields failed (do
          let nodes ← liftM (renderAll (scope.renderConstruct render here depth) here children)
          return if nodes.isEmpty then [] else [.group .compositor nodes])
            (Renders scope (.content here)) := by
        refine .bind (.lift (yields_renderAll children fun child hchild =>
          ih child (hchildren child hchild))) fun nodes hnodes => .pure ?_
        split
        · exact .nothing
        · exact .compositor hnodes
      cases kind with
      | choice => exact yields_renderChoice hrender hnesting here htop occurs children
      | all => exact hgroup
      | sequence => exact hgroup
    | group name occurs =>
      refine .bind (.except (fun _ => modelGroup_eq_ok)
        fun _ h => hnesting.ordinary _ (ordinary_modelGroup h)) fun group hgroup => ?_
      have hchildren := hnesting.group _ _ _ _ hfits hgroup
      split
      · exact yields_renderChoice hrender hnesting here htop _ _
      · exact .lift (yields_renderAll _ fun child hchild => ih child (hchildren child hchild))
    | element reference occurs =>
      refine .bind (.except (P := fun _ => True) (fun _ _ => trivial)
        fun _ h => hnesting.ordinary _ (ordinary_elementName h)) fun name _ => ?_
      exact .lift (yields_renderChild hrender hnesting here htop name)
    | wildcard occurs => exact .lift (yields_renderChild hrender hnesting here htop _)
    | other tag => exact .throw (hnesting.ordinary _ (ordinary_of_ne (by simp) (by simp)))

end Constructs

theorem yields_renderElement (hordinary : ∀ error, scope.Ordinary error → failed error)
    {address : Address} {row : Option Row} {node : SchemaNode}
    {content : Attempt (List TemplateNode)} (hnode : scope.node address = .ok node)
    (hexpanded : node.isRecursive = false)
    (hcontent : content.Yields failed (Renders scope (.content address))) :
    (scope.renderElement address row content).Yields failed
      (Renders scope (.occurrence address row)) := by
  refine .bind (yields_node hordinary address) fun found hfound => ?_
  obtain rfl : node = found := Except.ok.inj (hnode.symm.trans hfound)
  refine .bind hcontent fun nodes hnodes => ?_
  have hrendered : Renders scope (.occurrence address row) _ :=
    .element hnode hexpanded hnodes
  unfold elementGroup at hrendered
  split at hrendered
  · rename_i hroot
    simp only [hroot, ite_true]
    exact .pure hrendered
  · rename_i hroot
    simp only [hroot]
    exact .pure hrendered

/-- Only recursive nodes have the recursive shape. -/
theorem isRecursive_iff {types : TypeTable} {node : SchemaNode} {type : TypeId}
    {shape : Shape} (h : Shape.ofNode types node type = shape) :
    node.isRecursive = true ↔ shape = .recursive := by
  subst h
  constructor
  · intro hrecursive
    simp [Shape.ofNode, hrecursive]
  · intro hshape
    by_contra hexpanded
    unfold Shape.ofNode at hshape
    simp only [hexpanded, if_false] at hshape
    cases hkind : node.kind with
    | attr => simp [hkind] at hshape
    | wildcard => simp [hkind] at hshape
    | element =>
      simp only [hkind] at hshape
      unfold Shape.ofDefinition at hshape
      split at hshape
      · split at hshape <;> contradiction
      · contradiction
      · split at hshape <;> contradiction

/-- No address with a node is longer than the index is high. -/
theorem depth_le_height {index : SchemaIndex} {address : Address} {node : SchemaNode}
    (h : index.nodeOf? address = some node) : address.depth ≤ index.height := by
  have hmem := List.mem_of_find?_eq_some h
  have haddress : node.address = address.schemaAddress := by simpa using List.find?_some h
  have hdepth : node.address.depth ≤ index.height :=
    le_foldl_max (List.mem_map.mpr ⟨node, hmem, rfl⟩)
  rwa [haddress, Address.depth_schemaAddress] at hdepth

/-- Every level of addresses is rendered faithfully once the levels below are. Where the levels
reach from the depth to the height of the index, they are not exhausted. -/
theorem faithful_render {fits : Nat → Construct → Prop} (hnesting : scope.Nesting failed fits)
    (levels top : Nat)
    (hlevels : scope.index.height < top + levels ∨ ∀ here, failed (.nestedTooDeep here)) :
    scope.Faithful failed top (scope.render levels) := by
  have hordinary := hnesting.ordinary
  induction levels generalizing top with
  | zero =>
    intro address row node htop hnode
    rcases hlevels with hlevels | hfailed
    · have hle := depth_le_height (node_eq_ok_iff.mp hnode)
      omega
    · exact .throw (hfailed address)
  | succ levels ih =>
    intro address row node htop hnode
    have hbelow : scope.index.height < top + 1 + levels ∨ ∀ here, failed (.nestedTooDeep here) :=
      hlevels.imp_left fun h => by omega
    have heach := yields_renderConstruct (ih (top + 1) hbelow) hnesting address (by omega)
      scope.constructDepth
    have hexpanded : ∀ shape, Shape.ofNode scope.types node node.type = shape →
        shape ≠ .recursive → node.isRecursive = false := by
      intro shape hshape hne
      exact Bool.eq_false_iff.mpr fun h => hne ((isRecursive_iff hshape).mp h)
    have hscalar : Attempt.Yields failed (do
        let found ← scope.node address
        return [scope.scalarField address found found.type (scalarRole row)])
        fun nodes => node.isRecursive = false → Renders scope (.occurrence address row) nodes := by
      refine .bind (yields_node hordinary address) fun found hfound => .pure fun h => ?_
      obtain rfl : node = found := Except.ok.inj (hnode.symm.trans hfound)
      exact .scalar hnode h
    unfold render renderWithin
    cases hshape : Shape.ofNode scope.types node node.type with
    | recursive => exact .pure (.recursive hnode ((isRecursive_iff hshape).mpr rfl))
    | attr => exact .mono hscalar fun nodes h => h (hexpanded _ hshape (by simp))
    | simple => exact .mono hscalar fun nodes h => h (hexpanded _ hshape (by simp))
    | anything =>
      refine .bind (yields_node hordinary address) fun found hfound => .pure ?_
      obtain rfl : node = found := Except.ok.inj (hnode.symm.trans hfound)
      exact .anything hnode (hexpanded _ hshape (by simp))
    | complex content =>
      have hfits : ∀ child ∈ content, fits scope.constructDepth child :=
        shown_of_shape hnesting.types (congrArg Shape.model? hshape)
      exact yields_renderElement hordinary hnode (hexpanded _ hshape (by simp))
        (.lift (yields_renderAll content fun child hchild => heach child (hfits child hchild)))
    | derived derivation =>
      have hfits : ∀ child ∈ derivation.children, fits scope.constructDepth child :=
        shown_of_shape hnesting.types (congrArg Shape.model? hshape)
      exact yields_renderElement hordinary hnode (hexpanded _ hshape (by simp))
        (yields_renderDerivation hordinary hnesting.types heach _ derivation hfits)
    | textOnly derivation =>
      have hfits : ∀ child ∈ derivation.children, fits scope.constructDepth child :=
        shown_of_shape hnesting.types (congrArg Shape.model? hshape)
      exact .mono (yields_renderText hordinary hnesting.types heach row _ derivation hfits)
        fun nodes htext => .textOnly hnode (hexpanded _ hshape (by simp)) htext

/-- Of an exhausted bound nothing is said but that it calls no address unknown. -/
theorem nesting_honest (scope : Scope) : scope.Nesting scope.Honest fun _ _ => True where
  ordinary := fun _ h => h.honest
  exhausted := by simp [Honest]
  compositor := by simp
  group := by simp
  simpleContent := by simp [SchemaSet.Shows]
  complexContent := by simp [SchemaSet.Shows]
  types := by simp [SchemaSet.Shows]

/-- What a renderer for any number of levels makes is related, if nothing is said of the bounds. -/
theorem faithful_render_honest (scope : Scope) (levels : Nat) :
    scope.Faithful scope.Honest 0 (scope.render levels) :=
  faithful_render scope.nesting_honest levels 0 (Or.inr (by simp [Honest]))

end Scope

end Compile

namespace SchemaIndex

open Compile

variable {index : SchemaIndex} {mode : Mode} {address : Address}

/-- What is compiled is all that the walk makes, where it reaches none of its bounds. -/
theorem compile_eq_ok_iff {compilation : Compilation} :
    index.compile mode address = .ok compilation ↔ (index.nodeOf? address).isSome ∧
      (index.rendered mode address).Ended ∧
      compilation = ⟨⟨address, mode, (index.rendered mode address).value⟩,
        (index.rendered mode address).log⟩ := by
  rw [Logged.Ended, ← List.findSome?_eq_none_iff]
  unfold compile
  cases hnode : index.nodeOf? address with
  | none => simp
  | some node =>
    cases hended : (index.rendered mode address).log.findSome? LogEntry.exhausted? with
    | some here => simp [hended]
    | none => simp [hended, eq_comm]

theorem compile_of_ended (hindexed : (index.nodeOf? address).isSome)
    (hended : (index.rendered mode address).Ended) :
    index.compile mode address = .ok ⟨⟨address, mode, (index.rendered mode address).value⟩,
      (index.rendered mode address).log⟩ :=
  compile_eq_ok_iff.mpr ⟨hindexed, hended, rfl⟩

/-- What is compiled is related, and its log calls addresses unknown only when they are. -/
theorem renders_of_compile {compilation : Compilation}
    (h : index.compile mode address = .ok compilation) :
    (index.nodeOf? address).isSome ∧ compilation.template.root = address ∧
      Renders ⟨index, mode, address⟩ (.shown address) compilation.template.nodes ∧
      NotedBy (Scope.Honest ⟨index, mode, address⟩) compilation.log := by
  obtain ⟨hindexed, -, rfl⟩ := compile_eq_ok_iff.mp h
  let scope : Compile.Scope := ⟨index, mode, address⟩
  have hfaithful := scope.faithful_render_honest index.height
  have hyields := Scope.yields_renderGuarded scope.nesting_honest.ordinary hfaithful address
    (Nat.zero_le _)
  exact ⟨hindexed, rfl, hyields.value, hyields.log⟩

end SchemaIndex

end SchemaForms
