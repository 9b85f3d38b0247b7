import SchemaForms.Proofs.Schema.Referring

/-!
Reading the components of a document. Whatever is read from the elements of a document, its
references are those that are written there, in the document element or below it, and each was
resolved at the element at which it is written. The types that are entered on the way refer in the
same way, and they stay in the table when the reading fails.
-/

namespace SchemaForms

namespace Reading

variable {R : ExpandedName → String → DocumentId → Prop}

theorem keeps_namedType (name : ExpandedName) :
    Keeps (TypeTable.AllRefer R) (fun _ => True) (namedType name) := by
  unfold namedType
  split
  · exact .bind (.modify fun table h => h.intern name) fun _ _ => .pure trivial
  · exact .pure trivial

theorem keeps_enterType {definition : TypeDefinition} (h : definition.AllRefer R) :
    Keeps (TypeTable.AllRefer R) (fun _ => True) (enterType definition) :=
  fun _ htable => ⟨htable.push h, fun _ _ => trivial⟩

theorem keeps_anonymousType {definition : TypeDefinition} (h : definition.AllRefer R) :
    Keeps (TypeTable.AllRefer R) (fun _ => True) (anonymousType definition) :=
  .bind (keeps_enterType h) fun _ _ => .pure trivial

/-- A type that is defined inside is entered, so its references have to be those of the table. -/
theorem keeps_inlined {inline : Reading TypeDefinition}
    (h : Keeps (TypeTable.AllRefer R) (TypeDefinition.AllRefer R) inline) :
    Keeps (TypeTable.AllRefer R) (fun _ => True) (do anonymousType (← inline)) :=
  .bind h fun _ hdefinition => keeps_anonymousType hdefinition

theorem keeps_namedOrInline {attributeName : String} {element : Xml.Element}
    {inline : Option (Reading TypeDefinition)} {default : ExpandedName}
    (h : ∀ reading, inline = some reading →
      Keeps (TypeTable.AllRefer R) (TypeDefinition.AllRefer R) reading) :
    Keeps (TypeTable.AllRefer R) (fun _ => True)
      (namedOrInline attributeName element inline default) := by
  unfold namedOrInline
  split
  · exact .after fun name => keeps_namedType name
  · exact keeps_inlined (h _ rfl)
  · exact keeps_namedType default

theorem keeps_inlineOrNamed {attributeName : String} {element : Xml.Element}
    {inline : Option (Reading TypeDefinition)} {default : ExpandedName}
    (h : ∀ reading, inline = some reading →
      Keeps (TypeTable.AllRefer R) (TypeDefinition.AllRefer R) reading) :
    Keeps (TypeTable.AllRefer R) (fun _ => True)
      (inlineOrNamed attributeName element inline default) := by
  unfold inlineOrNamed
  split
  · exact keeps_inlined (h _ rfl)
  · exact keeps_namedOrInline fun _ h => nomatch h

theorem keeps_mapM {α β : Type} {step : α → Reading β}
    (h : ∀ a, Keeps (TypeTable.AllRefer R) (fun _ => True) (step a)) (list : List α) :
    Keeps (TypeTable.AllRefer R) (fun _ => True) (list.mapM step) := by
  induction list with
  | nil => exact .pure trivial
  | cons a others ih =>
    rw [List.mapM_cons]
    exact .bind (h a) fun _ _ => .bind ih fun _ _ => .pure trivial

mutual

theorem keeps_simpleType (origin : Origin) (name : Option ExpandedName) :
    ∀ element, Keeps (TypeTable.AllRefer R) (·.content = []) (simpleType origin name element)
  | ⟨tag, _, _, _, children⟩ => by
    rw [simpleType]
    split
    · rename_i variety hvariety
      have hkeeps : Keeps (TypeTable.AllRefer R) (fun _ => True) variety := by
        rcases Option.or_eq_some_iff.mp hvariety with hfirst | ⟨-, hunion⟩
        · rcases Option.or_eq_some_iff.mp hfirst with hrestriction | ⟨-, hlist⟩
          · exact keeps_varietyIn? origin _ children _ hrestriction
          · exact keeps_varietyIn? origin _ children _ hlist
        · exact keeps_varietyIn? origin _ children _ hunion
      exact .bind hkeeps fun _ _ => .pure rfl
    · exact .throw

theorem keeps_varietyIn? (origin : Origin) (localName : String) :
    ∀ children reading, varietyIn? origin localName children = some reading →
      Keeps (TypeTable.AllRefer R) (fun _ => True) reading
  | [], _, h => nomatch h
  | child :: others, reading, h => by
    rw [varietyIn?] at h
    split at h
    · obtain rfl := Option.some.inj h
      exact keeps_variety origin child
    · exact keeps_varietyIn? origin localName others reading h

theorem keeps_variety (origin : Origin) :
    ∀ element, Keeps (TypeTable.AllRefer R) (fun _ => True) (variety origin element)
  | ⟨tag, attributes, scope, text, children⟩ => by
    rw [variety]
    have hinline : ∀ reading, simpleTypeIn? origin children = some reading →
        Keeps (TypeTable.AllRefer R) (TypeDefinition.AllRefer R) reading := fun reading hreading =>
      (keeps_simpleTypeIn? origin children reading hreading).weaken
        fun _ => TypeDefinition.AllRefer.of_content
    have hmembers := keeps_inlineMembers origin children
    split
    · exact .bind (keeps_namedOrInline hinline) fun _ _ =>
        .after fun _ => .pure trivial
    · exact .bind (keeps_namedOrInline hinline) fun _ _ => .pure trivial
    · refine .after fun names => ?_
      refine .bind (keeps_mapM keeps_namedType names) fun _ _ => ?_
      exact .bind hmembers fun _ _ => .pure trivial

theorem keeps_simpleTypeIn? (origin : Origin) :
    ∀ children reading, simpleTypeIn? origin children = some reading →
      Keeps (TypeTable.AllRefer R) (·.content = []) reading
  | [], _, h => nomatch h
  | child :: others, reading, h => by
    rw [simpleTypeIn?] at h
    split at h
    · obtain rfl := Option.some.inj h
      exact keeps_simpleType origin none child
    · exact keeps_simpleTypeIn? origin others reading h

theorem keeps_inlineMembers (origin : Origin) :
    ∀ children, Keeps (TypeTable.AllRefer R) (fun _ => True) (inlineMembers origin children)
  | [] => by
    rw [inlineMembers]
    exact .pure trivial
  | child :: others => by
    rw [inlineMembers]
    split
    · refine .bind (keeps_simpleType origin none child) fun definition hcontent => ?_
      have hdefinition : definition.AllRefer R := .of_content hcontent
      refine .bind (keeps_anonymousType hdefinition) fun _ _ => ?_
      exact .bind (keeps_inlineMembers origin others) fun _ _ => .pure trivial
    · exact keeps_inlineMembers origin others

end

theorem keeps_simpleInline (origin : Origin) (children : List Xml.Element) :
    ∀ reading, simpleTypeIn? origin children = some reading →
      Keeps (TypeTable.AllRefer R) (TypeDefinition.AllRefer R) reading :=
  fun reading h => (keeps_simpleTypeIn? origin children reading h).weaken
    fun _ => TypeDefinition.AllRefer.of_content

section Document

variable {root : Xml.Element} {origin : Origin}

theorem keeps_attributeDeclaration (isGlobal : Bool) {element : Xml.Element}
    (h : root.Holds element) :
    Keeps (TypeTable.AllRefer R) (AttributeDeclaration.Refers (WrittenIn root origin.document))
      (attributeDeclaration origin isGlobal element) := by
  unfold attributeDeclaration
  split
  · rename_i value hvalue
    refine .bind (.except fun _ hname => hname) fun name hname => ?_
    refine .bind (keeps_namedType _) fun _ _ => .pure fun _ => ?_
    exact ⟨rfl, element, value, h, hvalue, rfl, hname⟩
  · refine .after fun _ => ?_
    refine .bind (keeps_inlineOrNamed (keeps_simpleInline origin _)) fun _ _ => .pure ?_
    exact fun href => nomatch href

theorem keeps_elementType {element : Xml.Element} {complex : Option (Reading TypeDefinition)}
    (hcomplex : ∀ reading, complex = some reading →
      Keeps (TypeTable.AllRefer R) (TypeDefinition.AllRefer R) reading) :
    Keeps (TypeTable.AllRefer R) (fun _ => True) (elementType origin element complex) := by
  refine keeps_inlineOrNamed fun reading hreading => ?_
  rcases Option.or_eq_some_iff.mp hreading with hfound | ⟨-, hsimple⟩
  · exact hcomplex reading hfound
  · exact keeps_simpleInline origin _ reading hsimple

theorem keeps_elementReference (occurs : Occurs) {element : Xml.Element}
    {complex : Option (Reading TypeDefinition)} (h : root.Holds element)
    (hcomplex : ∀ reading, complex = some reading →
      Keeps (TypeTable.AllRefer R) (TypeDefinition.AllRefer R) reading) :
    Keeps (TypeTable.AllRefer R)
      (fun reference => (Construct.element reference occurs).Refers
        (WrittenIn root origin.document))
      (elementReference origin element complex) := by
  unfold elementReference
  split
  · rename_i value hvalue
    refine .bind (.except fun _ hname => hname) fun name hname => .pure ?_
    exact ⟨rfl, element, value, h, hvalue, rfl, hname⟩
  · refine .after fun _ => ?_
    exact .bind (keeps_elementType hcomplex) fun _ _ => .pure trivial

theorem keeps_derivedContent {made : Derivation → Prop} (element : Xml.Element)
    {extension restriction : Option (Reading Derivation)}
    (hextension : ∀ reading, extension = some reading →
      Keeps (TypeTable.AllRefer R) made reading)
    (hrestriction : ∀ reading, restriction = some reading →
      Keeps (TypeTable.AllRefer R) made reading) :
    Keeps (TypeTable.AllRefer R) made (derivedContent element extension restriction) := by
  unfold derivedContent
  split
  · rename_i reading hreading
    rcases Option.or_eq_some_iff.mp hreading with hfound | ⟨-, hfound⟩
    · exact hextension reading hfound
    · exact hrestriction reading hfound
  · exact .throw

theorem keeps_compositor (kind : Compositor) (element : Xml.Element)
    {inside : Reading (List Construct)}
    (h : Keeps (TypeTable.AllRefer R)
      (fun made => ∀ construct ∈ made, construct.AllRefer (WrittenIn root origin.document))
      inside) :
    Keeps (TypeTable.AllRefer R) (Construct.AllRefer (WrittenIn root origin.document))
      (do let occurs ← liftM (Occurs.ofElement element)
          return .compositor kind occurs (← inside)) := by
  refine .after fun occurs => ?_
  exact .bind h fun children hchildren => .pure (.of_children trivial hchildren)

mutual

theorem keeps_complexType (hR : HoldsIn R root origin.document) (name : Option ExpandedName) :
    ∀ element, root.Holds element →
      Keeps (TypeTable.AllRefer R) (TypeDefinition.AllRefer (WrittenIn root origin.document))
        (complexType origin name element)
  | ⟨tag, attributes, scope, text, children⟩, h => by
    rw [complexType]
    have hchildren := keeps_constructs hR children fun child hchild => h.tail hchild
    refine .after fun _ => .after fun _ => ?_
    exact .bind hchildren fun content hcontent => .pure hcontent

theorem keeps_complexTypeIn? (hR : HoldsIn R root origin.document) :
    ∀ children reading, (∀ child ∈ children, root.Holds child) →
      complexTypeIn? origin children = some reading →
        Keeps (TypeTable.AllRefer R) (TypeDefinition.AllRefer (WrittenIn root origin.document))
          reading
  | [], _, _, h => nomatch h
  | child :: others, reading, hholds, h => by
    rw [complexTypeIn?] at h
    split at h
    · obtain rfl := Option.some.inj h
      exact keeps_complexType hR none child (hholds child List.mem_cons_self)
    · exact keeps_complexTypeIn? hR others reading
        (fun other hother => hholds other (List.mem_cons_of_mem _ hother)) h

theorem keeps_constructs (hR : HoldsIn R root origin.document) :
    ∀ children, (∀ child ∈ children, root.Holds child) →
      Keeps (TypeTable.AllRefer R)
        (fun made => ∀ construct ∈ made, construct.AllRefer (WrittenIn root origin.document))
        (constructs origin children)
  | [], _ => by
    rw [constructs]
    exact .pure fun _ h => nomatch h
  | child :: others, hholds => by
    rw [constructs]
    have hothers := keeps_constructs hR others fun other hother =>
      hholds other (List.mem_cons_of_mem _ hother)
    split
    · have hchild := keeps_construct hR child (hholds child List.mem_cons_self)
      refine .bind hchild fun first hfirst => ?_
      exact .bind hothers fun rest hrest => .pure (List.forall_mem_cons.mpr ⟨hfirst, hrest⟩)
    · exact hothers

theorem keeps_construct (hR : HoldsIn R root origin.document) :
    ∀ element, root.Holds element →
      Keeps (TypeTable.AllRefer R) (Construct.AllRefer (WrittenIn root origin.document))
        (construct origin element)
  | ⟨tag, attributes, scope, text, children⟩, h => by
    rw [construct]
    have hholds : ∀ child ∈ children, root.Holds child := fun child hchild => h.tail hchild
    have hchildren := keeps_constructs hR children hholds
    have hderived := fun element : Xml.Element => keeps_derivedContent element
      (fun reading => keeps_derivationIn? hR .extension children reading hholds)
      (fun reading => keeps_derivationIn? hR .restriction children reading hholds)
    -- The cases are the tags in their order. What has no parts is judged by its own reference, and
    -- the rest by its children.
    split
    · exact .bind (keeps_attributeDeclaration false h) fun use huse => .pure (.of_leaf rfl huse)
    · exact .after fun name => .pure (.of_leaf rfl trivial)
    · exact .bind (hderived _) fun derivation hmade => .pure (.of_children trivial hmade)
    · exact .bind (hderived _) fun derivation hmade => .pure (.of_children trivial hmade)
    · exact keeps_compositor .all _ hchildren
    · exact keeps_compositor .choice _ hchildren
    · exact keeps_compositor .sequence _ hchildren
    · exact .after fun name => .after fun occurs => .pure (.of_leaf rfl trivial)
    · refine .after fun occurs => ?_
      refine .bind (keeps_elementReference occurs h fun reading hreading => ?_)
        fun reference href => .pure (.of_leaf rfl href)
      have hdefinition := keeps_complexTypeIn? hR children reading hholds hreading
      exact hdefinition.weaken fun _ hmade => hmade.mono hR
    · exact .after fun occurs => .pure (.of_leaf rfl trivial)
    · exact .pure (.of_leaf rfl trivial)

theorem keeps_derivationIn? (hR : HoldsIn R root origin.document) (method : DerivationMethod) :
    ∀ children reading, (∀ child ∈ children, root.Holds child) →
      derivationIn? origin method children = some reading →
        Keeps (TypeTable.AllRefer R)
          (fun made => ∀ construct ∈ made.children,
            construct.AllRefer (WrittenIn root origin.document)) reading
  | [], _, _, h => nomatch h
  | child :: others, reading, hholds, h => by
    rw [derivationIn?] at h
    split at h
    · obtain rfl := Option.some.inj h
      exact keeps_derivation hR method child (hholds child List.mem_cons_self)
    · exact keeps_derivationIn? hR method others reading
        (fun other hother => hholds other (List.mem_cons_of_mem _ hother)) h

theorem keeps_derivation (hR : HoldsIn R root origin.document) (method : DerivationMethod) :
    ∀ element, root.Holds element →
      Keeps (TypeTable.AllRefer R)
        (fun made => ∀ construct ∈ made.children,
          construct.AllRefer (WrittenIn root origin.document)) (derivation origin method element)
  | ⟨tag, attributes, scope, text, children⟩, h => by
    rw [derivation]
    have hchildren := keeps_constructs hR children fun child hchild => h.tail hchild
    refine .after fun _ => ?_
    refine .bind (keeps_namedType _) fun _ _ => ?_
    exact .bind hchildren fun content hcontent => .pure hcontent

end

variable {element : Xml.Element} (hR : HoldsIn R root origin.document) (h : root.Holds element)

include hR h

theorem keeps_globalElement :
    Keeps (TypeTable.AllRefer R) (fun _ => True) (globalElement origin element) := by
  unfold globalElement
  refine .after fun _ => .after fun _ => .after fun _ => ?_
  refine .bind (keeps_elementType fun reading hreading => ?_) fun _ _ => .pure trivial
  have hdefinition := keeps_complexTypeIn? hR element.children reading
    (fun child hchild => h.tail hchild) hreading
  exact hdefinition.weaken fun _ hmade => hmade.mono hR

theorem keeps_globalAttributeGroup :
    Keeps (TypeTable.AllRefer R)
      (fun group => ∀ construct ∈ group.attributes,
        construct.AllRefer (WrittenIn root origin.document))
      (globalAttributeGroup origin element) := by
  unfold globalAttributeGroup
  refine .after fun _ => ?_
  refine .bind (keeps_constructs hR element.children fun child hchild => h.tail hchild)
    fun children hchildren => .pure fun construct hconstruct => ?_
  exact hchildren construct (List.mem_filter.mp hconstruct).1

theorem keeps_globalModelGroup :
    Keeps (TypeTable.AllRefer R)
      (fun group => ∀ construct ∈ group.children,
        construct.AllRefer (WrittenIn root origin.document))
      (globalModelGroup origin element) := by
  unfold globalModelGroup
  refine .after fun _ => ?_
  split
  · rename_i kind child hchild
    have hmem : child ∈ element.children := by
      obtain ⟨found, hfound, hkind⟩ := List.exists_of_findSome?_eq_some hchild
      obtain ⟨_, -, heq⟩ := Option.map_eq_some_iff.mp hkind
      obtain rfl := (Prod.mk.inj heq).2
      exact (List.mem_filter.mp hfound).1
    refine .after fun _ => ?_
    exact .bind (keeps_constructs hR child.children fun inner hinner =>
      (h.tail hmem).tail hinner) fun _ hchildren => .pure hchildren
  · exact .throw

end Document

end Reading

end SchemaForms
