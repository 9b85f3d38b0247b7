import SchemaForms.Proofs.Schema.Lockstep

/-!
Everything that is read from a document is read alike into any two tables. There is one lemma for
each function that reads; it follows the function step by step, and what was read before a step
still matches in the world after it.
-/

namespace SchemaForms

namespace Reading

variable {α : Type} {origin : Origin}

/-- Read from an element of a document, into any two tables that may hold its components. -/
def Uniform (origin : Origin) (R : Matching → α → α → Prop) (reading : Reading α) : Prop :=
  ∀ world : World, world.documents origin.document → Lockstep R world reading reading

theorem uniform_throw {R : Matching → α → α → Prop} {error : SchemaError} :
    Uniform origin R (throw error) :=
  fun _ _ => .throw

theorem uniform_after {β : Type} {R : Matching → α → α → Prop} {result : Except SchemaError β}
    {next : β → Reading α} (h : ∀ b, Uniform origin R (next b)) :
    Uniform origin R (liftM result >>= next) :=
  fun world hdocument => .after fun b => h b world hdocument

theorem uniform_inlined {inline : Reading TypeDefinition}
    (h : Uniform origin TypeDefinition.Matches inline) :
    Uniform origin Matching.ref (do anonymousType (← inline)) :=
  fun world hdocument => .bind (h world hdocument) fun _ _ _ _ hmatches =>
    lockstep_anonymousType hmatches

theorem uniform_namedOrInline {attributeName : String} {element : Xml.Element}
    {inline : Option (Reading TypeDefinition)} {default : ExpandedName}
    (h : ∀ reading, inline = some reading → Uniform origin TypeDefinition.Matches reading) :
    Uniform origin Matching.ref (namedOrInline attributeName element inline default) := by
  unfold namedOrInline
  split
  · exact uniform_after fun name _ _ => lockstep_namedType name
  · exact uniform_inlined (h _ rfl)
  · exact fun _ _ => lockstep_namedType default

theorem uniform_inlineOrNamed {attributeName : String} {element : Xml.Element}
    {inline : Option (Reading TypeDefinition)} {default : ExpandedName}
    (h : ∀ reading, inline = some reading → Uniform origin TypeDefinition.Matches reading) :
    Uniform origin Matching.ref (inlineOrNamed attributeName element inline default) := by
  unfold inlineOrNamed
  split
  · exact uniform_inlined (h _ rfl)
  · exact uniform_namedOrInline fun _ h => nomatch h

theorem lockstep_namedTypes {world : World} (names : List ExpandedName) :
    Lockstep (fun matching => List.Forall₂ matching.ref) world (names.mapM namedType)
      (names.mapM namedType) := by
  induction names generalizing world with
  | nil => exact .pure .nil
  | cons name others ih =>
    rw [List.mapM_cons]
    refine .bind (lockstep_namedType name) fun named first first' _ hfirst => ?_
    refine .bind ih fun later rest rest' hlater hrest => .pure ?_
    exact .cons (hlater.implies.ref _ _ hfirst) hrest

mutual

theorem uniform_simpleType (name : Option ExpandedName) :
    ∀ element, Uniform origin TypeDefinition.Matches (simpleType origin name element)
  | ⟨tag, _, _, _, children⟩ => by
    rw [simpleType]
    split
    · rename_i variety hvariety
      have huniform : Uniform origin SimpleVariety.Matches variety := by
        rcases Option.or_eq_some_iff.mp hvariety with hfirst | ⟨-, hunion⟩
        · rcases Option.or_eq_some_iff.mp hfirst with hrestriction | ⟨-, hlist⟩
          · exact uniform_varietyIn? _ children _ hrestriction
          · exact uniform_varietyIn? _ children _ hlist
        · exact uniform_varietyIn? _ children _ hunion
      intro world hdocument
      refine .bind (huniform world hdocument) fun later _ _ hlater hmatches => .pure ?_
      exact .simple (hlater.implies.document _ hdocument) hmatches
    · exact uniform_throw

theorem uniform_varietyIn? (localName : String) :
    ∀ children reading, varietyIn? origin localName children = some reading →
      Uniform origin SimpleVariety.Matches reading
  | [], _, h => nomatch h
  | child :: others, reading, h => by
    rw [varietyIn?] at h
    split at h
    · obtain rfl := Option.some.inj h
      exact uniform_variety child
    · exact uniform_varietyIn? localName others reading h

theorem uniform_variety :
    ∀ element, Uniform origin SimpleVariety.Matches (variety origin element)
  | ⟨tag, attributes, scope, text, children⟩ => by
    rw [variety]
    have hinline := uniform_simpleTypeIn? children
    have hmembers := uniform_inlineMembers children
    split
    · intro world hdocument
      refine .bind (uniform_namedOrInline hinline world hdocument) fun _ _ _ _ hbase => ?_
      exact .after fun _ => .pure (.restriction hbase)
    · intro world hdocument
      exact .bind (uniform_namedOrInline hinline world hdocument) fun _ _ _ _ hitem =>
        .pure (.list hitem)
    · refine uniform_after fun names world hdocument => ?_
      refine .bind (lockstep_namedTypes names) fun middle _ _ hmiddle hnamed => ?_
      refine .bind (hmembers middle (hmiddle.implies.document _ hdocument))
        fun later _ _ hlater hinside => .pure (.union ?_)
      exact List.rel_append (hnamed.imp hlater.implies.ref) hinside

theorem uniform_simpleTypeIn? :
    ∀ children reading, simpleTypeIn? origin children = some reading →
      Uniform origin TypeDefinition.Matches reading
  | [], _, h => nomatch h
  | child :: others, reading, h => by
    rw [simpleTypeIn?] at h
    split at h
    · obtain rfl := Option.some.inj h
      exact uniform_simpleType none child
    · exact uniform_simpleTypeIn? others reading h

theorem uniform_inlineMembers :
    ∀ children, Uniform origin (fun matching => List.Forall₂ matching.ref)
      (inlineMembers origin children)
  | [] => by
    rw [inlineMembers]
    exact fun _ _ => .pure .nil
  | child :: others => by
    rw [inlineMembers]
    split
    · intro world hdocument
      refine .bind (uniform_simpleType none child world hdocument)
        fun defined _ _ hdefined hmatches => ?_
      refine .bind (lockstep_anonymousType hmatches) fun entered _ _ hentered hfirst => ?_
      have hheld := hentered.implies.document _ (hdefined.implies.document _ hdocument)
      refine .bind (uniform_inlineMembers others entered hheld)
        fun later _ _ hlater hrest => .pure ?_
      exact .cons (hlater.implies.ref _ _ hfirst) hrest
    · exact uniform_inlineMembers others

end

theorem uniform_attributeDeclaration (isGlobal : Bool) (element : Xml.Element) :
    Uniform origin AttributeDeclaration.Matches (attributeDeclaration origin isGlobal element) := by
  unfold attributeDeclaration
  split
  · refine uniform_after fun name world hdocument => ?_
    refine .bind (lockstep_namedType _) fun later _ _ hlater htype => .pure ?_
    exact ⟨htype, hlater.implies.document _ hdocument, rfl⟩
  · refine uniform_after fun written world hdocument => ?_
    refine .bind (uniform_inlineOrNamed (uniform_simpleTypeIn? _) world hdocument)
      fun later _ _ hlater htype => .pure ?_
    exact ⟨htype, hlater.implies.document _ hdocument, rfl⟩

theorem uniform_elementType {element : Xml.Element} {complex : Option (Reading TypeDefinition)}
    (hcomplex : ∀ reading, complex = some reading →
      Uniform origin TypeDefinition.Matches reading) :
    Uniform origin Matching.ref (elementType origin element complex) := by
  refine uniform_inlineOrNamed fun reading hreading => ?_
  rcases Option.or_eq_some_iff.mp hreading with hfound | ⟨-, hsimple⟩
  · exact hcomplex reading hfound
  · exact uniform_simpleTypeIn? _ reading hsimple

theorem uniform_elementReference {element : Xml.Element}
    {complex : Option (Reading TypeDefinition)}
    (hcomplex : ∀ reading, complex = some reading →
      Uniform origin TypeDefinition.Matches reading) :
    Uniform origin ElementRef.Matches (elementReference origin element complex) := by
  unfold elementReference
  split
  · exact uniform_after fun name world hdocument => .pure (.globally hdocument)
  · refine uniform_after fun name world hdocument => ?_
    refine .bind (uniform_elementType hcomplex world hdocument)
      fun later _ _ hlater htype => .pure (.locally ?_)
    exact ⟨htype, hlater.implies.document _ hdocument, rfl⟩

theorem uniform_derivedContent (element : Xml.Element)
    {extension restriction : Option (Reading Derivation)}
    (hextension : ∀ reading, extension = some reading →
      Uniform origin Derivation.Matches reading)
    (hrestriction : ∀ reading, restriction = some reading →
      Uniform origin Derivation.Matches reading) :
    Uniform origin Derivation.Matches (derivedContent element extension restriction) := by
  unfold derivedContent
  split
  · rename_i reading hreading
    rcases Option.or_eq_some_iff.mp hreading with hfound | ⟨-, hfound⟩
    · exact hextension reading hfound
    · exact hrestriction reading hfound
  · exact uniform_throw

theorem uniform_compositor (kind : Compositor) (element : Xml.Element)
    {inside : Reading (List Construct)} (h : Uniform origin Construct.AllMatch inside) :
    Uniform origin Construct.Matches
      (do let occurs ← liftM (Occurs.ofElement element)
          return .compositor kind occurs (← inside)) := by
  refine uniform_after fun occurs world hdocument => ?_
  exact .bind (h world hdocument) fun _ _ _ _ hchildren => .pure (.compositor hchildren)

mutual

theorem uniform_complexType (name : Option ExpandedName) :
    ∀ element, Uniform origin TypeDefinition.Matches (complexType origin name element)
  | ⟨tag, attributes, scope, text, children⟩ => by
    rw [complexType]
    have hchildren := uniform_constructs children
    refine uniform_after fun _ => uniform_after fun _ world hdocument => ?_
    refine .bind (hchildren world hdocument) fun later _ _ hlater hcontent => .pure ?_
    exact .complex (hlater.implies.document _ hdocument) hcontent

theorem uniform_complexTypeIn? :
    ∀ children reading, complexTypeIn? origin children = some reading →
      Uniform origin TypeDefinition.Matches reading
  | [], _, h => nomatch h
  | child :: others, reading, h => by
    rw [complexTypeIn?] at h
    split at h
    · obtain rfl := Option.some.inj h
      exact uniform_complexType none child
    · exact uniform_complexTypeIn? others reading h

theorem uniform_constructs :
    ∀ children, Uniform origin Construct.AllMatch (constructs origin children)
  | [] => by
    rw [constructs]
    exact fun _ _ => .pure .nil
  | child :: others => by
    rw [constructs]
    split
    · intro world hdocument
      refine .bind (uniform_construct child world hdocument) fun middle _ _ hmiddle hfirst => ?_
      refine .bind (uniform_constructs others middle (hmiddle.implies.document _ hdocument))
        fun later _ _ hlater hrest => .pure ?_
      exact .cons (hfirst.mono hlater.implies) hrest
    · exact uniform_constructs others

theorem uniform_construct :
    ∀ element, Uniform origin Construct.Matches (construct origin element)
  | ⟨tag, attributes, scope, text, children⟩ => by
    rw [construct]
    have hchildren := uniform_constructs children
    have hderived := fun element : Xml.Element => uniform_derivedContent element
      (uniform_derivationIn? .extension children) (uniform_derivationIn? .restriction children)
    -- The cases are the tags in their order.
    split
    · exact fun world hdocument => .bind (uniform_attributeDeclaration false _ world hdocument)
        fun _ _ _ _ huse => .pure (.attributeUse huse)
    · exact uniform_after fun name _ _ => .pure .attributeGroup
    · refine fun world hdocument => .bind (hderived _ world hdocument) ?_
      rintro _ ⟨method, base, inside⟩ ⟨_, base', inside'⟩ - ⟨rfl, hbase, hinside⟩
      exact .pure (.simpleContent hbase hinside)
    · refine fun world hdocument => .bind (hderived _ world hdocument) ?_
      rintro _ ⟨method, base, inside⟩ ⟨_, base', inside'⟩ - ⟨rfl, hbase, hinside⟩
      exact .pure (.complexContent hbase hinside)
    · exact uniform_compositor .all _ hchildren
    · exact uniform_compositor .choice _ hchildren
    · exact uniform_compositor .sequence _ hchildren
    · exact uniform_after fun name => uniform_after fun occurs _ _ => .pure .group
    · refine uniform_after fun occurs world hdocument => ?_
      refine .bind (uniform_elementReference (uniform_complexTypeIn? children) world hdocument) ?_
      exact fun _ _ _ _ hreference => .pure (.element hreference)
    · exact uniform_after fun occurs _ _ => .pure .wildcard
    · exact fun _ _ => .pure .other

theorem uniform_derivationIn? (method : DerivationMethod) :
    ∀ children reading, derivationIn? origin method children = some reading →
      Uniform origin Derivation.Matches reading
  | [], _, h => nomatch h
  | child :: others, reading, h => by
    rw [derivationIn?] at h
    split at h
    · obtain rfl := Option.some.inj h
      exact uniform_derivation method child
    · exact uniform_derivationIn? method others reading h

theorem uniform_derivation (method : DerivationMethod) :
    ∀ element, Uniform origin Derivation.Matches (derivation origin method element)
  | ⟨tag, attributes, scope, text, children⟩ => by
    rw [derivation]
    have hchildren := uniform_constructs children
    refine uniform_after fun base world hdocument => ?_
    refine .bind (lockstep_namedType base) fun middle _ _ hmiddle hbase => ?_
    refine .bind (hchildren middle (hmiddle.implies.document _ hdocument))
      fun later _ _ hlater hinside => .pure ?_
    exact ⟨rfl, hlater.implies.ref _ _ hbase, hinside⟩

end

theorem uniform_globalElement (element : Xml.Element) :
    Uniform origin ElementDeclaration.Matches (globalElement origin element) := by
  unfold globalElement
  refine uniform_after fun _ => uniform_after fun _ => uniform_after fun _ world hdocument => ?_
  refine .bind (uniform_elementType (uniform_complexTypeIn? _) world hdocument)
    fun later _ _ hlater htype => .pure ?_
  exact ⟨htype, hlater.implies.document _ hdocument, rfl⟩

theorem uniform_globalAttributeGroup (element : Xml.Element) :
    Uniform origin AttributeGroup.Matches (globalAttributeGroup origin element) := by
  unfold globalAttributeGroup
  refine uniform_after fun _ world hdocument => ?_
  refine .bind (uniform_constructs _ world hdocument) fun later _ _ hlater hchildren => .pure ?_
  refine ⟨?_, hlater.implies.document _ hdocument, rfl⟩
  exact List.rel_filter (fun _ _ h => iff_of_eq (congrArg (· = true) h.isAttribute_eq)) hchildren

theorem uniform_globalModelGroup (element : Xml.Element) :
    Uniform origin ModelGroup.Matches (globalModelGroup origin element) := by
  unfold globalModelGroup
  refine uniform_after fun _ => ?_
  split
  · refine uniform_after fun _ world hdocument => ?_
    refine .bind (uniform_constructs _ world hdocument) fun later _ _ hlater hchildren => .pure ?_
    exact ⟨hchildren, hlater.implies.document _ hdocument, rfl⟩
  · exact uniform_throw

end Reading

end SchemaForms
