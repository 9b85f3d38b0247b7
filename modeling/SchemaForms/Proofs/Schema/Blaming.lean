import SchemaForms.Schema.Import
import SchemaForms.Schema.Reading
import Mathlib.Tactic.Common

/-!
What the reading of components fails with. Whatever is read, and whatever types are known already, a
failure blames something that is written in the document: a prefix that no declaration is in force
for, an attribute that is missing, or a value that is not one of those expected. The other errors
are about whole documents, so none of them comes out of reading.
-/

namespace SchemaForms

/-- An error in what an element of a document says. -/
inductive SchemaError.IsWritten : SchemaError → Prop
  | unresolvedPrefix (qualifier : String) : IsWritten (.unresolvedPrefix qualifier)
  | missingAttribute (element attributeName : String) :
    IsWritten (.missingAttribute element attributeName)
  | invalidValue (value expected : String) : IsWritten (.invalidValue value expected)

theorem SchemaError.IsWritten.ne_nestedTooDeep {error : SchemaError} (h : error.IsWritten) :
    error ≠ .nestedTooDeep := by
  rintro rfl
  nomatch h

/-- What is looked up fails only with what is written. -/
def Blames {α : Type} (result : Except SchemaError α) : Prop :=
  ∀ error, result = .error error → error.IsWritten

section Results

variable {α β : Type} {element : Xml.Element}

theorem Blames.ok (a : α) : Blames (.ok a) := fun _ h => nomatch h

theorem Blames.error {error : SchemaError} (h : error.IsWritten) :
    Blames (.error error : Except SchemaError α) := by
  rintro _ ⟨⟩
  exact h

theorem Blames.bind {result : Except SchemaError α} {next : α → Except SchemaError β}
    (hresult : Blames result) (hnext : ∀ a, Blames (next a)) : Blames (result >>= next) := by
  cases result with
  | ok a => exact hnext a
  | error error => exact .error (hresult error rfl)

theorem Blames.map {result : Except SchemaError α} (h : Blames result) (f : α → β) :
    Blames (result.map f) := by
  cases result with
  | ok a => exact .ok _
  | error error => exact .error (h error rfl)

/-- What is not given has a value of its own. -/
theorem Blames.elim {next : α → Except SchemaError β} (h : ∀ a, Blames (next a)) {default : β}
    (given : Option α) : Blames (given.elim (.ok default) next) := by
  cases given with
  | none => exact .ok default
  | some a => exact h a

theorem Blames.mapM {step : α → Except SchemaError β} (h : ∀ a, Blames (step a))
    (list : List α) : Blames (list.mapM step) := by
  induction list with
  | nil => exact .ok []
  | cons a others ih =>
    rw [List.mapM_cons]
    exact (h a).bind fun first => ih.bind fun rest => .ok (first :: rest)

theorem ExpandedName.blames_ofValue (value : String) (element : Xml.Element) :
    Blames (ofValue value element) := by
  unfold ofValue resolve
  split
  · exact .ok _
  · dsimp only
    split
    · exact .ok _
    · exact .error (.unresolvedPrefix _)

theorem ExpandedName.blames_ofValues (value : String) (element : Xml.Element) :
    Blames (ofValues value element) :=
  .mapM (blames_ofValue · element) _

theorem Occurs.blames_readCount (written : String) : Blames (readCount written) := by
  unfold readCount
  split
  · exact .ok _
  · exact .error (.invalidValue _ _)

theorem Occurs.blames_readMax (written : String) : Blames (readMax written) := by
  unfold readMax
  split
  · exact .ok _
  · exact (blames_readCount written).map _

theorem Occurs.blames_ofElement (particle : Xml.Element) : Blames (ofElement particle) :=
  .bind (.elim blames_readCount _) fun _ => .bind (.elim blames_readMax _) fun _ => .ok _

theorem Import.blames_ofElement (element schema : Xml.Element) (base : String) :
    Blames (ofElement element schema base) := by
  unfold ofElement
  dsimp only
  split
  · split
    · exact .error (.invalidValue _ _)
    · exact .ok _
  · exact .ok _

end Results

namespace Reading

section Looking

variable (element : Xml.Element)

theorem blames_required (attributeName : String) : Blames (required element attributeName) := by
  unfold required
  split
  · exact .ok _
  · exact .error (.missingAttribute _ _)

theorem blames_flag (attributeName : String) : Blames (flag element attributeName) := by
  unfold flag
  split
  · exact .ok _
  · split
    · exact .ok _
    · exact .ok _
    · exact .ok _
    · exact .ok _
    · exact .error (.invalidValue _ _)

theorem blames_enumerationValues : Blames (enumerationValues element) :=
  .mapM (blames_required · "value") _

theorem blames_memberNames : Blames (memberNames element) := by
  unfold memberNames
  split
  · exact ExpandedName.blames_ofValues _ _
  · exact .ok _

theorem blames_headNames : Blames (headNames element) := by
  unfold headNames
  split
  · exact ExpandedName.blames_ofValues _ _
  · exact .ok _

theorem blames_referredName (attributeName : String) :
    Blames (referredName element attributeName) :=
  (blames_required element attributeName).bind fun _ => ExpandedName.blames_ofValue _ _

theorem blames_localElementName (origin : Origin) : Blames (localElementName origin element) :=
  (blames_required element "name").bind fun _ => .ok _

end Looking

/-- Whatever types there are already, a failure to read is due to what is written. -/
def BlamesText {α : Type} (reading : Reading α) : Prop :=
  ∀ table error, (reading.run.run table).1 = .error error → error.IsWritten

section Steps

variable {α β : Type}

theorem BlamesText.pure {a : α} : BlamesText (Pure.pure a : Reading α) := fun _ _ h => nomatch h

theorem BlamesText.throw {error : SchemaError} (h : error.IsWritten) :
    BlamesText (MonadExcept.throw error : Reading α) := by
  rintro table _ ⟨⟩
  exact h

theorem BlamesText.bind {reading : Reading α} {next : α → Reading β}
    (hreading : BlamesText reading) (hnext : ∀ a, BlamesText (next a)) :
    BlamesText (reading >>= next) := by
  intro table error herror
  rw [ExceptT.run_bind, StateT.run_bind] at herror
  rcases hrun : reading.run.run table with ⟨cause | a, reached⟩
  · rw [hrun] at herror
    obtain rfl := Except.error.inj herror
    exact hreading table cause (by rw [hrun])
  · rw [hrun] at herror
    exact hnext a reached error herror

theorem BlamesText.lookup {result : Except SchemaError α} {next : α → Reading β}
    (h : Blames result) (hnext : ∀ a, BlamesText (next a)) :
    BlamesText (liftM result >>= next) :=
  .bind (fun _ error herror => h error herror) hnext

theorem BlamesText.mapM {step : α → Reading β} (h : ∀ a, BlamesText (step a)) (list : List α) :
    BlamesText (list.mapM step) := by
  induction list with
  | nil => exact .pure
  | cons a others ih =>
    rw [List.mapM_cons]
    exact .bind (h a) fun _ => .bind ih fun _ => .pure

end Steps

theorem blames_namedType (name : ExpandedName) : BlamesText (namedType name) := by
  unfold namedType
  split
  · exact .bind (fun _ _ h => nomatch h) fun _ => .pure
  · exact .pure

theorem blames_anonymousType (definition : TypeDefinition) :
    BlamesText (anonymousType definition) :=
  .bind (fun _ _ h => nomatch h) fun _ => .pure

theorem blames_namedOrInline {attributeName : String} {element : Xml.Element}
    {inline : Option (Reading TypeDefinition)} {default : ExpandedName}
    (h : ∀ reading, inline = some reading → BlamesText reading) :
    BlamesText (namedOrInline attributeName element inline default) := by
  unfold namedOrInline
  split
  · exact .lookup (ExpandedName.blames_ofValue _ _) blames_namedType
  · exact .bind (h _ rfl) blames_anonymousType
  · exact blames_namedType default

theorem blames_inlineOrNamed {attributeName : String} {element : Xml.Element}
    {inline : Option (Reading TypeDefinition)} {default : ExpandedName}
    (h : ∀ reading, inline = some reading → BlamesText reading) :
    BlamesText (inlineOrNamed attributeName element inline default) := by
  unfold inlineOrNamed
  split
  · exact .bind (h _ rfl) blames_anonymousType
  · exact blames_namedOrInline fun _ h => nomatch h

mutual

theorem blames_simpleType (origin : Origin) (name : Option ExpandedName) :
    ∀ element, BlamesText (simpleType origin name element)
  | ⟨tag, _, _, _, children⟩ => by
    rw [simpleType]
    split
    · rename_i variety hvariety
      have hblames : BlamesText variety := by
        rcases Option.or_eq_some_iff.mp hvariety with hfirst | ⟨-, hunion⟩
        · rcases Option.or_eq_some_iff.mp hfirst with hrestriction | ⟨-, hlist⟩
          · exact blames_varietyIn? origin _ children _ hrestriction
          · exact blames_varietyIn? origin _ children _ hlist
        · exact blames_varietyIn? origin _ children _ hunion
      exact .bind hblames fun _ => .pure
    · exact .throw (.invalidValue _ _)

theorem blames_varietyIn? (origin : Origin) (localName : String) :
    ∀ children reading, varietyIn? origin localName children = some reading → BlamesText reading
  | [], _, h => nomatch h
  | child :: others, reading, h => by
    rw [varietyIn?] at h
    split at h
    · obtain rfl := Option.some.inj h
      exact blames_variety origin child
    · exact blames_varietyIn? origin localName others reading h

theorem blames_variety (origin : Origin) : ∀ element, BlamesText (variety origin element)
  | ⟨tag, attributes, scope, text, children⟩ => by
    rw [variety]
    have hinline := blames_simpleTypeIn? origin children
    split
    · refine .bind (blames_namedOrInline hinline) fun _ => ?_
      exact .lookup (blames_enumerationValues _) fun _ => .pure
    · exact .bind (blames_namedOrInline hinline) fun _ => .pure
    · refine .lookup (blames_memberNames _) fun names => ?_
      refine .bind (.mapM blames_namedType names) fun _ => ?_
      exact .bind (blames_inlineMembers origin children) fun _ => .pure

theorem blames_simpleTypeIn? (origin : Origin) :
    ∀ children reading, simpleTypeIn? origin children = some reading → BlamesText reading
  | [], _, h => nomatch h
  | child :: others, reading, h => by
    rw [simpleTypeIn?] at h
    split at h
    · obtain rfl := Option.some.inj h
      exact blames_simpleType origin none child
    · exact blames_simpleTypeIn? origin others reading h

theorem blames_inlineMembers (origin : Origin) :
    ∀ children, BlamesText (inlineMembers origin children)
  | [] => by
    rw [inlineMembers]
    exact .pure
  | child :: others => by
    rw [inlineMembers]
    split
    · refine .bind (blames_simpleType origin none child) fun _ => ?_
      refine .bind (blames_anonymousType _) fun _ => ?_
      exact .bind (blames_inlineMembers origin others) fun _ => .pure
    · exact blames_inlineMembers origin others

end

section Components

variable (origin : Origin) (element : Xml.Element)

theorem blames_attributeDeclaration (isGlobal : Bool) :
    BlamesText (attributeDeclaration origin isGlobal element) := by
  unfold attributeDeclaration
  split
  · refine .lookup (ExpandedName.blames_ofValue _ _) fun _ => ?_
    exact .bind (blames_namedType _) fun _ => .pure
  · refine .lookup (blames_required _ _) fun _ => ?_
    exact .bind (blames_inlineOrNamed (blames_simpleTypeIn? origin _)) fun _ => .pure

theorem blames_elementType {complex : Option (Reading TypeDefinition)}
    (h : ∀ reading, complex = some reading → BlamesText reading) :
    BlamesText (elementType origin element complex) := by
  refine blames_inlineOrNamed fun reading hreading => ?_
  rcases Option.or_eq_some_iff.mp hreading with hfound | ⟨-, hsimple⟩
  · exact h reading hfound
  · exact blames_simpleTypeIn? origin _ reading hsimple

theorem blames_elementReference {complex : Option (Reading TypeDefinition)}
    (h : ∀ reading, complex = some reading → BlamesText reading) :
    BlamesText (elementReference origin element complex) := by
  unfold elementReference
  split
  · exact .lookup (ExpandedName.blames_ofValue _ _) fun _ => .pure
  · refine .lookup (blames_localElementName _ _) fun _ => ?_
    exact .bind (blames_elementType origin element h) fun _ => .pure

theorem blames_derivedContent {extension restriction : Option (Reading Derivation)}
    (hextension : ∀ reading, extension = some reading → BlamesText reading)
    (hrestriction : ∀ reading, restriction = some reading → BlamesText reading) :
    BlamesText (derivedContent element extension restriction) := by
  unfold derivedContent
  split
  · rename_i reading hreading
    rcases Option.or_eq_some_iff.mp hreading with hfound | ⟨-, hfound⟩
    · exact hextension reading hfound
    · exact hrestriction reading hfound
  · exact .throw (.invalidValue _ _)

mutual

theorem blames_complexType (name : Option ExpandedName) :
    ∀ element, BlamesText (complexType origin name element)
  | ⟨tag, attributes, scope, text, children⟩ => by
    rw [complexType]
    refine .lookup (blames_flag _ _) fun _ => .lookup (blames_flag _ _) fun _ => ?_
    exact .bind (blames_constructs children) fun _ => .pure

theorem blames_complexTypeIn? :
    ∀ children reading, complexTypeIn? origin children = some reading → BlamesText reading
  | [], _, h => nomatch h
  | child :: others, reading, h => by
    rw [complexTypeIn?] at h
    split at h
    · obtain rfl := Option.some.inj h
      exact blames_complexType none child
    · exact blames_complexTypeIn? others reading h

theorem blames_constructs : ∀ children, BlamesText (constructs origin children)
  | [] => by
    rw [constructs]
    exact .pure
  | child :: others => by
    rw [constructs]
    split
    · refine .bind (blames_construct child) fun _ => ?_
      exact .bind (blames_constructs others) fun _ => .pure
    · exact blames_constructs others

theorem blames_construct : ∀ element, BlamesText (construct origin element)
  | ⟨tag, attributes, scope, text, children⟩ => by
    rw [construct]
    have hderived := fun element : Xml.Element => blames_derivedContent element
      (blames_derivationIn? .extension children) (blames_derivationIn? .restriction children)
    have hcompositor : ∀ kind element, BlamesText (do
        let occurs ← liftM (Occurs.ofElement element)
        return Construct.compositor kind occurs (← constructs origin children)) := fun _ _ =>
      .lookup (Occurs.blames_ofElement _) fun _ => .bind (blames_constructs children) fun _ => .pure
    split
    · exact .bind (blames_attributeDeclaration origin _ false) fun _ => .pure
    · exact .lookup (blames_referredName _ _) fun _ => .pure
    · exact .bind (hderived _) fun _ => .pure
    · exact .bind (hderived _) fun _ => .pure
    · exact hcompositor .all _
    · exact hcompositor .choice _
    · exact hcompositor .sequence _
    · exact .lookup (blames_referredName _ _) fun _ =>
        .lookup (Occurs.blames_ofElement _) fun _ => .pure
    · refine .lookup (Occurs.blames_ofElement _) fun _ => ?_
      exact .bind (blames_elementReference origin _ (blames_complexTypeIn? children))
        fun _ => .pure
    · exact .lookup (Occurs.blames_ofElement _) fun _ => .pure
    · exact .pure

theorem blames_derivationIn? (method : DerivationMethod) :
    ∀ children reading, derivationIn? origin method children = some reading → BlamesText reading
  | [], _, h => nomatch h
  | child :: others, reading, h => by
    rw [derivationIn?] at h
    split at h
    · obtain rfl := Option.some.inj h
      exact blames_derivation method child
    · exact blames_derivationIn? method others reading h

theorem blames_derivation (method : DerivationMethod) :
    ∀ element, BlamesText (derivation origin method element)
  | ⟨tag, attributes, scope, text, children⟩ => by
    rw [derivation]
    refine .lookup (blames_referredName _ _) fun _ => .bind (blames_namedType _) fun _ => ?_
    exact .bind (blames_constructs children) fun _ => .pure

end

theorem blames_globalElement : BlamesText (globalElement origin element) := by
  unfold globalElement
  refine .lookup (blames_required _ _) fun _ => .lookup (blames_headNames _) fun _ => ?_
  refine .lookup (blames_flag _ _) fun _ => ?_
  exact .bind (blames_elementType origin element (blames_complexTypeIn? origin _)) fun _ => .pure

theorem blames_globalAttributeGroup : BlamesText (globalAttributeGroup origin element) := by
  unfold globalAttributeGroup
  refine .lookup (blames_required _ _) fun _ => ?_
  exact .bind (blames_constructs origin element.children) fun _ => .pure

theorem blames_globalModelGroup : BlamesText (globalModelGroup origin element) := by
  unfold globalModelGroup
  refine .lookup (blames_required _ _) fun _ => ?_
  split
  · refine .lookup (Occurs.blames_ofElement _) fun _ => ?_
    exact .bind (blames_constructs origin _) fun _ => .pure
  · exact .throw (.missingAttribute _ _)

end Components

end Reading

end SchemaForms
