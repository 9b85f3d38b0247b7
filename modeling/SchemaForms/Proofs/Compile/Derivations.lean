import SchemaForms.Proofs.Compile.Rendered
import SchemaForms.Proofs.Index.Content
import SchemaForms.Proofs.Template.Fields
import Mathlib.Logic.Relation

/-!
What a derivation is shown as. Its bases are followed down to the innermost one, and the content is
read outward from there: first what the innermost base has, then the own constructs of each
extension. Nothing is shown on the way down. So a chain of extensions that does not come to an end
within the bound, or that ends in a base that is not defined, fails before anything is noted.
-/

namespace SchemaForms.Compile

/-- What the text of an element is shown as: a field in a box, in further boxes for the types that
extend the one with the field. A restriction is not supported. -/
inductive ValueBox
  | unsupported
  | field (node : SchemaNode) (type : TypeId) (beside : List Construct)
  | around (inner : ValueBox) (beside : List Construct)

namespace ValueBox

/-- The derivations that the box is made of. -/
def steps : ValueBox → Nat
  | unsupported => 1
  | field _ _ _ => 1
  | around inner _ => inner.steps + 1

def shown (scope : Scope) (each : ConstructRenderer) (here : Address) (row : Option Row) :
    ValueBox → Logged (List TemplateNode)
  | unsupported => do
    Logged.note here (.skipped (.restrictedText here))
    return []
  | field node type beside => do
    let others ← renderAll each here beside
    return [.group .box
      (scope.scalarField here node type (scope.fieldRole here node row) :: others)]
  | around inner beside => do
    let text ← shown scope each here row inner
    let others ← renderAll each here beside
    return [.group .box (text ++ others)]

end ValueBox

/-- Where the bases of a derivation end. -/
inductive Innermost
  | nothing
  | constructs (content : List Construct)
  | restated (children : List Construct)
  | text (box : ValueBox)

namespace Innermost

/-- The derivations of text among the bases. -/
def steps : Innermost → Nat
  | text box => box.steps
  | _ => 0

def shown (scope : Scope) (each : ConstructRenderer) (here : Address) :
    Innermost → Logged (List TemplateNode)
  | nothing => return []
  | constructs content => renderAll each here content
  | restated children => do
    Logged.note here .restatedContent
    renderAll each here children
  | text box => box.shown scope each here none

/-- The innermost base, and then what the extensions add, from the inside out. -/
def shownOutward (scope : Scope) (each : ConstructRenderer) (here : Address) (base : Innermost)
    (layers : List (List Construct)) : Logged (List TemplateNode) := do
  let inherited ← base.shown scope each here
  let added ← Logged.collect (renderAll each here) layers
  return inherited ++ added

theorem shownOutward_nil (scope : Scope) (each : ConstructRenderer) (here : Address)
    (base : Innermost) :
    base.shownOutward scope each here [] = base.shown scope each here :=
  Logged.ext (by simp [shownOutward]) (by simp [shownOutward])

theorem shownOutward_concat (scope : Scope) (each : ConstructRenderer) (here : Address)
    (base : Innermost) (layers : List (List Construct)) (children : List Construct) :
    base.shownOutward scope each here (layers ++ [children]) = do
      let inherited ← base.shownOutward scope each here layers
      let others ← renderAll each here children
      return inherited ++ others :=
  Logged.ext (by simp [shownOutward]) (by simp [shownOutward])

end Innermost

namespace Scope

/-- How the text of an element is read off a derivation with its bases. -/
inductive ReadsText (scope : Scope) (here : Address) : Derivation → ValueBox → Prop
  | restriction {base children} : ReadsText scope here ⟨.restriction, base, children⟩ .unsupported
  | field {base children type node} (hbase : scope.types.resolve? base = some type)
      (hnode : scope.index.nodeOf? here = some node)
      (hvalue : ∀ inner, Shape.ofNode scope.types node type ≠ .textOnly inner) :
      ReadsText scope here ⟨.extension, base, children⟩ (.field node type children)
  | around {base children type node inner box} (hbase : scope.types.resolve? base = some type)
      (hnode : scope.index.nodeOf? here = some node)
      (hinner : Shape.ofNode scope.types node type = .textOnly inner)
      (h : ReadsText scope here inner box) :
      ReadsText scope here ⟨.extension, base, children⟩ (.around box children)

/-- A derivation extends a complex type that is derived itself. -/
def Extends (scope : Scope) (outer inner : Derivation) : Prop :=
  outer.method = .extension ∧ ∃ id type, scope.types.resolve? outer.base = some id ∧
    scope.types.definition id = .complex type ∧ type.model = .derived inner

/-- The bases of a derivation end, and these are the own constructs of the extensions on the way
there, from the inside out. -/
inductive EndsIn (scope : Scope) (here : Address) :
    Derivation → Innermost → List (List Construct) → Prop
  | restated {base children} :
      EndsIn scope here ⟨.restriction, base, children⟩ (.restated children) []
  | nothing {base children id} (hbase : scope.types.resolve? base = some id)
      (hsimple : (scope.types.definition id).isComplex = false) :
      EndsIn scope here ⟨.extension, base, children⟩ .nothing [children]
  | constructs {base children id type content} (hbase : scope.types.resolve? base = some id)
      (htype : scope.types.definition id = .complex type)
      (hmodel : type.model = .constructs content) :
      EndsIn scope here ⟨.extension, base, children⟩ (.constructs content) [children]
  | text {base children id type inner box} (hbase : scope.types.resolve? base = some id)
      (htype : scope.types.definition id = .complex type) (hmodel : type.model = .textOnly inner)
      (hbox : scope.ReadsText here inner box) :
      EndsIn scope here ⟨.extension, base, children⟩ (.text box) [children]
  | extension {base children inner innermost layers}
      (hextends : scope.Extends ⟨.extension, base, children⟩ inner)
      (h : EndsIn scope here inner innermost layers) :
      EndsIn scope here ⟨.extension, base, children⟩ innermost (layers ++ [children])

/-- So many extensions lead from one derivation to another. -/
inductive ExtendsIn (scope : Scope) : Nat → Derivation → Derivation → Prop
  | refl (derivation : Derivation) : ExtendsIn scope 0 derivation derivation
  | step {steps outer middle inner} (h : scope.Extends outer middle)
      (hrest : ExtendsIn scope steps middle inner) : ExtendsIn scope (steps + 1) outer inner

/-- A chain of extensions without a proper end: it comes back to itself, it is longer than the
bound, or it ends in a base that is not defined. -/
inductive Unfounded (scope : Scope) (derivation : Derivation) : Prop
  | cyclic {inner} (h : Relation.ReflTransGen scope.Extends derivation inner)
      (hcycle : Relation.TransGen scope.Extends inner inner)
  | tooLong {steps inner} (hlong : TypeTable.maxDerivationDepth ≤ steps)
      (h : scope.ExtendsIn steps derivation inner) (hmethod : inner.method = .extension)
  | undefined {inner} (h : Relation.ReflTransGen scope.Extends derivation inner)
      (hmethod : inner.method = .extension) (hbase : scope.types.resolve? inner.base = none)

variable {scope : Scope} {here : Address} {derivation inner : Derivation}

theorem ExtendsIn.trans {steps steps' : Nat} {middle : Derivation}
    (h : scope.ExtendsIn steps derivation middle) (hnext : scope.ExtendsIn steps' middle inner) :
    scope.ExtendsIn (steps + steps') derivation inner := by
  induction h with
  | refl => simpa using hnext
  | step hextends _ ih =>
    have hrest := ExtendsIn.step hextends (ih hnext)
    rwa [Nat.add_right_comm] at hrest

theorem exists_extendsIn (h : Relation.ReflTransGen scope.Extends derivation inner) :
    ∃ steps, scope.ExtendsIn steps derivation inner := by
  induction h using Relation.ReflTransGen.head_induction_on with
  | refl => exact ⟨0, .refl _⟩
  | head hextends _ ih =>
    obtain ⟨steps, hsteps⟩ := ih
    exact ⟨steps + 1, .step hextends hsteps⟩

/-- A circle can be gone round as often as one likes. -/
theorem exists_extendsIn_of_cycle (h : Relation.TransGen scope.Extends inner inner) (least : Nat) :
    ∃ steps, least ≤ steps ∧ scope.ExtendsIn steps inner inner := by
  obtain ⟨next, hfirst, hback⟩ := Relation.TransGen.head'_iff.mp h
  obtain ⟨steps, hsteps⟩ := exists_extendsIn hback
  induction least with
  | zero => exact ⟨0, Nat.le_refl 0, .refl _⟩
  | succ least ih =>
    obtain ⟨rounds, hleast, hrounds⟩ := ih
    refine ⟨steps + 1 + rounds, by omega, ?_⟩
    exact (ExtendsIn.step hfirst hsteps).trans hrounds

section Shown

variable {each : ConstructRenderer} {row : Option Row} {steps : Nat}

theorem baseType_eq_ok {base : TypeRef} {id : TypeId} (h : scope.types.resolve? base = some id) :
    scope.baseType here base = .ok id := by
  rw [baseType, h]

theorem baseType_eq_error {base : TypeRef} (h : scope.types.resolve? base = none) :
    scope.baseType here base = .error (.undefinedBase here) := by
  rw [baseType, h]

theorem ok_bind {α β : Type} (a : α) (next : α → Attempt β) :
    (liftM (Except.ok a : Except CompileError α) >>= next : Attempt β) = next a := rfl

/-- The text of an element is shown as its box. -/
theorem renderText_eq {box : ValueBox} (h : scope.ReadsText here derivation box)
    (hsteps : box.steps ≤ steps) :
    scope.renderText each here row steps derivation =
      (liftM (box.shown scope each here row) : Attempt (List TemplateNode)) := by
  induction h generalizing steps with
  | restriction =>
    obtain ⟨steps, rfl⟩ := Nat.exists_eq_add_of_le' hsteps
    rfl
  | field hbase hnode hvalue =>
    obtain ⟨steps, rfl⟩ := Nat.exists_eq_add_of_le' hsteps
    rw [ValueBox.steps, renderText, baseType_eq_ok hbase, node_eq_ok_iff.mpr hnode]
    dsimp only
    rw [ok_bind, ok_bind, ValueBox.shown, liftM_bind]
    split
    · rename_i inner hinner
      exact absurd hinner (hvalue inner)
    · simp only [liftM_pure, pure_bind, List.singleton_append]
  | @around base children type node inner box hbase hnode hinner _ ih =>
    rw [ValueBox.steps] at hsteps
    obtain ⟨steps, rfl⟩ := Nat.exists_eq_add_of_le' hsteps
    rw [← Nat.add_assoc, renderText, baseType_eq_ok hbase, node_eq_ok_iff.mpr hnode]
    dsimp only
    rw [ok_bind, ok_bind, hinner, ValueBox.shown]
    simp only [liftM_bind, liftM_pure]
    rw [ih (Nat.le_add_left _ _)]

/-- What an extension takes over from its base. -/
def inherited (scope : Scope) (each : ConstructRenderer) (here : Address) (steps : Nat)
    (id : TypeId) : Attempt (List TemplateNode) :=
  match scope.types.definition id with
  | .complex type =>
    match type.model with
    | .constructs content => liftM (renderAll each here content)
    | .derived inner => scope.renderDerivation each here steps inner
    | .textOnly inner => scope.renderText each here none TypeTable.maxDerivationDepth inner
  | _ => pure []

theorem renderDerivation_extension {base : TypeRef} {children : List Construct} {id : TypeId}
    (hbase : scope.types.resolve? base = some id) :
    scope.renderDerivation each here (steps + 1) ⟨.extension, base, children⟩ = (do
      let nodes ← scope.inherited each here steps id
      let others ← liftM (renderAll each here children)
      return nodes ++ others) := by
  rw [renderDerivation, baseType_eq_ok hbase, inherited]
  dsimp only
  rw [ok_bind]
  cases scope.types.definition id with
  | builtin name => rfl
  | simple definition => rfl
  | complex type =>
    dsimp only
    cases type.model <;> rfl

/-- A derivation is shown outward from the end of its bases. -/
theorem renderDerivation_eq {innermost : Innermost} {layers : List (List Construct)}
    (h : scope.EndsIn here derivation innermost layers)
    (htext : innermost.steps ≤ TypeTable.maxDerivationDepth) (hsteps : layers.length ≤ steps) :
    scope.renderDerivation each here steps derivation =
      (liftM (innermost.shownOutward scope each here layers) : Attempt (List TemplateNode)) := by
  -- the end of a chain is its first layer on top of none
  have hsingle : ∀ (base : Innermost) (children : List Construct),
      base.shownOutward scope each here [children] = (do
        let inherited ← base.shown scope each here
        let others ← renderAll each here children
        return inherited ++ others) := by
    intro base children
    rw [← base.shownOutward_nil, ← base.shownOutward_concat, List.nil_append]
  induction h generalizing steps with
  | @restated base children =>
    rw [Innermost.shownOutward_nil]
    cases steps <;> rfl
  | @nothing base children id hbase hsimple =>
    obtain ⟨steps, rfl⟩ := Nat.exists_eq_add_of_le' hsteps
    rw [List.length_singleton, renderDerivation_extension hbase, hsingle]
    have hnothing : scope.inherited each here steps id = pure [] := by
      unfold inherited
      cases hdefinition : scope.types.definition id with
      | complex type => simp [hdefinition, TypeDefinition.isComplex] at hsimple
      | _ => rfl
    rw [hnothing]
    simp only [Innermost.shown, liftM_bind, liftM_pure]
  | @constructs base children id type content hbase htype hmodel =>
    obtain ⟨steps, rfl⟩ := Nat.exists_eq_add_of_le' hsteps
    rw [List.length_singleton, renderDerivation_extension hbase, hsingle, inherited, htype]
    dsimp only
    rw [hmodel]
    simp only [Innermost.shown, liftM_bind, liftM_pure]
  | @text base children id type inner box hbase htype hmodel hbox =>
    obtain ⟨steps, rfl⟩ := Nat.exists_eq_add_of_le' hsteps
    rw [List.length_singleton, renderDerivation_extension hbase, hsingle, inherited, htype]
    dsimp only
    rw [hmodel]
    dsimp only
    rw [renderText_eq hbox htext]
    simp only [Innermost.shown, liftM_bind, liftM_pure]
  | @extension base children inner innermost layers hextends _ ih =>
    obtain ⟨-, id, type, hbase, htype, hmodel⟩ := hextends
    rw [List.length_append, List.length_singleton] at hsteps
    obtain ⟨steps, rfl⟩ := Nat.exists_eq_add_of_le' hsteps
    rw [← Nat.add_assoc, renderDerivation_extension hbase, Innermost.shownOutward_concat, inherited,
      htype]
    dsimp only
    rw [hmodel]
    dsimp only
    rw [ih htext (Nat.le_add_left _ _)]
    simp only [liftM_bind, liftM_pure]

/-- A failure further down is the failure of the whole, and nothing was noted before it. -/
theorem renderDerivation_of_extends (h : scope.Extends derivation inner) {error : CompileError}
    (herror : (scope.renderDerivation each here steps inner).run = ⟨.error error, []⟩) :
    (scope.renderDerivation each here (steps + 1) derivation).run = ⟨.error error, []⟩ := by
  obtain ⟨method, base, children⟩ := derivation
  obtain ⟨rfl, id, type, hbase, htype, hmodel⟩ := h
  rw [renderDerivation_extension hbase, inherited, htype]
  dsimp only
  rw [hmodel, ExceptT.run_bind]
  dsimp only
  rw [herror]
  rfl

theorem renderDerivation_zero (hmethod : derivation.method = .extension) :
    (scope.renderDerivation each here 0 derivation).run =
      ⟨.error (.endlessDerivation here), []⟩ := by
  obtain ⟨method, base, children⟩ := derivation
  obtain rfl := hmethod
  rfl

theorem renderDerivation_undefined (hmethod : derivation.method = .extension)
    (hbase : scope.types.resolve? derivation.base = none) :
    (scope.renderDerivation each here (steps + 1) derivation).run =
      ⟨.error (.undefinedBase here), []⟩ := by
  obtain ⟨method, base, children⟩ := derivation
  obtain rfl := hmethod
  rw [renderDerivation, baseType_eq_error hbase]
  rfl

/-- With no steps left the next extension fails. -/
theorem renderDerivation_tooLong {count : Nat} (h : scope.ExtendsIn count derivation inner)
    (hmethod : inner.method = .extension) (hlong : steps ≤ count) :
    (scope.renderDerivation each here steps derivation).run =
      ⟨.error (.endlessDerivation here), []⟩ := by
  induction h generalizing steps with
  | refl =>
    obtain rfl := Nat.le_zero.mp hlong
    exact renderDerivation_zero hmethod
  | step hextends _ ih =>
    cases steps with
    | zero => exact renderDerivation_zero hextends.1
    | succ steps => exact renderDerivation_of_extends hextends (ih hmethod (by omega))

theorem renderDerivation_endsUndefined {count : Nat}
    (h : scope.ExtendsIn count derivation inner) (hmethod : inner.method = .extension)
    (hbase : scope.types.resolve? inner.base = none) (hsteps : count < steps) :
    (scope.renderDerivation each here steps derivation).run =
      ⟨.error (.undefinedBase here), []⟩ := by
  obtain ⟨steps, rfl⟩ := Nat.exists_eq_add_of_lt hsteps
  induction h with
  | refl => exact renderDerivation_undefined hmethod hbase
  | @step count outer middle inner hextends _ ih =>
    have hrest := renderDerivation_of_extends hextends (ih hmethod hbase (by omega))
    rwa [show count + 1 + steps + 1 = count + steps + 1 + 1 by omega]

/-- A chain without a proper end fails before anything is shown. -/
theorem renderDerivation_unfounded (h : scope.Unfounded derivation) :
    ∃ error, (scope.renderDerivation each here TypeTable.maxDerivationDepth derivation).run =
      ⟨.error error, []⟩ := by
  rcases h with @⟨inner, h, hcycle⟩ | @⟨count, inner, hlong, h, hmethod⟩ |
    @⟨inner, h, hmethod, hbase⟩
  · obtain ⟨count, hcount⟩ := exists_extendsIn h
    obtain ⟨rounds, hlong, hrounds⟩ :=
      exists_extendsIn_of_cycle hcycle TypeTable.maxDerivationDepth
    obtain ⟨next, hfirst, -⟩ := Relation.TransGen.head'_iff.mp hcycle
    exact ⟨_, renderDerivation_tooLong (hcount.trans hrounds) hfirst.1 (by omega)⟩
  · exact ⟨_, renderDerivation_tooLong h hmethod hlong⟩
  · obtain ⟨count, hcount⟩ := exists_extendsIn h
    by_cases hsteps : count < TypeTable.maxDerivationDepth
    · exact ⟨_, renderDerivation_endsUndefined hcount hmethod hbase hsteps⟩
    · exact ⟨_, renderDerivation_tooLong hcount hmethod (by omega)⟩

/-- A derivation with at most so many bases is shown outward from the innermost one, where text is
restricted with a warning instead of a box. A chain of extensions that does not end properly fails,
and nothing was shown before. -/
theorem renderDerivation_outward (scope : Scope) (each : ConstructRenderer) (here : Address)
    (derivation : Derivation) :
    (∀ innermost layers, scope.EndsIn here derivation innermost layers →
      layers.length + innermost.steps ≤ TypeTable.maxDerivationDepth →
      (scope.renderDerivation each here TypeTable.maxDerivationDepth derivation).run =
        .ok <$> innermost.shownOutward scope each here layers) ∧
    (scope.Unfounded derivation →
      ∃ error, (scope.renderDerivation each here TypeTable.maxDerivationDepth derivation).run =
        ⟨.error error, []⟩) := by
  refine ⟨fun innermost layers h hsteps => ?_, renderDerivation_unfounded⟩
  rw [renderDerivation_eq h (by omega) (by omega)]
  rfl

end Shown

end Scope

def unitAttribute : Construct :=
  .attributeUse ⟨⟨none, "unit"⟩, "unit", 0, true, .anonymous ⟨0⟩, false⟩

def amount (name : String) : Construct := .particle name (.anonymous ⟨0⟩) .once

/-- Prices are numbers with a unit, to which elements are added twice. A limit is a restricted
number with an element added. One type extends itself. -/
def prices : SchemaSet :=
  .declaring [.builtin (schemaName "decimal"),
    .containing [.simpleContent .extension (.anonymous ⟨0⟩) [unitAttribute]],
    .containing [.complexContent .extension (.anonymous ⟨1⟩) [amount "tax"]],
    .containing [.complexContent .extension (.anonymous ⟨2⟩) [amount "rebate"]],
    .containing [.simpleContent .restriction (.anonymous ⟨0⟩) []],
    .containing [.complexContent .extension (.anonymous ⟨4⟩) [amount "tax"]],
    .containing [.complexContent .extension (.anonymous ⟨6⟩) []]]
    [.unqualified "price" (.anonymous ⟨3⟩), .unqualified "limit" (.anonymous ⟨5⟩)]

def pricesScope (root : String) : Scope :=
  ⟨(SchemaIndex.build prices .disabled [⟨none, root⟩]).toOption.getD default, .edit,
    .root (.unprefixed root)⟩

/-- What a derivation is shown as at a root, with two levels of addresses. -/
def priceNodes (root : String) (derivation : Derivation) : Attempt (List TemplateNode) :=
  let scope := pricesScope root
  scope.renderDerivation
    (scope.renderConstruct (scope.render 1) scope.root scope.constructDepth) scope.root
    TypeTable.maxDerivationDepth derivation

theorem renderDerivation_outward_prices :
    let scope := pricesScope "price"
    let price : Derivation := ⟨.extension, .anonymous ⟨2⟩, [amount "rebate"]⟩
    let endless : Derivation := ⟨.extension, .anonymous ⟨6⟩, []⟩
    (∃ node, scope.EndsIn scope.root price (.text (.field node ⟨0⟩ [unitAttribute]))
        [[amount "tax"], [amount "rebate"]] ∧
      [[amount "tax"], [amount "rebate"]].length + 1 ≤ TypeTable.maxDerivationDepth ∧
      ∃ shown : Logged (List TemplateNode), (priceNodes "price" price).run = .ok <$> shown ∧
        TemplateNode.fieldAddresses shown.value = [scope.root, scope.root.attr (.unprefixed "unit"),
          scope.root.child (.unprefixed "tax"), scope.root.child (.unprefixed "rebate")]) ∧
    scope.Unfounded endless ∧ ∃ error, (priceNodes "price" endless).run = ⟨.error error, []⟩ := by
  intro scope price endless
  have hnode : scope.index.nodeOf? scope.root = some _ := rfl
  have hends : scope.EndsIn scope.root price (.text (.field _ ⟨0⟩ [unitAttribute]))
      ([[amount "tax"]] ++ [[amount "rebate"]]) :=
    .extension ⟨rfl, ⟨2⟩, _, rfl, rfl, rfl⟩ (.text rfl rfl rfl (.field rfl hnode nofun))
  have hendless : scope.Unfounded endless :=
    .cyclic .refl (.single ⟨rfl, ⟨6⟩, _, rfl, rfl, rfl⟩)
  have hrun := (scope.renderDerivation_outward
    (scope.renderConstruct (scope.render 1) scope.root scope.constructDepth) scope.root price).1 _ _
    hends (by decide)
  refine ⟨⟨_, hends, by decide, _, hrun, by decide +kernel⟩, hendless, ?_⟩
  exact (scope.renderDerivation_outward _ scope.root endless).2 hendless

/-- The base of the limit has text only, but as it restricts a number there is no field for it. -/
theorem restricted_base_shows_no_box :
    let scope := pricesScope "limit"
    let limit : Derivation := ⟨.extension, .anonymous ⟨4⟩, [amount "tax"]⟩
    (prices.types.definition ⟨4⟩).complex?.map ComplexType.model =
      some (.textOnly ⟨.restriction, .anonymous ⟨0⟩, []⟩) ∧
    scope.EndsIn scope.root limit (.text .unsupported) [[amount "tax"]] ∧
    (priceNodes "limit" limit).run.value.toOption.map TemplateNode.fieldAddresses =
      some [scope.root.child (.unprefixed "tax")] ∧
    (priceNodes "limit" limit).run.log.head? =
      some ⟨scope.root, .skipped (.restrictedText scope.root)⟩ :=
  ⟨rfl, .text rfl rfl rfl .restriction, by decide +kernel, by decide +kernel⟩

end SchemaForms.Compile
