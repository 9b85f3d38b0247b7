import SchemaForms.Compile.Members
import SchemaForms.Compile.Rows

/-!
The content of an element, shown construct by construct. Attributes come first. A construct that
fails is left out with a warning, and the others are shown. An extension shows its base in place
before its own constructs; a restriction restates what it keeps. Derivations are followed for at
most 32 steps, which ends them on cycles.
-/

namespace SchemaForms.Compile

/-- Shows one construct of the content of an element. -/
abbrev ConstructRenderer := Construct → Attempt (List TemplateNode)

def attributesFirst (constructs : List Construct) : List Construct :=
  constructs.filter Construct.isAttribute ++ constructs.filter (!·.isAttribute)

def renderAll (each : ConstructRenderer) (here : Address) (constructs : List Construct) :
    Logged (List TemplateNode) :=
  Logged.collect (fun construct => Attempt.orSkip here (each construct))
    (attributesFirst constructs)

namespace Scope

def prompt (here : Address) (occurs : Occurs) (members : List PrefixedName) : TemplateNode :=
  .choicePrompt here (1 ≤ occurs.min) members

/-- What is asked where one choice can be made. -/
def singlePrompt (here : Address) (occurs : Occurs) (members : List PrefixedName) : TemplateNode :=
  .guard .present here [.guard (.hasNoneOf members) here [prompt here occurs members]]

/-- What is asked where several choices can be made: at once while there are none, behind a toggle
while there may be more. -/
def repeatedPrompt (here : Address) (occurs : Occurs) (members : List PrefixedName) :
    TemplateNode :=
  .guard .present here [
    .guard (.hasNoneOf members) here [prompt here occurs members],
    .guard (.hasAnyOf members) here [
      .guard (.membersBelow members occurs.max) here [
        .toggle "add new child" [prompt here occurs members]]]]

/-- A member of a choice, shown while it is present. -/
def alternative (scope : Scope) (render : Renderer) (address : Address) :
    Attempt (List TemplateNode) := do
  return [.guard .present address (← scope.renderNode render address)]

/-- The members of a choice, each where it is present, and the question which to create. -/
def renderChoice (scope : Scope) (render : Renderer) (here : Address) (occurs : Occurs)
    (children : List Construct) : Attempt (List TemplateNode) := do
  let members ← scope.leafNames here children
  if occurs.isMany then
    let branches ← Logged.collect (fun name =>
      Attempt.orSkip here (branch scope render (here.child name) false)) members
    return branches ++ scope.editing [repeatedPrompt here occurs members]
  else
    let branches ← Logged.collect (fun name =>
      Attempt.orSkip here (scope.alternative render (here.child name))) members
    return branches ++ scope.editing [singlePrompt here occurs members]

def renderUse (scope : Scope) (render : Renderer) (here : Address) (use : AttributeDeclaration) :
    Attempt (List TemplateNode) := do
  scope.renderGuarded render (here.attr (← scope.attributeName use))

def baseType (scope : Scope) (here : Address) (base : TypeRef) : Except CompileError TypeId :=
  match scope.types.resolve? base with
  | some type => .ok type
  | none => .error (.undefinedBase here)

def fieldRole (scope : Scope) (here : Address) (node : SchemaNode) : Option Row → FieldRole
  | some row => .row row.var
  | none =>
    if node.occurs.isOptional && !scope.index.isRepeating here then .optionalText else .plain

/-- A box with the text, as a field of the base, and the attributes. -/
def renderText (scope : Scope) (each : ConstructRenderer) (here : Address) (row : Option Row) :
    Nat → Derivation → Attempt (List TemplateNode)
  | 0, _ => throw (.endlessDerivation here)
  | steps + 1, derivation =>
    match derivation.method with
    | .restriction => do
      Attempt.note here (.skipped (.restrictedText here))
      return []
    | .extension => do
      let type ← scope.baseType here derivation.base
      let node ← scope.node here
      let text ← match Shape.ofNode scope.types node type with
        | .textOnly inner => scope.renderText each here row steps inner
        | _ => pure [scope.scalarField here node type (scope.fieldRole here node row)]
      let others ← renderAll each here derivation.children
      return [.group .box (text ++ others)]

/-- The constructs of a derivation after what it takes over from its base. -/
def renderDerivation (scope : Scope) (each : ConstructRenderer) (here : Address) :
    Nat → Derivation → Attempt (List TemplateNode)
  | _, ⟨.restriction, _, children⟩ => do
    Attempt.note here .restatedContent
    renderAll each here children
  | 0, ⟨.extension, _, _⟩ => throw (.endlessDerivation here)
  | steps + 1, ⟨.extension, base, children⟩ => do
    let type ← scope.baseType here base
    let inherited ← match scope.types.definition type with
      | .complex type =>
        match type.model with
        | .constructs content => renderAll each here content
        | .derived inner => scope.renderDerivation each here steps inner
        | .textOnly inner => scope.renderText each here none TypeTable.maxDerivationDepth inner
      | _ => pure []
    return inherited ++ (← renderAll each here children)

def renderConstruct (scope : Scope) (render : Renderer) (here : Address) : Nat → ConstructRenderer
  | 0, _ => throw (.nestedTooDeep here)
  | depth + 1, construct =>
    match construct with
    | .attributeUse use => scope.renderUse render here use
    | .attributeGroup name => do
      let uses ← scope.groupAttributes here name
      Logged.collect (fun use => Attempt.orSkip here (scope.renderUse render here use)) uses
    | .simpleContent method base children =>
      scope.renderText (scope.renderConstruct render here depth) here none
        TypeTable.maxDerivationDepth ⟨method, base, children⟩
    | .complexContent method base children =>
      scope.renderDerivation (scope.renderConstruct render here depth) here
        TypeTable.maxDerivationDepth ⟨method, base, children⟩
    | .compositor .choice occurs children => scope.renderChoice render here occurs children
    | .compositor _ _ children => do
      let nodes ← renderAll (scope.renderConstruct render here depth) here children
      return if nodes.isEmpty then [] else [.group .compositor nodes]
    | .group name occurs => do
      let group ← scope.modelGroup here name
      match group.kind with
      | .choice => scope.renderChoice render here (group.effectiveOccurs occurs) group.children
      | _ => renderAll (scope.renderConstruct render here depth) here group.children
    | .element reference _ => do
      scope.renderGuarded render (here.child (← scope.elementName reference))
    | .wildcard _ => scope.renderGuarded render (here.child scope.index.wildcardName)
    | .other tag => throw (.unrecognizedConstruct here tag)

end Scope

end SchemaForms.Compile
