import SchemaForms.Compile.Shape

/-!
Fields and the controls beside headers and fields. Only forms for editing have controls. A row can
be deleted; what is optional can be chosen while it is absent and removed while it is present; a
member of a choice can be given up. A header also starts the repetition that is all its element
holds, and then the repetition does not start itself.
-/

namespace SchemaForms.Compile

/-- Where a scalar stands: the text of an optional element, a row, or elsewhere. -/
inductive FieldRole where
  | plain
  | optionalText
  | row (var : String)
  deriving DecidableEq, Repr, Inhabited

def FieldRole.var? : FieldRole → Option String
  | row var => some var
  | _ => none

def leafText (address : Address) : String := (Label.ofAddress address).text

def captionOf (address : Address) (node : SchemaNode) (var : Option String) : Label :=
  ⟨leafText address, var, node.isRequired⟩

def deleteControl (address : Address) : TemplateNode := .affordance .delete address "delete" []

def choiceDeleteControl (address : Address) : TemplateNode :=
  .affordance .choiceDelete address "delete choice" []

def chooseControl (address : Address) : TemplateNode :=
  .affordance .choose address ("choose " ++ leafText address) []

def removeControl (address : Address) : TemplateNode :=
  .affordance .remove address ("remove " ++ leafText address) []

def optionalControls (address : Address) : List TemplateNode := [
  .guard .absent address [chooseControl address],
  .guard .present address [removeControl address]]

def startControl (child : Address) : TemplateNode :=
  .guard (.countBelow (.count 1)) child
    [.affordance .addChild child ("add " ++ leafText child) []]

namespace Scope

/-- Descriptions are told by their name and get room for text; the type decides the rest. -/
def inputKind (scope : Scope) (node : SchemaNode) (type : TypeId) : InputKind :=
  if !scope.isEdit then .display
  else if scope.types.isLanguage type then .languageSelect
  else if scope.types.isBoolean type then .booleanSelect
  else if "description".toList.isPrefixOf node.name.localName.toList then .textArea
  else if scope.types.isEnumeration type then
    if node.occurs.isMany then .multiSelect else .select
  else if scope.types.isComboUnion type then .combo
  else .text

def inputOptions (scope : Scope) (type : TypeId) : InputKind → List String
  | .select => scope.types.enumeration type
  | .multiSelect => scope.types.enumeration type
  | _ => []

def fieldControls (scope : Scope) (address : Address) : FieldRole → List TemplateNode
  | .row _ => [deleteControl address]
  | .optionalText => optionalControls address
  | .plain => if scope.index.isInChoice address then optionalControls address else []

def editing (scope : Scope) (controls : List TemplateNode) : List TemplateNode :=
  if scope.isEdit then controls else []

theorem editing_display {scope : Scope} (h : scope.mode = .display)
    (controls : List TemplateNode) : scope.editing controls = [] := by
  simp [editing, isEdit, h]

/-- The field of a scalar node that is shown as a type. -/
def scalarField (scope : Scope) (address : Address) (node : SchemaNode) (type : TypeId)
    (role : FieldRole) : TemplateNode :=
  let input := scope.inputKind node type
  .field address input (captionOf address node role.var?) (scope.inputOptions type input)
    (scope.editing (scope.fieldControls address role))

/-- The field of a node that may hold anything. -/
def anyField (scope : Scope) (address : Address) (node : SchemaNode) (var : Option String) :
    TemplateNode :=
  .field address (if scope.isEdit then .freeText else .escapedMarkup) (captionOf address node var)
    [] (scope.editing (if var.isSome then [deleteControl address] else []))

def occurrenceControls (scope : Scope) (address : Address) : List TemplateNode :=
  if scope.index.isInChoice address then [choiceDeleteControl address]
  else if address.isRoot then []
  else if !scope.index.isRequiredBranch address then optionalControls address
  else if scope.index.hasMultiSelect address then
    [.guard .childless address [chooseControl address]]
  else []

def headerControls (scope : Scope) (address : Address) (isRow : Bool) : List TemplateNode :=
  (if isRow then [deleteControl address] else []) ++
    match scope.index.repeatingSingletonOf? address with
    | some singleton =>
      (if scope.index.isInChoice address && !isRow then [choiceDeleteControl address] else []) ++
        (singleton.leafName?.map fun name => startControl (address.child name)).toList
    | none => if isRow then [] else scope.occurrenceControls address

def header (scope : Scope) (address : Address) (node : SchemaNode) (var : Option String) :
    TemplateNode :=
  .header (captionOf address node var) (scope.editing (scope.headerControls address var.isSome))

/-- Whether the header around a repeating node starts the repetition. -/
def isStartedAbove (scope : Scope) (address : Address) : Bool :=
  address.parent?.any fun parent =>
    scope.index.repeatingSingletonOf? parent = some address.schemaAddress &&
      scope.index.isRequired parent

end Scope

end SchemaForms.Compile
