import SchemaForms.Address.Basic
import SchemaForms.Schema.Occurs

/-!
Templates of forms. A template does not depend on a document: what depends on the contents of a
record is kept as a guard, which asks about an address, or as an iteration over the occurrences of
an address under a variable.
-/

namespace SchemaForms

inductive Mode where
  | edit
  | display
  deriving DecidableEq, Repr, Inhabited

def Mode.text : Mode → String
  | edit => "edit"
  | display => "display"

inductive GroupKind where
  | level (depth : Nat)
  | subElements (isCollapsible : Bool)
  | compositor
  | box
  deriving DecidableEq, Repr, Inhabited

def GroupKind.text : GroupKind → String
  | level depth => "level-" ++ toString depth
  | subElements true => "sub-elements collapsible"
  | subElements false => "sub-elements"
  | compositor => "compositor"
  | box => "box"

/-- What a guard asks about its address. Members are counted among the children of one element. -/
inductive GuardTest where
  | present
  | absent
  | childless
  | hasAnyOf (members : List PrefixedName)
  | hasNoneOf (members : List PrefixedName)
  | countBelow (limit : MaxOccurs)
  | membersBelow (members : List PrefixedName) (limit : MaxOccurs)
  deriving DecidableEq, Repr, Inhabited

namespace GuardTest

def text : GuardTest → String
  | present => "exists"
  | absent => "not-exists"
  | childless => "has-no-children"
  | hasAnyOf _ => "has-any-of"
  | hasNoneOf _ => "has-none-of"
  | countBelow _ => "count-below"
  | membersBelow .. => "members-below"

def limit? : GuardTest → Option MaxOccurs
  | countBelow limit => some limit
  | membersBelow _ limit => some limit
  | _ => none

def members : GuardTest → List PrefixedName
  | hasAnyOf members => members
  | hasNoneOf members => members
  | membersBelow members _ => members
  | _ => []

end GuardTest

inductive InputKind where
  | text
  | textArea
  | select
  | multiSelect
  | booleanSelect
  | combo
  | languageSelect
  | freeText
  | display
  | escapedMarkup
  deriving DecidableEq, Repr, Inhabited

def InputKind.name : InputKind → String
  | text => "text"
  | textArea => "textarea"
  | select => "select"
  | multiSelect => "multi-select"
  | booleanSelect => "boolean-select"
  | combo => "combo"
  | languageSelect => "language-select"
  | freeText => "free-text"
  | display => "display"
  | escapedMarkup => "escaped-markup"

/-- What a control does to a record. -/
inductive AffordanceKind where
  | addFirst
  | addSibling
  | addChild
  | delete
  | choiceDelete
  | choose
  | remove
  | addMember
  deriving DecidableEq, Repr, Inhabited

def AffordanceKind.name : AffordanceKind → String
  | addFirst => "add-first"
  | addSibling => "add-sibling"
  | addChild => "add-child"
  | delete => "delete"
  | choiceDelete => "choice-delete"
  | choose => "choose"
  | remove => "remove"
  | addMember => "add-member"

/-- A caption. With a variable, the caption is numbered by what the variable stands for. -/
structure Label where
  text : String
  var : Option String
  isRequired : Bool
  deriving DecidableEq, Repr, Inhabited

namespace Label

def plain (text : String) : Label := ⟨text, none, false⟩

def ofAddress (address : Address) : Label :=
  plain ((address.leafName?.map PrefixedName.localName).getD "")

end Label

inductive TemplateNode where
  | group (kind : GroupKind) (children : List TemplateNode)
  | header (label : Label) (controls : List TemplateNode)
  | field (address : Address) (input : InputKind) (label : Label) (options : List String)
      (controls : List TemplateNode)
  | guard (test : GuardTest) (target : Address) (children : List TemplateNode)
  | iteration (siblings : Address) (var : String) (item : Address) (children : List TemplateNode)
  | affordance (kind : AffordanceKind) (target : Address) (label : String)
      (candidates : List PrefixedName)
  | choicePrompt (target : Address) (isRequired : Bool) (candidates : List PrefixedName)
  | toggle (label : String) (children : List TemplateNode)
  | recursive (address : Address)
  deriving Repr, Inhabited

namespace TemplateNode

mutual

/-- The nodes of a tree in document order. -/
def walk : TemplateNode → List TemplateNode
  | group kind children => group kind children :: walkAll children
  | header label controls => header label controls :: walkAll controls
  | field address input label options controls =>
    field address input label options controls :: walkAll controls
  | guard test target children => guard test target children :: walkAll children
  | iteration siblings var item children =>
    iteration siblings var item children :: walkAll children
  | affordance kind target label candidates => [affordance kind target label candidates]
  | choicePrompt target isRequired candidates => [choicePrompt target isRequired candidates]
  | toggle label children => toggle label children :: walkAll children
  | recursive address => [recursive address]

def walkAll : List TemplateNode → List TemplateNode
  | [] => []
  | node :: others => walk node ++ walkAll others

end

end TemplateNode

structure Template where
  root : Address
  mode : Mode
  nodes : List TemplateNode
  deriving Repr, Inhabited

def Template.walk (template : Template) : List TemplateNode := TemplateNode.walkAll template.nodes

/-- The caption of the selector for a choice. -/
def choiceLabel (isRequired : Bool) : String :=
  if isRequired then "required choice" else "optional choice"

end SchemaForms
