import SchemaForms.Template.Basic
import SchemaForms.Text.Quoted

/-!
Forms: templates filled from a document. Iterations have become numbered rows, guards are gone, and
fields hold the values that were found.
-/

namespace SchemaForms

inductive FormNode where
  | group (kind : GroupKind) (children : List FormNode)
  | header (label : String) (controls : List FormNode)
  | field (address : Address) (input : InputKind) (label : String) (value : Option String)
      (controls : List FormNode)
  | row (number : Nat) (address : Address) (children : List FormNode)
  | affordance (kind : AffordanceKind) (target : Address) (label : String)
      (candidates : List PrefixedName)
  | choicePrompt (target : Address) (label : String) (candidates : List PrefixedName)
  | toggle (label : String) (children : List FormNode)
  | recursive (address : Address)
  deriving Repr, Inhabited

namespace FormNode

mutual

/-- The nodes of a tree in document order. -/
def walk : FormNode → List FormNode
  | group kind children => group kind children :: walkAll children
  | header label controls => header label controls :: walkAll controls
  | field address input label value controls =>
    field address input label value controls :: walkAll controls
  | row number address children => row number address children :: walkAll children
  | affordance kind target label candidates => [affordance kind target label candidates]
  | choicePrompt target label candidates => [choicePrompt target label candidates]
  | toggle label children => toggle label children :: walkAll children
  | recursive address => [recursive address]

def walkAll : List FormNode → List FormNode
  | [] => []
  | node :: others => walk node ++ walkAll others

end

/-- The node itself on one line. -/
def line : FormNode → String
  | group kind _ => "[" ++ kind.text ++ "]"
  | header label _ => "# " ++ label
  | field _ input label value _ =>
    label ++ " (" ++ input.name ++ ")" ++
      (value.elim "" fun value => " = " ++ Text.quoted value)
  | row number address _ => toString number ++ ". " ++ address.text
  | affordance _ target label _ => "<" ++ label ++ "> " ++ target.text
  | choicePrompt _ label candidates =>
    label ++ ": " ++ " | ".intercalate (candidates.map PrefixedName.text)
  | toggle label _ => "+ " ++ label
  | recursive address => "... " ++ address.text

def indentedLine (depth : Nat) (node : FormNode) : String :=
  String.ofList (List.replicate (2 * depth) ' ') ++ node.line ++ "\n"

mutual

/-- A line for each node, two spaces further in than the node around it. -/
def outline (depth : Nat) : FormNode → String
  | group kind children =>
    indentedLine depth (group kind children) ++ outlineAll (depth + 1) children
  | header label controls =>
    indentedLine depth (header label controls) ++ outlineAll (depth + 1) controls
  | field address input label value controls =>
    indentedLine depth (field address input label value controls) ++
      outlineAll (depth + 1) controls
  | row number address children =>
    indentedLine depth (row number address children) ++ outlineAll (depth + 1) children
  | affordance kind target label candidates =>
    indentedLine depth (affordance kind target label candidates)
  | choicePrompt target label candidates =>
    indentedLine depth (choicePrompt target label candidates)
  | toggle label children =>
    indentedLine depth (toggle label children) ++ outlineAll (depth + 1) children
  | recursive address => indentedLine depth (recursive address)

def outlineAll (depth : Nat) : List FormNode → String
  | [] => ""
  | node :: others => outline depth node ++ outlineAll depth others

end

end FormNode

structure Form where
  nodes : List FormNode
  deriving Repr, Inhabited

namespace Form

def walk (form : Form) : List FormNode := FormNode.walkAll form.nodes

def rows (form : Form) : List (Nat × Address) :=
  form.walk.filterMap fun node =>
    match node with
    | .row number address _ => some (number, address)
    | _ => none

def outline (form : Form) : String := FormNode.outlineAll 0 form.nodes

/-- How many controls of a kind the form offers. -/
def affordances (form : Form) (kind : AffordanceKind) : Nat :=
  form.walk.countP fun node =>
    match node with
    | .affordance held _ _ _ => held = kind
    | _ => false

end Form

end SchemaForms
