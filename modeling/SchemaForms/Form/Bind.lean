import SchemaForms.Form.Basic
import SchemaForms.Form.Selection

/-!
Filling a template from a document. Guards are decided, and an iteration becomes one row for each
occurrence, numbered from one, in which its variable stands for the number. A variable is forgotten
after its iteration. The document has to begin with the element that the template begins with.
-/

namespace SchemaForms

structure BindError where
  expected : String
  found : String
  deriving DecidableEq, Repr

def BindError.message (error : BindError) : String :=
  "instance root <" ++ error.found ++ "> does not match template root " ++ error.expected

abbrev Binding := StateM Bindings

namespace Instance

def holds (record : Instance) (test : GuardTest) (target : Address) : Bool :=
  match test with
  | .present => 0 < record.count target
  | .absent => record.count target = 0
  | .childless => record.childCount target = 0
  | .hasAnyOf members => 0 < record.memberCount target members
  | .hasNoneOf members => record.memberCount target members = 0
  | .countBelow limit => limit.admitsMore (record.count target)
  | .membersBelow members limit => limit.admitsMore (record.memberCount target members)

end Instance

def Label.caption (label : Label) (bindings : Bindings) : String :=
  match label.var.bind (bindings.lookup ·) with
  | some number => label.text ++ " " ++ toString number
  | none => label.text

namespace TemplateNode

/-- One occurrence of an iteration. -/
def bindRow (var : String) (item : Address) (bindChildren : Binding (List FormNode))
    (number : Nat) : Binding FormNode := do
  modify (·.insert var number)
  let address := item.substitute (← get)
  return .row number address (← bindChildren)

mutual

def bind (record : Instance) : TemplateNode → Binding (List FormNode)
  | group kind children => do
    return [.group kind (← bindAll record children)]
  | header label controls => do
    let caption := label.caption (← get)
    return [.header caption (← bindAll record controls)]
  | field address input label _ controls => do
    let bindings ← get
    let address := address.substitute bindings
    let controls ← bindAll record controls
    return [.field address input (label.caption bindings) (record.value? address) controls]
  | guard test target children => do
    if record.holds test (target.substitute (← get)) then bindAll record children
    else return []
  | iteration siblings var item children => do
    let count := record.count (siblings.substitute (← get))
    let rows ← (List.range' 1 count).mapM (bindRow var item (bindAll record children))
    modify (·.erase var)
    return rows
  | affordance kind target label candidates => do
    return [.affordance kind (target.substitute (← get)) label candidates]
  | choicePrompt target isRequired candidates => do
    return [.choicePrompt (target.substitute (← get)) (choiceLabel isRequired) candidates]
  | toggle label children => do
    return [.toggle label (← bindAll record children)]
  | recursive address => do
    return [.recursive (address.substitute (← get))]

def bindAll (record : Instance) : List TemplateNode → Binding (List FormNode)
  | [] => return []
  | node :: others => do
    let first ← bind record node
    return first ++ (← bindAll record others)

end

end TemplateNode

namespace Template

def matchesRoot (template : Template) (record : Instance) : Bool :=
  template.root.segments.head?.any fun segment =>
    record.namespaces.matchesElement segment.name record.root

def bind (template : Template) (record : Instance) : Except BindError Form :=
  if template.matchesRoot record then
    .ok ⟨((TemplateNode.bindAll record template.nodes).run []).1⟩
  else .error ⟨template.root.text, record.root.name.localName⟩

end Template

end SchemaForms
