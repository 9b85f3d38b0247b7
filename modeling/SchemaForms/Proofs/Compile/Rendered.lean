import SchemaForms.Compile.Tree
import SchemaForms.Proofs.Compile.Outcome

/-!
The nodes that a template is put together from. The relation has one rule for each way in which
nodes are made for a place in the tree of elements, and keeps what was known of the index when they
were made; logs and bounds are left out. Everything that is compiled is related, so what holds of
all related nodes holds of all templates. Beside it the errors on the way are traced: an address is
only called unknown when the index does not have it.
-/

namespace SchemaForms.Compile

/-- What nodes are made for. Branches are the iterations over several children of one element. -/
inductive Task where
  | occurrence (address : Address) (row : Option Row)
  | text (address : Address) (row : Option Row)
  | content (here : Address)
  | branches (here : Address)
  | node (address : Address)
  | shown (address : Address)

/-- The variable that the occurrences of a node stand under, and the address of one of them. -/
def itemVariable (address : Address) : String := address.siblingPath.freshVariable

def itemAddress (address : Address) : Address :=
  address.siblingPath.withIndex (.var (itemVariable address))

def itemIteration (address : Address) (nodes : List TemplateNode) : TemplateNode :=
  .iteration address.siblingPath (itemVariable address) (itemAddress address) nodes

namespace Scope

/-- A repetition with its controls, once the rows are made. -/
def repeated (scope : Scope) (address : Address) (node : SchemaNode) (rows : List TemplateNode) :
    List TemplateNode :=
  [.guard .present address.siblingPath
      (itemIteration address rows ::
        scope.editing [addSibling address.siblingPath (occurrenceLimit node)])] ++
    scope.editing (if scope.isStartedAbove address then [] else [addFirst address.siblingPath])

/-- An element with its header, once its content is made. -/
def elementGroup (scope : Scope) (address : Address) (node : SchemaNode) (row : Option Row)
    (nodes : List TemplateNode) : TemplateNode :=
  let header := scope.header address node (row.map Row.var)
  if address.isRoot then .group (.level 0) (header :: nodes)
  else .group (.level (scope.level address))
    [header, .group (.subElements (row.any Row.isCollapsible)) nodes]

/-- The control that adds a member to a substitution group. -/
def memberControl (parent address : Address) (node : SchemaNode) : List TemplateNode :=
  if node.members.isEmpty then [] else [addMember parent address node.members node.occurs.max]

/-- A name under which elements are shown or created directly below a place: a head there lists it,
or what has the name is no head itself, or it stands for any element. -/
inductive Candidate (scope : Scope) (here : Address) (name : PrefixedName) : Prop
  | listed {address leaf head} (hbeside : address.segments = here.segments ++ [leaf])
      (hnode : scope.index.nodeOf? address = some head) (hhead : head.isSubstitutionHead = true)
      (hlisted : name ∈ head.members) : Candidate scope here name
  | itself (hplain : ∀ node, scope.index.nodeOf? (here.child name) = some node →
      node.isSubstitutionHead = false) : Candidate scope here name
  | wildcard (hname : name = scope.index.wildcardName) : Candidate scope here name

end Scope

variable (scope : Scope)

inductive Renders : Task → List TemplateNode → Prop
  | recursive {address row node} (hnode : scope.node address = .ok node)
      (hrecursive : node.isRecursive = true) :
      Renders (.occurrence address row) [.recursive address]
  | scalar {address row node} (hnode : scope.node address = .ok node)
      (hexpanded : node.isRecursive = false) :
      Renders (.occurrence address row)
        [scope.scalarField address node node.type (Scope.scalarRole row)]
  | anything {address row node} (hnode : scope.node address = .ok node)
      (hexpanded : node.isRecursive = false) :
      Renders (.occurrence address row) [scope.anyField address node (row.map Row.var)]
  | element {address row node nodes} (hnode : scope.node address = .ok node)
      (hexpanded : node.isRecursive = false) (hcontent : Renders (.content address) nodes) :
      Renders (.occurrence address row) [scope.elementGroup address node row nodes]
  | textOnly {address row node nodes} (hnode : scope.node address = .ok node)
      (hexpanded : node.isRecursive = false) (htext : Renders (.text address row) nodes) :
      Renders (.occurrence address row) nodes
  | restricted {address row} : Renders (.text address row) []
  | value {address row node type nodes} (hnode : scope.node address = .ok node)
      (hcontent : Renders (.content address) nodes) :
      Renders (.text address row)
        [.group .box
          ([scope.scalarField address node type (scope.fieldRole address node row)] ++ nodes)]
  | extended {address row inner nodes} (htext : Renders (.text address row) inner)
      (hcontent : Renders (.content address) nodes) :
      Renders (.text address row) [.group .box (inner ++ nodes)]
  | nothing {here} : Renders (.content here) []
  | append {here left right} (hleft : Renders (.content here) left)
      (hright : Renders (.content here) right) : Renders (.content here) (left ++ right)
  | ownText {here nodes} (htext : Renders (.text here none) nodes) : Renders (.content here) nodes
  | compositor {here nodes} (hcontent : Renders (.content here) nodes) :
      Renders (.content here) [.group .compositor nodes]
  | attributeUse {here name nodes} (hshown : Renders (.shown (here.attr name)) nodes) :
      Renders (.content here) nodes
  | child {here name nodes} (hshown : Renders (.shown (here.child name)) nodes) :
      Renders (.content here) nodes
  | alternative {here name nodes} (hnode : Renders (.node (here.child name)) nodes) :
      Renders (.content here) [.guard .present (here.child name) nodes]
  | choices {here nodes} (hbranches : Renders (.branches here) nodes) :
      Renders (.content here) nodes
  | singlePrompt {here occurs members} (hnames : ∀ name ∈ members, scope.Candidate here name) :
      Renders (.content here) (scope.editing [Scope.singlePrompt here occurs members])
  | repeatedPrompt {here occurs members} (hnames : ∀ name ∈ members, scope.Candidate here name) :
      Renders (.content here) (scope.editing [Scope.repeatedPrompt here occurs members])
  | noBranch {here} : Renders (.branches here) []
  | branch {here name node isCollapsible nodes}
      (hnode : scope.node (here.child name) = .ok node) (hname : scope.Candidate here name)
      (hitem : Renders (.occurrence (itemAddress (here.child name))
        (some ⟨itemVariable (here.child name), isCollapsible⟩)) nodes) :
      Renders (.branches here)
        [.guard .present (here.child name) [itemIteration (here.child name) nodes]]
  | moreBranches {here left right} (hleft : Renders (.branches here) left)
      (hright : Renders (.branches here) right) : Renders (.branches here) (left ++ right)
  | single {address classification nodes}
      (hclassified : scope.classify address = .ok classification)
      (hhead : classification.isHead = false) (hrepeating : classification.isRepeating = false)
      (hoccurrence : Renders (.occurrence address none) nodes) : Renders (.node address) nodes
  | repeating {address node rows} (hnode : scope.node address = .ok node)
      (hrecursive : node.isRecursive = false) (hplain : node.isSubstitutionHead = false)
      (hrepeating : scope.index.isRepeating address = true)
      (hitem : Renders (.occurrence (itemAddress address)
        (some ⟨itemVariable address, false⟩)) rows) :
      Renders (.node address) (scope.repeated address node rows)
  | head {address parent node members} (hnode : scope.node address = .ok node)
      (hrecursive : node.isRecursive = false) (hhead : node.isSubstitutionHead = true)
      (hparent : address.parent? = some parent) (hmembers : Renders (.branches parent) members) :
      Renders (.node address)
        (members ++ scope.editing (Scope.memberControl parent address node))
  | hidden {address} : Renders (.shown address) []
  | shown {address nodes} (hnode : Renders (.node address) nodes) :
      Renders (.shown address) (scope.guarded address nodes)

namespace Scope

variable {scope}

/-- An address is called unknown only when the index does not have it. -/
def Honest (scope : Scope) (error : CompileError) : Prop :=
  ∀ address, error = .unknownAddress address → scope.index.nodeOf? address = none

/-- An error that rendering runs into while no bound is exhausted. -/
structure Ordinary (scope : Scope) (error : CompileError) : Prop where
  honest : scope.Honest error
  within : ∀ address, error ≠ .nestedTooDeep address

theorem ordinary_of_ne {error : CompileError} (hknown : ∀ address, error ≠ .unknownAddress address)
    (hwithin : ∀ address, error ≠ .nestedTooDeep address) : scope.Ordinary error :=
  ⟨fun address hunknown => absurd hunknown (hknown address), hwithin⟩

theorem node_eq_ok_iff {address : Address} {node : SchemaNode} :
    scope.node address = .ok node ↔ scope.index.nodeOf? address = some node := by
  unfold Scope.node
  cases scope.index.nodeOf? address <;> simp

theorem ordinary_node {address : Address} {error : CompileError}
    (h : scope.node address = .error error) : scope.Ordinary error := by
  unfold Scope.node at h
  cases hnode : scope.index.nodeOf? address with
  | some node => simp [hnode] at h
  | none =>
    simp only [hnode, Except.error.injEq] at h
    subst h
    refine ⟨fun unknown hunknown => ?_, by simp⟩
    obtain rfl := CompileError.unknownAddress.inj hunknown
    exact hnode

theorem classify_eq_ok {address : Address} {classification : Classification}
    (h : scope.classify address = .ok classification) :
    ∃ node, scope.node address = .ok node ∧ classification =
      ⟨.ofNode scope.types node node.type, !node.isRecursive && node.isSubstitutionHead,
        !node.isRecursive && scope.index.isRepeating address⟩ := by
  unfold classify at h
  cases hnode : scope.node address with
  | error error => simp [hnode, bind, Except.bind] at h
  | ok node =>
    simp only [hnode, bind, Except.bind, pure, Except.pure, Except.ok.injEq] at h
    exact ⟨node, rfl, h.symm⟩

theorem ordinary_classify {address : Address} {error : CompileError}
    (h : scope.classify address = .error error) : scope.Ordinary error := by
  unfold classify at h
  cases hnode : scope.node address with
  | ok node => simp [hnode, bind, Except.bind, pure, Except.pure] at h
  | error cause =>
    simp only [hnode, bind, Except.bind, Except.error.injEq] at h
    exact h ▸ ordinary_node hnode

end Scope

end SchemaForms.Compile
