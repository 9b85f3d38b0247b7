import SchemaForms.Name

/-!
Addresses of nodes in schemas and in documents. An address is a list of element segments, each
with an optional index, that may end in an attribute segment. Without indices it addresses a node
of the schema; with them, a node of a document. An index is a position, counted from one among
siblings of the same name, or a variable that a row of a form stands for.
-/

namespace SchemaForms

inductive Index where
  | position (number : Nat)
  | var (name : String)
  deriving DecidableEq, Repr, Inhabited

inductive Segment where
  | element (name : PrefixedName) (index : Option Index)
  | attr (name : PrefixedName)
  deriving DecidableEq, Repr, Inhabited

structure Address where
  segments : List Segment
  deriving DecidableEq, Repr, Inhabited

/-- The position that each variable stands for; a variable is listed at most once. -/
abbrev Bindings := List (String × Nat)

namespace Bindings

def erase (bindings : Bindings) (name : String) : Bindings :=
  bindings.filter (·.1 ≠ name)

def insert (bindings : Bindings) (name : String) (position : Nat) : Bindings :=
  (name, position) :: erase bindings name

end Bindings

namespace Index

def text : Index → String
  | position number => toString number
  | var name => "$" ++ name

def substitute (bindings : Bindings) : Index → Index
  | position number => position number
  | var name =>
    match bindings.lookup name with
    | some number => position number
    | none => var name

def varName? : Index → Option String
  | position _ => none
  | var name => some name

end Index

namespace Segment

def name : Segment → PrefixedName
  | element name _ => name
  | attr name => name

def index? : Segment → Option Index
  | element _ index => index
  | attr _ => none

def isAttribute : Segment → Bool
  | element .. => false
  | attr _ => true

def withIndex (index : Option Index) : Segment → Segment
  | element name _ => element name index
  | attr name => attr name

def withoutIndex : Segment → Segment := withIndex none

def substitute (bindings : Bindings) : Segment → Segment
  | element name index => element name (index.map (Index.substitute bindings))
  | attr name => attr name

def text : Segment → String
  | element name none => name.text
  | element name (some index) => name.text ++ "[" ++ index.text ++ "]"
  | attr name => "@" ++ name.text

end Segment

namespace Address

def empty : Address := ⟨[]⟩

def root (name : PrefixedName) : Address := ⟨[.element name none]⟩

def depth (address : Address) : Nat := address.segments.length

/-- The document element, or nothing at all. -/
def isRoot (address : Address) : Bool := address.segments.length ≤ 1

def leaf? (address : Address) : Option Segment := address.segments.getLast?

def leafName? (address : Address) : Option PrefixedName := address.leaf?.map Segment.name

def isAttribute (address : Address) : Bool := address.leaf?.any Segment.isAttribute

def parent? (address : Address) : Option Address :=
  if address.isRoot then none else some ⟨address.segments.dropLast⟩

def child (address : Address) (name : PrefixedName) : Address :=
  ⟨address.segments ++ [.element name none]⟩

def attr (address : Address) (name : PrefixedName) : Address :=
  ⟨address.segments ++ [.attr name]⟩

def setLeafIndex (index : Option Index) : List Segment → List Segment
  | [] => []
  | [leaf] => [leaf.withIndex index]
  | segment :: rest => segment :: setLeafIndex index rest

/-- Gives the last segment an index, if it is an element. -/
def withIndex (address : Address) (index : Index) : Address :=
  ⟨setLeafIndex (some index) address.segments⟩

/-- The path that all occurrences of the leaf share: ancestors keep their indices. -/
def siblingPath (address : Address) : Address :=
  ⟨setLeafIndex none address.segments⟩

/-- The address in the schema: no index is left. -/
def schemaAddress (address : Address) : Address :=
  ⟨address.segments.map Segment.withoutIndex⟩

def isSchemaAddress (address : Address) : Bool :=
  address.segments.all (·.index?.isNone)

/-- Puts positions for the variables that are bound; other variables stay. -/
def substitute (address : Address) (bindings : Bindings) : Address :=
  ⟨address.segments.map (Segment.substitute bindings)⟩

def vars (address : Address) : List String :=
  address.segments.filterMap fun segment => segment.index?.bind Index.varName?

def text (address : Address) : String :=
  match address.segments with
  | [] => "/"
  | segments => String.join (segments.map fun segment => "/" ++ segment.text)

end Address

end SchemaForms
