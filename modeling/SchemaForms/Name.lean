import SchemaForms.Text.Split

/-!
Names. An expanded name is what a name means: a namespace, which may be absent, and a local part.
A prefixed name is how a name is written in a document or an address. A written prefix is never
empty; an absent namespace and the empty namespace are two different things.
-/

namespace SchemaForms

structure ExpandedName where
  namespaceName : Option String
  localName : String
  deriving DecidableEq, Repr, Inhabited

structure PrefixedName where
  qualifier : Option String
  localName : String
  deriving DecidableEq, Repr, Inhabited

namespace ExpandedName

def ofNamespace (namespaceName localName : String) : ExpandedName :=
  ⟨some namespaceName, localName⟩

def text (name : ExpandedName) : String :=
  match name.namespaceName with
  | some ns => "\x7b" ++ ns ++ "\x7d:" ++ name.localName
  | none => name.localName

end ExpandedName

namespace PrefixedName

def unprefixed (localName : String) : PrefixedName := ⟨none, localName⟩

/-- An empty prefix counts as none. -/
def make (qualifier : Option String) (localName : String) : PrefixedName :=
  ⟨qualifier.filter (· ≠ ""), localName⟩

/-- The first colon separates the prefix from the local part. -/
def parse (source : String) : PrefixedName :=
  match Text.cutFirst ':' source.toList with
  | some (before, after) => make (some (String.ofList before)) (String.ofList after)
  | none => unprefixed source

def text (name : PrefixedName) : String :=
  match name.qualifier with
  | some qualifier => qualifier ++ ":" ++ name.localName
  | none => name.localName

/-- Prefix and local part without the colon, from which identifiers are made. -/
def flattened (name : PrefixedName) : String :=
  name.qualifier.getD "" ++ name.localName

end PrefixedName

end SchemaForms
