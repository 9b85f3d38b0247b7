import SchemaForms.Xml.Markup

/-!
What stands around the document element: the declaration, comments and instructions, and the
document type with the entities that it declares. The first declaration of an entity counts, which
is left to those who look it up. External entities are not declared at all.
-/

namespace SchemaForms.Xml

structure Entity where
  name : String
  value : List Char
  deriving DecidableEq, Repr, Inhabited

structure WrittenDocument where
  entities : List Entity
  markup : List Markup
  deriving DecidableEq, Repr, Inhabited

/-- Comments, instructions and space. -/
def skipMisc? (cs : List Char) : Option (List Char) :=
  let written := skipSpaces cs
  match after? "<!--" written, startsWith "<?" written with
  | some rest, _ =>
    match readComment? rest with
    | some rest => if rest.length < cs.length then skipMisc? rest else none
    | none => none
  | none, true =>
    match readInstruction? written with
    | some rest => if rest.length < cs.length then skipMisc? rest else none
    | none => none
  | none, false => some written
termination_by cs.length

/-- Space, unless the declaration ends here. -/
def skipDeclarationSpace? (cs : List Char) : Option (List Char) :=
  match cs with
  | [] => some []
  | c :: _ =>
    if isSpace c then some (skipSpaces cs) else if startsWith "?>" cs then some cs else none

def skipDeclaration? (cs : List Char) : Option (List Char) := do
  let cs ← skipDeclarationSpace? cs
  if !startsWith "version" cs then none
  let (_, cs) ← readAttribute? cs
  let cs ← skipDeclarationSpace? cs
  let cs ← if startsWith "encoding" cs then do
      let (_, cs) ← readAttribute? cs
      skipDeclarationSpace? cs
    else some cs
  let cs ← if startsWith "standalone" cs then (readAttribute? cs).map (·.2) else some cs
  after? "?>" (skipSpaces cs)

def readQuoted? (cs : List Char) : Option (List Char × List Char) := do
  let (quote, rest) ← readQuote? cs
  let value := rest.takeWhile (· != quote)
  match rest.drop value.length with
  | _ :: rest => some (value, rest)
  | [] => none

def skipExternalIdentifier? (cs : List Char) : Option (List Char) :=
  match after? "SYSTEM" cs, after? "PUBLIC" cs with
  | some rest, _ => do
    let (_, rest) ← readQuoted? (← skipSomeSpace? rest)
    return rest
  | _, some rest => do
    let (_, rest) ← readQuoted? (← skipSomeSpace? rest)
    let (_, rest) ← readQuoted? (← skipSomeSpace? rest)
    return rest
  | none, none => none

def readEntityValue? (isGeneral : Bool) (cs : List Char) :
    Option (Option (List Char) × List Char) :=
  match readQuote? cs with
  | some _ => (readQuoted? cs).map fun (value, rest) => (some value, rest)
  | none => do
    let rest ← skipExternalIdentifier? cs
    match isGeneral, after? "NDATA" (skipSpaces rest) with
    | true, some rest =>
      let (_, rest) ← readName? (← skipSomeSpace? rest)
      return (none, rest)
    | true, none => return (none, skipSpaces rest)
    | false, _ => return (none, rest)

/-- An entity declaration after its keyword. -/
def readEntity? (cs : List Char) : Option (List Entity × List Char) := do
  let cs ← skipSomeSpace? cs
  let (isGeneral, cs) ← match cs with
    | '%' :: rest => (skipSomeSpace? rest).map (false, ·)
    | _ => some (true, cs)
  let (name, cs) ← readName? cs
  let (value, cs) ← readEntityValue? isGeneral (← skipSomeSpace? cs)
  let cs ← after? ">" (skipSpaces cs)
  return ((value.map (Entity.mk name)).toList, cs)

/-- One declaration of the internal subset. -/
def readDeclaration? (cs : List Char) : Option (List Entity × List Char) :=
  if startsWith "<!ENTITY" cs then readEntity? (cs.drop 8)
  else if startsWith "<!--" cs then (readComment? (cs.drop 4)).map ([], ·)
  else if startsWith "<?" cs then (readInstruction? cs).map ([], ·)
  else if startsWith "<!ELEMENT" cs || startsWith "<!ATTLIST" cs || startsWith "<!NOTATION" cs then
    (cutAt? ">" cs).map fun (_, rest) => ([], rest)
  else none

def readSubset? (cs : List Char) : Option (List Entity × List Char) :=
  match skipSpaces cs with
  | [] => if cs.isEmpty then some ([], []) else none
  | ']' :: rest => (after? ">" (skipSpaces rest)).map ([], ·)
  | written =>
    match readDeclaration? written with
    | some (entities, rest) =>
      if rest.length < cs.length then
        (readSubset? rest).map fun (more, rest) => (entities ++ more, rest)
      else none
    | none => none
termination_by cs.length

/-- A document type after its keyword. -/
def readDoctype? (cs : List Char) : Option (List Entity × List Char) := do
  let (_, cs) ← readName? (← skipSomeSpace? cs)
  let cs := skipSpaces cs
  let cs ← if startsWith "SYSTEM" cs || startsWith "PUBLIC" cs then skipExternalIdentifier? cs
    else some cs
  match skipSpaces cs with
  | '[' :: rest => readSubset? rest
  | '>' :: rest => some ([], rest)
  | _ => none

/-- The document element with its content. -/
def readDocumentElement? (cs : List Char) : Option (List Markup × List Char) := do
  let (tag, rest) ← readStartTag? cs
  match tag with
  | .startTag _ _ false =>
    let (content, rest) ← readContent? 0 rest
    return (tag :: content, rest)
  | _ => return ([tag], rest)

def dropByteOrderMark : List Char → List Char
  | '\ufeff' :: cs => cs
  | cs => cs

def WrittenDocument.read? (allowDoctype : Bool) (cs : List Char) : Option WrittenDocument := do
  let cs := dropByteOrderMark cs
  let cs ← if startsWith "<?xml " cs then skipDeclaration? (cs.drop 5) else some cs
  let cs ← skipMisc? cs
  let (entities, cs) ← match after? "<!DOCTYPE" cs with
    | some rest =>
      if allowDoctype then do
        let (entities, rest) ← readDoctype? rest
        let rest ← skipMisc? rest
        pure (entities, rest)
      else none
    | none => some ([], cs)
  let (markup, cs) ← match cs with
    | '<' :: rest => readDocumentElement? rest
    | _ => some ([], cs)
  let cs ← skipMisc? cs
  if cs.isEmpty then some ⟨entities, markup⟩ else none

end SchemaForms.Xml
