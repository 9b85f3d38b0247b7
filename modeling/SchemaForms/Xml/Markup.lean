import SchemaForms.Text.Split
import SchemaForms.Xml.Chars

/-!
The markup of a document: tags, runs of text and literal sections, in the order in which they are
written. Text and attribute values are kept as written, with their references. Comments and
processing instructions are checked and leave nothing behind. Content is read up to the end tag of
the element that it belongs to, or to the end of the input, which may cut off a start tag after its
name or after an attribute.
-/

namespace SchemaForms.Xml

structure WrittenName where
  qualifier : String
  localName : String
  deriving DecidableEq, Repr, Inhabited

structure WrittenAttribute where
  name : WrittenName
  value : List Char
  deriving DecidableEq, Repr, Inhabited

inductive Markup where
  | startTag (name : WrittenName) (attributes : List WrittenAttribute) (isEmpty : Bool)
  | cutOffTag (name : WrittenName) (attributes : List WrittenAttribute)
  | endTag (name : WrittenName)
  | text (written : List Char)
  | literal (written : List Char)
  | ignored
  deriving DecidableEq, Repr, Inhabited

/-- What follows a fixed text at the front. -/
def after? (expected : String) (cs : List Char) : Option (List Char) :=
  expected.toList.isPrefixOf? cs

def startsWith (expected : String) (cs : List Char) : Bool := (after? expected cs).isSome

def skipSpaces (cs : List Char) : List Char := cs.dropWhile isSpace

def skipSomeSpace? (cs : List Char) : Option (List Char) :=
  match cs with
  | c :: _ => if isSpace c then some (skipSpaces cs) else none
  | [] => none

/-- Cuts at the first occurrence of a fixed text, which is dropped. -/
def cutAt? (expected : String) : List Char → Option (List Char × List Char)
  | [] => none
  | c :: cs =>
    match after? expected (c :: cs) with
    | some rest => some ([], rest)
    | none => (cutAt? expected cs).map fun (before, rest) => (c :: before, rest)

/-- The characters before a closing text; all of them have to be allowed in documents. -/
def readUntil? (closing : String) (cs : List Char) : Option (List Char × List Char) := do
  let (before, rest) ← cutAt? closing cs
  if before.all isDocumentChar then some (before, rest) else none

def holds (expected : String) (cs : List Char) : Bool := (cutAt? expected cs).isSome

def readName? (cs : List Char) : Option (String × List Char) :=
  match cs with
  | c :: rest =>
    if isNameStart c then
      some (String.ofList (c :: rest.takeWhile isNameChar), rest.dropWhile isNameChar)
    else none
  | [] => none

/-- A name with at most one colon. Nothing before the colon means no prefix. -/
def splitName? (written : List Char) : Option WrittenName :=
  let (qualifier, localName) := (Text.cutFirst ':' written).getD ([], written)
  if localName.contains ':' then none
  else if qualifier.head?.all isNameStart && localName.head?.any isNameStart then
    some ⟨String.ofList qualifier, String.ofList localName⟩
  else none

def readQualifiedName? (cs : List Char) : Option (WrittenName × List Char) :=
  (splitName? (cs.takeWhile isNameChar)).map fun name => (name, cs.dropWhile isNameChar)

def readQuote? : List Char → Option (Char × List Char)
  | '"' :: cs => some ('"', cs)
  | '\'' :: cs => some ('\'', cs)
  | _ => none

/-- A quoted value without the less-than sign. -/
def readAttributeValue? (cs : List Char) : Option (List Char × List Char) := do
  let (quote, rest) ← readQuote? cs
  let value := rest.takeWhile fun c => c != quote && c != '<'
  if !value.all isDocumentChar then none
  else
    match rest.drop value.length with
    | c :: rest => if c == quote then some (value, rest) else none
    | [] => none

def readAttribute? (cs : List Char) : Option (WrittenAttribute × List Char) := do
  let (name, rest) ← readQualifiedName? cs
  let rest ← after? "=" (skipSpaces rest)
  let (value, rest) ← readAttributeValue? (skipSpaces rest)
  return (⟨name, value⟩, rest)

inductive TagEnd where
  | opened
  | closed
  | cutOff
  deriving DecidableEq, Repr

/-- The rest of a start tag after its name. The input may end right after a name or a value. -/
def readTagRest? (cs : List Char) : Option (List WrittenAttribute × TagEnd × List Char) :=
  match cs with
  | [] => some ([], .cutOff, [])
  | c :: following =>
    match skipSpaces (c :: following) with
    | '/' :: '>' :: rest => some ([], .closed, rest)
    | '>' :: rest => some ([], .opened, rest)
    | written =>
      if isSpace c then
        match readAttribute? written with
        | some (first, rest) =>
          if rest.length ≤ following.length then
            (readTagRest? rest).map fun (others, tagEnd, rest) => (first :: others, tagEnd, rest)
          else none
        | none => none
      else none
termination_by cs.length
decreasing_by simp only [List.length_cons]; omega

def readStartTag? (cs : List Char) : Option (Markup × List Char) := do
  let (name, rest) ← readQualifiedName? cs
  let (attributes, tagEnd, rest) ← readTagRest? rest
  match tagEnd with
  | .opened => return (.startTag name attributes false, rest)
  | .closed => return (.startTag name attributes true, rest)
  | .cutOff => return (.cutOffTag name attributes, rest)

def readEndTag? (cs : List Char) : Option (Markup × List Char) := do
  let (name, rest) ← readQualifiedName? cs
  let rest ← after? ">" (skipSpaces rest)
  return (.endTag name, rest)

/-- A comment after its opening. Two hyphens only close it. -/
def readComment? (cs : List Char) : Option (List Char) := do
  let (written, rest) ← readUntil? "-->" cs
  if holds "--" written || written.getLast? == some '-' then none else some rest

/-- A processing instruction from its opening on. -/
def readInstruction? (cs : List Char) : Option (List Char) := do
  if startsWith "<?xml " cs then none
  else
    let (_, rest) ← readName? (cs.drop 2)
    let (_, rest) ← readUntil? "?>" (skipSpaces rest)
    return rest

def readText? (cs : List Char) : Option (Markup × List Char) :=
  let written := cs.takeWhile (· != '<')
  if written.all isDocumentChar && !holds "]]>" written then
    some (.text written, cs.dropWhile (· != '<'))
  else none

def readMarkup? (cs : List Char) : Option (Markup × List Char) :=
  match cs with
  | '<' :: '!' :: rest =>
    match after? "--" rest, after? "[CDATA[" rest with
    | some rest, _ => (readComment? rest).map (Markup.ignored, ·)
    | _, some rest => (readUntil? "]]>" rest).map fun (written, rest) => (.literal written, rest)
    | none, none => none
  | '<' :: '?' :: _ => (readInstruction? cs).map (Markup.ignored, ·)
  | '<' :: '/' :: rest => readEndTag? rest
  | '<' :: rest => readStartTag? rest
  | _ => readText? cs

/-- Reads content inside so many elements that were opened in it. The end tag at depth zero is
the last markup. -/
def readContent? (depth : Nat) (cs : List Char) : Option (List Markup × List Char) :=
  match cs with
  | [] => some ([], [])
  | c :: following =>
    match readMarkup? (c :: following) with
    | none => none
    | some (markup, rest) =>
      if rest.length ≤ following.length then
        match markup, depth with
        | .endTag _, 0 => some ([markup], rest)
        | .endTag _, depth + 1 => (readContent? depth rest).map fun (more, rest) =>
            (markup :: more, rest)
        | .startTag _ _ false, _ => (readContent? (depth + 1) rest).map fun (more, rest) =>
            (markup :: more, rest)
        | _, _ => (readContent? depth rest).map fun (more, rest) => (markup :: more, rest)
      else none
termination_by cs.length
decreasing_by all_goals simp only [List.length_cons]; omega

end SchemaForms.Xml
