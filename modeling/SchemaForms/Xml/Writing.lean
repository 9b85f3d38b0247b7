/-!
Writing documents. A document to be written is a tree of tags that hold nothing, a text, or further
tags. Every tag begins a line of its own, indented by two spaces for each tag around it; a text
stands right between its tags. Five characters are escaped, in texts and in values alike.
-/

namespace SchemaForms.Xml

inductive Tag where
  | empty (name : String) (attributes : List (String × String))
  | text (name : String) (attributes : List (String × String)) (content : String)
  | container (name : String) (attributes : List (String × String)) (children : List Tag)
  deriving Repr, Inhabited

def escapeChar (c : Char) : List Char :=
  match c with
  | '&' => "&amp;".toList
  | '<' => "&lt;".toList
  | '>' => "&gt;".toList
  | '"' => "&quot;".toList
  | '\'' => "&apos;".toList
  | c => [c]

def escape (s : String) : String := String.ofList (s.toList.flatMap escapeChar)

def attributesText (attributes : List (String × String)) : String :=
  String.join (attributes.map fun (name, value) => " " ++ name ++ "=\"" ++ escape value ++ "\"")

def indentation (depth : Nat) : String := String.ofList (List.replicate (2 * depth) ' ')

namespace Tag

mutual

def lines (depth : Nat) : Tag → List String
  | empty name attributes =>
    [indentation depth ++ "<" ++ name ++ attributesText attributes ++ "/>"]
  | text name attributes content =>
    [indentation depth ++ "<" ++ name ++ attributesText attributes ++ ">" ++ escape content ++
      "</" ++ name ++ ">"]
  | container name attributes children =>
    (indentation depth ++ "<" ++ name ++ attributesText attributes ++ ">") ::
      (allLines (depth + 1) children ++ [indentation depth ++ "</" ++ name ++ ">"])

def allLines (depth : Nat) : List Tag → List String
  | [] => []
  | tag :: others => lines depth tag ++ allLines depth others

end

def render (tag : Tag) : String := "\n".intercalate (tag.lines 0)

end Tag

end SchemaForms.Xml
