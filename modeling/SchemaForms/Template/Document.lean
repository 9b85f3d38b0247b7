import SchemaForms.Template.Basic
import SchemaForms.Xml.Writing

/-!
Templates as documents. Each node is one tag; headers and fields begin with their label, and a
selector for a choice offers an empty option first. Nodes that may hold others but do not are
written as empty tags, except headers and fields.
-/

namespace SchemaForms

def namesText (names : List PrefixedName) : String :=
  " ".intercalate (names.map PrefixedName.text)

def container (name : String) (attributes : List (String × String)) (children : List Xml.Tag) :
    Xml.Tag :=
  if children.isEmpty then .empty name attributes else .container name attributes children

def Label.tag (label : Label) : Xml.Tag :=
  .text "label"
    ((label.var.map fun var => ("index-id", var)).toList ++
      if label.isRequired then [("required", "true")] else [])
    label.text

def optionTag (value : String) : Xml.Tag := .text "option" [] value

def GuardTest.attributes (test : GuardTest) (target : Address) : List (String × String) :=
  [("test", test.text), ("path", target.text)] ++
    (test.limit?.map fun limit => ("limit", limit.text)).toList ++
    if test.members.isEmpty then [] else [("members", namesText test.members)]

namespace TemplateNode

def choiceTags (target : Address) (isRequired : Bool) (candidates : List PrefixedName) :
    List Xml.Tag :=
  [.empty "marker" [("path", target.text)],
    .text "label" [] (choiceLabel isRequired),
    .container "select" []
      (.empty "option" [("value", "")] :: candidates.map fun name => optionTag name.text)]

mutual

def tag : TemplateNode → Xml.Tag
  | group kind children => container "group" [("class", kind.text)] (tags children)
  | header label controls => .container "header" [] (label.tag :: tags controls)
  | field address input label options controls =>
    .container "field" [("path", address.text), ("input", input.name)]
      (label.tag :: options.map optionTag ++ tags controls)
  | guard test target children => container "guard" (test.attributes target) (tags children)
  | iteration siblings var item children =>
    container "iterate"
      [("sibling-path", siblings.text), ("index-id", var), ("item-path", item.text)]
      (tags children)
  | affordance kind target label candidates =>
    .text "affordance"
      ([("kind", kind.name), ("target", target.text)] ++
        if candidates.isEmpty then [] else [("candidates", namesText candidates)])
      label
  | choicePrompt target isRequired candidates =>
    .container "choice-prompt"
      [("target", target.text), ("required", if isRequired then "true" else "false")]
      (choiceTags target isRequired candidates)
  | toggle label children => container "toggle" [("label", label)] (tags children)
  | recursive address => .empty "recursive" [("path", address.text)]

def tags : List TemplateNode → List Xml.Tag
  | [] => []
  | node :: others => tag node :: tags others

end

end TemplateNode

namespace Template

def tag (template : Template) : Xml.Tag :=
  .container "template" [("root", template.root.text), ("mode", template.mode.text)]
    (TemplateNode.tags template.nodes)

def document (template : Template) : String := template.tag.render

end Template

end SchemaForms
