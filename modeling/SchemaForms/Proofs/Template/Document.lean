import SchemaForms.Proofs.Template.Throughout
import SchemaForms.Proofs.Xml.Reading
import SchemaForms.Template.Document

/-!
Templates read back from the documents that are written for them. Each node is shown by one element
with the node's own values, and what is below the node is shown by the children of the element in
the same order. No string of a template changes this, as long as it consists of characters that
every reader leaves alone.
-/

namespace SchemaForms

namespace Xml

instance (s : String) : Decidable (Plain s) :=
  List.decidableBAll (fun c => isDocumentChar c = true ∧ c ≠ '\t' ∧ c ≠ '\n' ∧ c ≠ '\r') s.toList

namespace Element

/-- An element without namespaces that has a name, and attributes in this order. -/
structure Named (element : Element) (name : String) (attributes : List (String × String)) :
    Prop where
  name : element.name = ⟨none, name⟩
  attributes : element.attributes = attributes.map fun (name, value) => ⟨⟨none, name⟩, value⟩

/-- An element that has only blanks around its children. -/
structure Surrounds (element : Element) (name : String) (attributes : List (String × String)) :
    Prop extends element.Named name attributes where
  blank : ∀ c ∈ element.text.toList, isSpace c = true

/-- An element that has a text and no children. -/
structure Says (element : Element) (name : String) (attributes : List (String × String))
    (text : String) : Prop extends element.Named name attributes where
  text : element.text = text
  children : element.children = []

end Element

end Xml

open Xml

/-- The element that shows a caption. -/
def Label.ShownBy (label : Label) (element : Element) : Prop :=
  element.Says "label"
    ((label.var.map fun var => ("index-id", var)).toList ++
      if label.isRequired then [("required", "true")] else [])
    label.text

namespace TemplateNode

mutual

/-- The element that shows a node and what is below it. -/
def ShownBy : TemplateNode → Element → Prop
  | group kind children, element =>
    element.Surrounds "group" [("class", kind.text)] ∧ AllShownBy children element.children
  | header label controls, element =>
    element.Surrounds "header" [] ∧ ∃ caption others, element.children = caption :: others ∧
      label.ShownBy caption ∧ AllShownBy controls others
  | field address input label options controls, element =>
    element.Surrounds "field" [("path", address.text), ("input", input.name)] ∧
      ∃ caption choices others, element.children = caption :: (choices ++ others) ∧
        label.ShownBy caption ∧
        List.Forall₂ (fun option choice => choice.Says "option" [] option) options choices ∧
        AllShownBy controls others
  | guard test target children, element =>
    element.Surrounds "guard"
      ([("test", test.text), ("path", target.text)] ++
        (test.limit?.map fun limit => ("limit", limit.text)).toList ++
        if test.members = [] then [] else [("members", namesText test.members)]) ∧
      AllShownBy children element.children
  | iteration siblings var item children, element =>
    element.Surrounds "iterate"
      [("sibling-path", siblings.text), ("index-id", var), ("item-path", item.text)] ∧
      AllShownBy children element.children
  | affordance kind target label candidates, element =>
    element.Says "affordance"
      ([("kind", kind.name), ("target", target.text)] ++
        if candidates = [] then [] else [("candidates", namesText candidates)])
      label
  | choicePrompt target isRequired candidates, element =>
    element.Surrounds "choice-prompt"
      [("target", target.text), ("required", if isRequired then "true" else "false")] ∧
      ∃ marker caption selector unselected choices,
        element.children = [marker, caption, selector] ∧
        marker.Says "marker" [("path", target.text)] "" ∧
        caption.Says "label" [] (choiceLabel isRequired) ∧
        selector.Surrounds "select" [] ∧ selector.children = unselected :: choices ∧
        unselected.Says "option" [("value", "")] "" ∧
        List.Forall₂ (fun name choice => choice.Says "option" [] (PrefixedName.text name))
          candidates choices
  | toggle label children, element =>
    element.Surrounds "toggle" [("label", label)] ∧ AllShownBy children element.children
  | recursive address, element => element.Says "recursive" [("path", address.text)] ""

/-- One element for each node, in the same order. -/
def AllShownBy : List TemplateNode → List Element → Prop
  | [], elements => elements = []
  | _ :: _, [] => False
  | node :: others, element :: elements => ShownBy node element ∧ AllShownBy others elements

end

end TemplateNode

/-- The element that shows a whole template. -/
def Template.ShownBy (template : Template) (element : Element) : Prop :=
  element.Surrounds "template" [("root", template.root.text), ("mode", template.mode.text)] ∧
    TemplateNode.AllShownBy template.nodes element.children

section Shown

variable (depth : Nat) (name : String) (attributes : List (String × String))

theorem isSpace_of_mem_layout {children : List Tag} {c : Char} (h : c ∈ layout depth children) :
    isSpace c = true := by
  have hblank : c = '\n' ∨ c = ' ' := by
    rcases List.mem_append.mp h with hinner | hlast
    · obtain ⟨child, -, hc⟩ := List.mem_flatMap.mp hinner
      exact blank_of_mem_lineBreak hc
    · exact blank_of_mem_lineBreak hlast
  rcases hblank with rfl | rfl <;> decide

theorem surrounds_container (children : List Tag) :
    ((Tag.container name attributes children).element depth).Surrounds name attributes where
  name := rfl
  attributes := rfl
  blank := by
    intro c hc
    simp only [Tag.element, String.toList_ofList] at hc
    exact isSpace_of_mem_layout depth hc

/-- A node without children is written as an empty tag. -/
theorem surrounds_of_container (children : List Tag) :
    ((container name attributes children).element depth).Surrounds name attributes ∧
      ((container name attributes children).element depth).children =
        Tag.elements (depth + 1) children := by
  unfold container
  split
  · rename_i hempty
    rw [List.isEmpty_iff.mp hempty]
    exact ⟨⟨⟨rfl, rfl⟩, by simp [Tag.element]⟩, rfl⟩
  · exact ⟨surrounds_container depth name attributes children, rfl⟩

theorem says_text (content : String) :
    ((Tag.text name attributes content).element depth).Says name attributes content :=
  ⟨⟨rfl, rfl⟩, rfl, rfl⟩

theorem says_empty : ((Tag.empty name attributes).element depth).Says name attributes "" :=
  ⟨⟨rfl, rfl⟩, rfl, rfl⟩

theorem elements_append (left right : List Tag) :
    Tag.elements depth (left ++ right) = Tag.elements depth left ++ Tag.elements depth right := by
  induction left with
  | nil => rfl
  | cons tag others ih => simp [Tag.elements, ih]

theorem says_elements_map {α : Type} (text : α → String) (as : List α) :
    List.Forall₂ (fun a choice => choice.Says "option" [] (text a)) as
      (Tag.elements depth (as.map fun a => optionTag (text a))) := by
  induction as with
  | nil => exact .nil
  | cons a others ih => exact .cons (says_text depth "option" [] (text a)) ih

end Shown

namespace TemplateNode

mutual

/-- A node is shown by the element for its tag. -/
theorem shownBy_element (depth : Nat) (node : TemplateNode) :
    node.ShownBy (node.tag.element depth) := by
  cases node with
  | group kind children =>
    obtain ⟨hsurrounds, hchildren⟩ :=
      surrounds_of_container depth "group" [("class", kind.text)] (tags children)
    exact ⟨hsurrounds, hchildren ▸ allShownBy_elements (depth + 1) children⟩
  | header label controls =>
    exact ⟨surrounds_container .., _, _, rfl, says_text ..,
      allShownBy_elements (depth + 1) controls⟩
  | field address input label options controls =>
    have hchildren : (((field address input label options controls).tag).element depth).children =
        label.tag.element (depth + 1) :: (Tag.elements (depth + 1) (options.map optionTag) ++
          Tag.elements (depth + 1) (tags controls)) := by
      simp only [tag, Tag.element, List.cons_append, Tag.elements, elements_append]
    exact ⟨surrounds_container .., _, _, _, hchildren, says_text ..,
      says_elements_map (depth + 1) id options, allShownBy_elements (depth + 1) controls⟩
  | guard test target children =>
    obtain ⟨hsurrounds, hchildren⟩ :=
      surrounds_of_container depth "guard" (test.attributes target) (tags children)
    refine ⟨?_, hchildren ▸ allShownBy_elements (depth + 1) children⟩
    rw [tag]
    simpa only [GuardTest.attributes, List.isEmpty_iff] using hsurrounds
  | iteration siblings var item children =>
    obtain ⟨hsurrounds, hchildren⟩ := surrounds_of_container depth "iterate"
      [("sibling-path", siblings.text), ("index-id", var), ("item-path", item.text)] (tags children)
    exact ⟨hsurrounds, hchildren ▸ allShownBy_elements (depth + 1) children⟩
  | affordance kind target label candidates =>
    simpa only [ShownBy, tag, List.isEmpty_iff] using says_text depth "affordance" _ label
  | choicePrompt target isRequired candidates =>
    exact ⟨surrounds_container .., _, _, _, _, _, rfl, says_empty .., says_text ..,
      surrounds_container .., rfl, says_empty ..,
      says_elements_map (depth + 2) PrefixedName.text candidates⟩
  | toggle label children =>
    obtain ⟨hsurrounds, hchildren⟩ :=
      surrounds_of_container depth "toggle" [("label", label)] (tags children)
    exact ⟨hsurrounds, hchildren ▸ allShownBy_elements (depth + 1) children⟩
  | recursive address => exact says_empty ..

theorem allShownBy_elements (depth : Nat) (nodes : List TemplateNode) :
    AllShownBy nodes (Tag.elements depth (tags nodes)) := by
  cases nodes with
  | nil => rfl
  | cons node others =>
    exact ⟨shownBy_element depth node, allShownBy_elements depth others⟩

end

end TemplateNode

/-! The strings of a template. -/

def PrefixedName.strings (name : PrefixedName) : List String :=
  name.qualifier.toList ++ [name.localName]

def Index.strings : Index → List String
  | position _ => []
  | var name => [name]

def Segment.strings (segment : Segment) : List String :=
  segment.name.strings ++ (segment.index?.map Index.strings).getD []

def Address.strings (address : Address) : List String := address.segments.flatMap Segment.strings

/-- The strings of one node. -/
def TemplateNode.strings : TemplateNode → List String
  | group _ _ => []
  | header label _ => label.text :: label.var.toList
  | field address _ label options _ =>
    address.strings ++ (label.text :: label.var.toList) ++ options
  | guard test target _ => target.strings ++ test.members.flatMap PrefixedName.strings
  | iteration siblings var item _ => siblings.strings ++ [var] ++ item.strings
  | affordance _ target label candidates =>
    target.strings ++ [label] ++ candidates.flatMap PrefixedName.strings
  | choicePrompt target _ candidates =>
    target.strings ++ candidates.flatMap PrefixedName.strings
  | toggle label _ => [label]
  | recursive address => address.strings

def Template.strings (template : Template) : List String :=
  template.root.strings ++ template.walk.flatMap TemplateNode.strings

section Plain

theorem plain_intercalate {separator : String} (hseparator : Plain separator)
    {parts : List String} (h : ∀ part ∈ parts, Plain part) :
    Plain (separator.intercalate parts) := by
  intro c hc
  rw [String.toList_intercalate] at hc
  induction parts with
  | nil => simp at hc
  | cons first others ih =>
    have hfirst := h first List.mem_cons_self
    have hothers := ih fun part hpart => h part (List.mem_cons_of_mem _ hpart)
    cases others with
    | nil => exact hfirst c (by simpa using hc)
    | cons second others =>
      simp only [List.map_cons, List.intercalate, List.intersperse_cons_cons, List.flatten_cons,
        List.mem_append] at hc hothers
      rcases hc with hc | hc | hc
      · exact hfirst c hc
      · exact hseparator c hc
      · exact hothers (by simpa using hc)

theorem plain_text_of_name {name : PrefixedName} (h : ∀ s ∈ name.strings, Plain s) :
    Plain name.text := by
  obtain ⟨qualifier, localName⟩ := name
  cases qualifier with
  | none => exact h localName (by simp [PrefixedName.strings])
  | some qualifier =>
    have hqualifier := h qualifier (by simp [PrefixedName.strings])
    have hlocal := h localName (by simp [PrefixedName.strings])
    exact (hqualifier.append (by decide)).append hlocal

theorem plain_toString (number : Nat) : Plain (toString number) := by
  intro c hc
  rw [Nat.toString_eq_ofList_toDigits, String.toList_ofList] at hc
  have hdigit : c.isDigit = true := Nat.isDigit_of_mem_toDigits (by omega) (by omega) hc
  have hother : ∀ d : Char, d.isDigit = false → c ≠ d := by
    rintro d hd rfl
    simp [hd] at hdigit
  have hdocument : isDocumentChar c = true := by
    simp only [Char.isDigit, Bool.and_eq_true, decide_eq_true_eq, UInt32.le_iff_toNat_le] at hdigit
    have hlow : 48 ≤ c.toNat := hdigit.1
    have hhigh : c.toNat ≤ 57 := hdigit.2
    have hprintable : ¬ c.toNat < 0x20 := by omega
    simp only [isDocumentChar, hprintable, if_false, Bool.and_eq_true, bne_iff_ne]
    omega
  exact ⟨hdocument, hother _ (by decide), hother _ (by decide), hother _ (by decide)⟩

theorem plain_text_of_segment {segment : Segment} (h : ∀ s ∈ segment.strings, Plain s) :
    Plain segment.text := by
  have hname : Plain segment.name.text :=
    plain_text_of_name fun s hs => h s (List.mem_append_left _ hs)
  cases segment with
  | attr name => exact Plain.append (by decide) hname
  | element name index =>
    cases index with
    | none => exact hname
    | some index =>
      have hindex : Plain index.text := by
        cases index with
        | position number => exact plain_toString number
        | var var =>
          exact Plain.append (by decide)
            (h var (by simp [Segment.strings, Segment.index?, Index.strings]))
      exact ((hname.append (by decide)).append hindex).append (by decide)

theorem plain_text_of_address {address : Address} (h : ∀ s ∈ address.strings, Plain s) :
    Plain address.text := by
  unfold Address.text
  split
  · decide
  · refine plain_join fun part hpart => ?_
    obtain ⟨segment, hsegment, rfl⟩ := List.mem_map.mp hpart
    exact Plain.append (by decide) (plain_text_of_segment fun s hs =>
      h s (List.mem_flatMap.mpr ⟨segment, hsegment, hs⟩))

theorem plain_namesText {names : List PrefixedName}
    (h : ∀ s ∈ names.flatMap PrefixedName.strings, Plain s) : Plain (namesText names) := by
  refine plain_intercalate (by decide) fun part hpart => ?_
  obtain ⟨name, hname, rfl⟩ := List.mem_map.mp hpart
  exact plain_text_of_name fun s hs => h s (List.mem_flatMap.mpr ⟨name, hname, hs⟩)

/-- The names of the attributes are among known ones, in order. -/
theorem plainTag_of_sublist {name : String} {attributes : List (String × String)}
    (names : List String) (hnames : (attributes.map Prod.fst).Sublist names)
    (hplain : (isPlainName name && names.all isPlainName) = true) (hdistinct : names.Nodup)
    (hvalues : ∀ entry ∈ attributes, Plain entry.2) : PlainTag name attributes := by
  rw [Bool.and_eq_true, List.all_eq_true] at hplain
  exact ⟨hplain.1, fun entry hentry => hplain.2 _ (hnames.subset (List.mem_map_of_mem hentry)),
    hvalues, hdistinct.sublist hnames⟩

theorem plain_text_of_guardTest (test : GuardTest) : Plain test.text := by
  cases test <;> simp only [GuardTest.text] <;> decide

theorem plain_text_of_maxOccurs (limit : MaxOccurs) : Plain limit.text := by
  cases limit with
  | unbounded => decide
  | count number => exact plain_toString number

theorem plain_text_of_groupKind (kind : GroupKind) : Plain kind.text := by
  cases kind with
  | level depth => exact Plain.append (by decide) (plain_toString depth)
  | subElements isCollapsible => cases isCollapsible <;> decide
  | compositor => decide
  | box => decide

theorem plainTag_guard {test : GuardTest} {target : Address}
    (htarget : ∀ s ∈ target.strings, Plain s)
    (hmembers : ∀ s ∈ test.members.flatMap PrefixedName.strings, Plain s) :
    PlainTag "guard" (test.attributes target) := by
  refine plainTag_of_sublist ["test", "path", "limit", "members"] ?_ (by decide)
    (by decide) fun entry hentry => ?_
  · unfold GuardTest.attributes
    cases test.limit? <;> cases test.members <;> simp
  · simp only [GuardTest.attributes, List.cons_append, List.nil_append, List.mem_cons,
      List.mem_append, Option.mem_toList, Option.map_eq_some_iff] at hentry
    rcases hentry with rfl | rfl | ⟨limit, -, rfl⟩ | hentry
    · exact plain_text_of_guardTest test
    · exact plain_text_of_address htarget
    · exact plain_text_of_maxOccurs limit
    · split at hentry
      · contradiction
      · rw [List.mem_singleton.mp hentry]
        exact plain_namesText hmembers

theorem wellFormed_tag_of_label {label : Label}
    (h : ∀ s ∈ label.text :: label.var.toList, Plain s) : label.tag.WellFormed := by
  refine ⟨plainTag_of_sublist ["index-id", "required"] ?_ (by decide) (by decide)
    fun entry hentry => ?_, h _ List.mem_cons_self⟩
  · cases label.var <;> cases label.isRequired <;> simp
  · simp only [List.mem_append, Option.mem_toList, Option.map_eq_some_iff] at hentry
    rcases hentry with ⟨var, hvar, rfl⟩ | hrequired
    · exact h var (List.mem_cons_of_mem _ (by simp [hvar]))
    · split at hrequired
      · rw [List.mem_singleton.mp hrequired]
        decide
      · contradiction

theorem allWellFormed_append {left right : List Tag} (hleft : Tag.AllWellFormed left)
    (hright : Tag.AllWellFormed right) : Tag.AllWellFormed (left ++ right) := by
  induction left with
  | nil => exact hright
  | cons tag others ih => exact ⟨hleft.1, ih hleft.2⟩

theorem plainTag_without_attributes {name : String} (h : isPlainName name = true) :
    PlainTag name [] :=
  ⟨h, by simp, by simp, by simp⟩

theorem allWellFormed_options {α : Type} (text : α → String) {as : List α}
    (h : ∀ a ∈ as, Plain (text a)) :
    Tag.AllWellFormed (as.map fun a => optionTag (text a)) := by
  induction as with
  | nil => exact trivial
  | cons a others ih =>
    refine ⟨⟨plainTag_without_attributes (by decide), h a List.mem_cons_self⟩, ?_⟩
    exact ih fun b hb => h b (List.mem_cons_of_mem _ hb)

theorem wellFormed_container {name : String} {attributes : List (String × String)}
    {children : List Tag} (htag : PlainTag name attributes)
    (hchildren : Tag.AllWellFormed children) :
    (container name attributes children).WellFormed := by
  unfold container
  split
  · exact htag
  · exact ⟨htag, hchildren⟩

/-- All strings of a node are plain. -/
def TemplateNode.IsPlain (node : TemplateNode) : Prop := ∀ s ∈ node.strings, Plain s

end Plain

namespace TemplateNode

mutual

theorem wellFormed_tag (node : TemplateNode) (h : Throughout IsPlain [node]) :
    node.tag.WellFormed := by
  rw [throughout_cons] at h
  obtain ⟨hnode, hcontents, -⟩ := h
  cases node with
  | group kind children =>
    refine wellFormed_container (plainTag_of_sublist ["class"] (.refl _) (by decide) (by decide) ?_)
      (allWellFormed_tags children hcontents)
    simpa using plain_text_of_groupKind kind
  | header label controls =>
    exact ⟨plainTag_without_attributes (by decide), wellFormed_tag_of_label hnode,
      allWellFormed_tags controls hcontents⟩
  | field address input label options controls =>
    have haddress : Plain address.text :=
      plain_text_of_address fun s hs => hnode s (by simp [strings, hs])
    have hinput : Plain input.name := by cases input <;> decide
    refine ⟨plainTag_of_sublist ["path", "input"] (.refl _) (by decide) (by decide) ?_,
      wellFormed_tag_of_label fun s hs =>
        hnode s (List.mem_append_left _ (List.mem_append_right _ hs)),
      allWellFormed_append
        (allWellFormed_options id fun s hs => hnode s (List.mem_append_right _ hs))
        (allWellFormed_tags controls hcontents)⟩
    simpa using ⟨haddress, hinput⟩
  | guard test target children =>
    exact wellFormed_container (plainTag_guard (fun s hs => hnode s (List.mem_append_left _ hs))
      fun s hs => hnode s (List.mem_append_right _ hs)) (allWellFormed_tags children hcontents)
  | iteration siblings var item children =>
    have hsiblings : Plain siblings.text :=
      plain_text_of_address fun s hs => hnode s (by simp [strings, hs])
    have hvar : Plain var := hnode var (by simp [strings])
    have hitem : Plain item.text :=
      plain_text_of_address fun s hs => hnode s (by simp [strings, hs])
    refine wellFormed_container (plainTag_of_sublist
      ["sibling-path", "index-id", "item-path"] (.refl _) (by decide) (by decide) ?_)
      (allWellFormed_tags children hcontents)
    simpa using ⟨hsiblings, hvar, hitem⟩
  | affordance kind target label candidates =>
    have hkind : Plain kind.name := by cases kind <;> decide
    have htarget : Plain target.text :=
      plain_text_of_address fun s hs => hnode s (by simp [strings, hs])
    have hcandidates : Plain (namesText candidates) :=
      plain_namesText fun s hs => hnode s (List.mem_append_right _ hs)
    refine ⟨plainTag_of_sublist ["kind", "target", "candidates"] ?_ (by decide)
      (by decide) fun entry hentry => ?_, hnode label (by simp [strings])⟩
    · cases candidates <;> simp
    · simp only [List.cons_append, List.nil_append, List.mem_cons] at hentry
      rcases hentry with rfl | rfl | hentry
      · exact hkind
      · exact htarget
      · split at hentry
        · contradiction
        · rw [List.mem_singleton.mp hentry]
          exact hcandidates
  | choicePrompt target isRequired candidates =>
    have htarget : Plain target.text :=
      plain_text_of_address fun s hs => hnode s (List.mem_append_left _ hs)
    have hrequired : Plain (if isRequired then "true" else "false") := by
      cases isRequired <;> decide
    have hlabel : Plain (choiceLabel isRequired) := by cases isRequired <;> decide
    have hcandidates : Tag.AllWellFormed (candidates.map fun name => optionTag name.text) := by
      refine allWellFormed_options PrefixedName.text fun name hname => ?_
      exact plain_text_of_name fun s hs =>
        hnode s (List.mem_append_right _ (List.mem_flatMap.mpr ⟨name, hname, hs⟩))
    refine ⟨plainTag_of_sublist ["target", "required"] (.refl _) (by decide) (by decide) ?_,
      plainTag_of_sublist ["path"] (.refl _) (by decide) (by decide) ?_,
      ⟨plainTag_without_attributes (by decide), hlabel⟩,
      ⟨plainTag_without_attributes (by decide),
        plainTag_of_sublist ["value"] (.refl _) (by decide) (by decide) ?_, hcandidates⟩, trivial⟩
    · simpa using ⟨htarget, hrequired⟩
    · simpa using htarget
    · simp [Plain]
  | toggle label children =>
    refine wellFormed_container (plainTag_of_sublist ["label"] (.refl _) (by decide) (by decide) ?_)
      (allWellFormed_tags children hcontents)
    simpa using hnode label (by simp [strings])
  | recursive address =>
    refine plainTag_of_sublist ["path"] (.refl _) (by decide) (by decide) ?_
    simpa using plain_text_of_address hnode

theorem allWellFormed_tags (nodes : List TemplateNode) (h : Throughout IsPlain nodes) :
    Tag.AllWellFormed (tags nodes) := by
  cases nodes with
  | nil => exact trivial
  | cons node others =>
    have hparts := throughout_cons.mp h
    exact ⟨wellFormed_tag node (throughout_cons.mpr ⟨hparts.1, hparts.2.1, throughout_nil⟩),
      allWellFormed_tags others hparts.2.2⟩

end

end TemplateNode

/-- Every template is written as a document that is read as what the template is: one element for
each node, below and beside each other as the nodes are, with all values and texts unchanged. -/
theorem document_shows_template (template : Template) (hplain : ∀ s ∈ template.strings, Plain s)
    (allowDoctype : Bool) :
    ∃ element, Xml.read? allowDoctype template.document = some element ∧
      template.ShownBy element := by
  have hnodes : TemplateNode.Throughout TemplateNode.IsPlain template.nodes :=
    fun node hnode s hs => hplain s
      (List.mem_append_right _ (List.mem_flatMap.mpr ⟨node, hnode, hs⟩))
  have hroot : Plain template.root.text :=
    plain_text_of_address fun s hs => hplain s (List.mem_append_left _ hs)
  have hmode : Plain template.mode.text := by cases template.mode <;> decide
  have hwellFormed : template.tag.WellFormed := by
    refine ⟨plainTag_of_sublist ["root", "mode"] (.refl _) (by decide) (by decide) ?_,
      TemplateNode.allWellFormed_tags template.nodes hnodes⟩
    simpa using ⟨hroot, hmode⟩
  refine ⟨template.tag.element 0, read?_render template.tag hwellFormed allowDoctype, ?_⟩
  exact ⟨surrounds_container .., TemplateNode.allShownBy_elements 1 template.nodes⟩

/-- A template with a caption and a value that look like markup. -/
def markupTemplate : Template :=
  ⟨.root (.unprefixed "r"), .edit,
    [.group (.level 0)
      [.header ⟨"</label> & \"x\"", some "xIndex", true⟩ [],
        .field (.root (.unprefixed "r")) .select (.plain "") ["<option>", "]]>"] [],
        .toggle "it's <!-- \"quoted\" -->" [.guard .present (.root (.unprefixed "r")) []]]]⟩

theorem document_shows_markupTemplate :
    (∀ s ∈ markupTemplate.strings, Plain s) ∧
      ∃ element, Xml.read? false markupTemplate.document = some element ∧
        markupTemplate.ShownBy element := by
  have hplain : ∀ s ∈ markupTemplate.strings, Plain s := by decide
  exact ⟨hplain, document_shows_template markupTemplate hplain false⟩

end SchemaForms
