import SchemaForms.Proofs.Xml.Markup

/-!
What is written is what is read. The lines of a tag are joined, so between two tags stands a line
break with the indentation of the second, and nothing stands around a text. The reader gives back
the element for a tag, its texts and values as they were, with the line breaks and indentations
between its children as its own text.
-/

namespace SchemaForms.Xml

/-- The end of a line and the indentation of the next one. -/
def lineBreak (depth : Nat) : List Char := '\n' :: List.replicate (2 * depth) ' '

theorem blank_of_mem_lineBreak {depth : Nat} {c : Char} (h : c ∈ lineBreak depth) :
    c = '\n' ∨ c = ' ' := by
  rcases List.mem_cons.mp h with hbreak | hindent
  · exact Or.inl hbreak
  · exact Or.inr (List.eq_of_mem_replicate hindent)

/-- The own text of an element whose children were written on lines of their own. -/
def layout (depth : Nat) (children : List Tag) : List Char :=
  (children.flatMap fun _ => lineBreak (depth + 1)) ++ lineBreak depth

namespace Tag

mutual

/-- What is written for a tag after its indentation. -/
def written (depth : Nat) : Tag → List Char
  | empty name attributes => tagChars name attributes true
  | text name attributes content =>
    tagChars name attributes false ++ ((escape content).toList ++ endChars name)
  | container name attributes children =>
    tagChars name attributes false ++
      (writtenAll (depth + 1) children ++ (lineBreak depth ++ endChars name))

def writtenAll (depth : Nat) : List Tag → List Char
  | [] => []
  | tag :: others => lineBreak depth ++ (written depth tag ++ writtenAll depth others)

end

mutual

/-- The markup that is read from what is written for a tag. -/
def markup (depth : Nat) : Tag → List Markup
  | empty name attributes => [.startTag (plainName name) (writtenAttributes attributes) true]
  | text name attributes content =>
    .startTag (plainName name) (writtenAttributes attributes) false ::
      ((if content.isEmpty then [] else [.text (escape content).toList]) ++
        [.endTag (plainName name)])
  | container name attributes children =>
    .startTag (plainName name) (writtenAttributes attributes) false ::
      (markupAll (depth + 1) children ++ [.text (lineBreak depth), .endTag (plainName name)])

def markupAll (depth : Nat) : List Tag → List Markup
  | [] => []
  | tag :: others => .text (lineBreak depth) :: (markup depth tag ++ markupAll depth others)

end

/-- Attributes without namespaces. -/
def plainAttributes (attributes : List (String × String)) : List Attribute :=
  attributes.map fun (name, value) => ⟨⟨none, name⟩, value⟩

mutual

/-- The element that a tag is written for. -/
def element (depth : Nat) : Tag → Element
  | empty name attributes => ⟨⟨none, name⟩, plainAttributes attributes, [], "", []⟩
  | text name attributes content => ⟨⟨none, name⟩, plainAttributes attributes, [], content, []⟩
  | container name attributes children =>
    ⟨⟨none, name⟩, plainAttributes attributes, [], String.ofList (layout depth children),
      elements (depth + 1) children⟩

def elements (depth : Nat) : List Tag → List Element
  | [] => []
  | tag :: others => element depth tag :: elements depth others

end

mutual

/-- Names without prefixes, no attribute twice, and nothing but plain characters. -/
def WellFormed : Tag → Prop
  | empty name attributes => PlainTag name attributes
  | text name attributes content => PlainTag name attributes ∧ Plain content
  | container name attributes children => PlainTag name attributes ∧ AllWellFormed children

def AllWellFormed : List Tag → Prop
  | [] => True
  | tag :: others => WellFormed tag ∧ AllWellFormed others

end

section Writing

/-- Lines that each begin with the end of the line before. -/
def brokenLines (lines : List String) : List Char := lines.flatMap fun line => '\n' :: line.toList

theorem toList_intercalate_cons (line : String) (others : List String) :
    '\n' :: ("\n".intercalate (line :: others)).toList = brokenLines (line :: others) := by
  induction others generalizing line with
  | nil => simp [brokenLines]
  | cons next others ih =>
    have hnext := ih next
    simp only [brokenLines, List.flatMap_cons, String.toList_intercalate, List.map_cons] at hnext ⊢
    rw [← hnext]
    simp [List.intercalate]

theorem lineBreak_eq (depth : Nat) : lineBreak depth = '\n' :: (indentation depth).toList := by
  simp [lineBreak, indentation]

mutual

theorem brokenLines_lines (depth : Nat) (tag : Tag) :
    brokenLines (tag.lines depth) = lineBreak depth ++ tag.written depth := by
  cases tag with
  | empty name attributes =>
    simp [lines, brokenLines, written, tagChars, tagEnding, toList_attributesText, lineBreak_eq]
  | text name attributes content =>
    simp [lines, brokenLines, written, tagChars, tagEnding, endChars, toList_attributesText,
      lineBreak_eq]
  | container name attributes children =>
    have hchildren := brokenLines_allLines (depth + 1) children
    simp only [brokenLines] at hchildren
    simp [lines, brokenLines, written, tagChars, tagEnding, endChars, toList_attributesText,
      lineBreak_eq, hchildren]

theorem brokenLines_allLines (depth : Nat) (tags : List Tag) :
    brokenLines (allLines depth tags) = writtenAll depth tags := by
  cases tags with
  | nil => rfl
  | cons tag others =>
    have hfirst := brokenLines_lines depth tag
    have hothers := brokenLines_allLines depth others
    simp only [brokenLines] at hfirst hothers
    simp [allLines, brokenLines, writtenAll, hfirst, hothers]

end

theorem toList_render (tag : Tag) : tag.render.toList = tag.written 0 := by
  obtain ⟨line, others, hlines⟩ : ∃ line others, tag.lines 0 = line :: others := by
    cases tag <;> exact ⟨_, _, rfl⟩
  have hbroken := brokenLines_lines 0 tag
  rw [hlines, ← toList_intercalate_cons] at hbroken
  rw [render, hlines]
  exact (List.cons.inj hbroken).2

end Writing

end Tag

section Content

/-- Markup in front of what is read. -/
def prepend (front : List Markup) (read : Option (List Markup × List Char)) :
    Option (List Markup × List Char) :=
  read.map fun (more, rest) => (front ++ more, rest)

@[simp] theorem prepend_nil (read : Option (List Markup × List Char)) : prepend [] read = read := by
  cases read <;> rfl

@[simp] theorem prepend_prepend (first second : List Markup)
    (read : Option (List Markup × List Char)) :
    prepend first (prepend second read) = prepend (first ++ second) read := by
  cases read <;> simp [prepend]

variable {depth : Nat} {cs rest : List Char}

/-- Content from its first markup on. -/
def readAfter? (depth : Nat) (markup : Markup) (rest : List Char) :
    Option (List Markup × List Char) :=
  match markup, depth with
  | .endTag _, 0 => some ([markup], rest)
  | .endTag _, depth + 1 => prepend [markup] (readContent? depth rest)
  | .startTag _ _ false, _ => prepend [markup] (readContent? (depth + 1) rest)
  | _, _ => prepend [markup] (readContent? depth rest)

theorem readContent?_append {front : List Char} (hfront : front ≠ []) {markup : Markup}
    (h : readMarkup? (front ++ rest) = some (markup, rest)) :
    readContent? depth (front ++ rest) = readAfter? depth markup rest := by
  obtain ⟨c, following, rfl⟩ := List.exists_cons_of_ne_nil hfront
  have hle : rest.length ≤ (following ++ rest).length := by simp
  rw [List.cons_append] at h ⊢
  rw [readContent?.eq_2]
  simp only [h, if_pos hle]
  rfl

theorem readContent?_tagChars {name : String} {attributes : List (String × String)}
    (h : PlainTag name attributes) (isEmpty : Bool) :
    readContent? depth (tagChars name attributes isEmpty ++ rest) =
      prepend [.startTag (plainName name) (writtenAttributes attributes) isEmpty]
        (readContent? (if isEmpty then depth else depth + 1) rest) := by
  rw [readContent?_append (by simp [tagChars]) (readMarkup?_tagChars h isEmpty rest)]
  cases isEmpty <;> rfl

theorem readContent?_endChars {name : String} (h : isPlainName name = true) (depth : Nat)
    (rest : List Char) :
    readContent? (depth + 1) (endChars name ++ rest) =
      prepend [.endTag (plainName name)] (readContent? depth rest) :=
  readContent?_append (by simp [endChars]) (readMarkup?_endChars h rest)

/-- The end tag of the element whose content is read. -/
theorem readContent?_last {name : String} (h : isPlainName name = true) (rest : List Char) :
    readContent? 0 (endChars name ++ rest) = some ([.endTag (plainName name)], rest) :=
  readContent?_append (by simp [endChars]) (readMarkup?_endChars h rest)

theorem readContent?_text {text : List Char} (h : Textual text) (depth : Nat) (rest : List Char) :
    readContent? depth (text ++ '<' :: rest) =
      prepend [.text text] (readContent? depth ('<' :: rest)) :=
  readContent?_append h.ne_nil (readMarkup?_text h rest)

theorem textual_lineBreak (depth : Nat) : Textual (lineBreak depth) := by
  refine ⟨by simp [lineBreak], fun c hc => ?_⟩
  rcases blank_of_mem_lineBreak hc with rfl | rfl <;> decide

theorem textual_escape {content : String} (hplain : Plain content)
    (hne : content.isEmpty = false) : Textual (escape content).toList := by
  refine ⟨?_, fun c hc => ?_⟩
  · obtain ⟨c, others, hcontent⟩ : ∃ c others, content.toList = c :: others :=
      List.exists_cons_of_ne_nil (by simpa using hne)
    rw [escape, String.toList_ofList, hcontent, List.flatMap_cons]
    rcases escapeChar_cases c with ⟨-, hself⟩ | ⟨name, -, hreference⟩
    · simp [hself]
    · simp [hreference]
  · obtain ⟨hlt, hgt, -⟩ := ne_of_mem_escape hc
    exact ⟨hlt, hgt, isDocumentChar_of_mem_escape hc hplain⟩

theorem readContent?_lineBreak (inner : Nat) :
    readContent? depth (lineBreak inner ++ '<' :: rest) =
      prepend [.text (lineBreak inner)] (readContent? depth ('<' :: rest)) :=
  readContent?_text (textual_lineBreak inner) _ _

namespace Tag

mutual

/-- The markup of a tag is read up to the end of the tag. -/
theorem readContent?_written (inner : Nat) (tag : Tag) (h : tag.WellFormed) (depth : Nat)
    (rest : List Char) :
    readContent? depth (tag.written inner ++ rest) =
      prepend (tag.markup inner) (readContent? depth rest) := by
  cases tag with
  | empty name attributes => exact readContent?_tagChars h true
  | text name attributes content =>
    obtain ⟨htag, hcontent⟩ := h
    have hend := readContent?_endChars htag.name depth rest
    have htext : readContent? (depth + 1) ((escape content).toList ++ (endChars name ++ rest)) =
        prepend (if content.isEmpty then [] else [.text (escape content).toList])
          (readContent? (depth + 1) (endChars name ++ rest)) := by
      by_cases hempty : content.isEmpty = true
      · have hnil : (escape content).toList = [] := by
          simp only [String.isEmpty_iff] at hempty
          simp [escape, hempty]
        simp [hempty, hnil]
      · rw [if_neg hempty]
        exact readContent?_text (textual_escape hcontent (by simpa using hempty)) _ _
    simp only [written, List.append_assoc]
    rw [readContent?_tagChars htag false, if_neg (by simp), htext, hend]
    simp [markup]
  | container name attributes children =>
    obtain ⟨htag, hchildren⟩ := h
    have hend := readContent?_endChars htag.name depth rest
    have hinner := readContent?_writtenAll (inner + 1) children hchildren (depth + 1)
      ('/' :: (name.toList ++ '>' :: rest)) inner
    have hchars : '<' :: '/' :: (name.toList ++ '>' :: rest) = endChars name ++ rest := by
      simp [endChars]
    rw [hchars, hend] at hinner
    simp only [written, List.append_assoc]
    rw [readContent?_tagChars htag false, if_neg (by simp), hinner]
    simp [markup]

theorem readContent?_writtenAll (inner : Nat) (tags : List Tag) (h : AllWellFormed tags)
    (depth : Nat) (rest : List Char) (outer : Nat) :
    readContent? depth (writtenAll inner tags ++ (lineBreak outer ++ '<' :: rest)) =
      prepend (markupAll inner tags ++ [.text (lineBreak outer)])
        (readContent? depth ('<' :: rest)) := by
  cases tags with
  | nil => exact readContent?_lineBreak outer
  | cons tag others =>
    obtain ⟨hfirst, hothers⟩ := h
    have hrest := readContent?_writtenAll inner others hothers depth rest outer
    have hwritten := readContent?_written inner tag hfirst depth
      (writtenAll inner others ++ (lineBreak outer ++ '<' :: rest))
    obtain ⟨tail, htail⟩ : ∃ tail, tag.written inner = '<' :: tail := by
      cases tag <;> exact ⟨_, rfl⟩
    simp only [writtenAll, List.append_assoc]
    rw [htail, List.cons_append, readContent?_lineBreak, ← List.cons_append, ← htail, hwritten,
      hrest]
    simp [markupAll]

end

end Tag

end Content

section Building

variable {entities : List Entity}

/-- Plain characters stay as they are in values. -/
theorem attributePieces?_plain (inEntity : String → Nat → Option (List Char × Nat))
    (followed : Nat) {cs : List Char} (h : ∀ c ∈ cs, PlainChar c) :
    attributePieces? inEntity false followed (cs.map pieceOf) = some (cs, followed) := by
  induction cs with
  | nil => rfl
  | cons c others ih =>
    obtain ⟨-, htab, hline, hreturn⟩ := h c List.mem_cons_self
    have hothers := ih fun d hd => h d (List.mem_cons_of_mem _ hd)
    have hspaced : spaced c = c := by simp [spaced, htab, hline, hreturn]
    rw [List.map_cons, pieceOf]
    split
    · rw [attributePieces?.eq_3 _ _ _ _ _ (by simp [hreturn]), hothers]
      simp [hspaced]
    · rw [attributePieces?.eq_4, hothers]
      simp

theorem attributeValues?_written (entities : List Entity) (depth followed : Nat)
    (hdepth : ¬ depth < maxEntityDepth)
    {attributes : List (String × String)} (h : ∀ entry ∈ attributes, Plain entry.2) :
    attributeValues? entities depth (writtenAttributes attributes) followed =
      some (attributes.map fun (name, value) => (plainName name, value), followed) := by
  induction attributes with
  | nil => rfl
  | cons entry others ih =>
    have hvalue := attributePieces?_plain (attributeEntity? entities depth) followed
      (h entry List.mem_cons_self)
    have hothers := ih fun e he => h e (List.mem_cons_of_mem _ he)
    simp only [writtenAttributes, List.map_cons] at hothers ⊢
    simp [attributeValues?, attributeValue?, readPieces?_escape, hdepth, hvalue, hothers]

/-- Text without carriage returns stays as it is, references put in. -/
theorem addPieces?_text (inEntity : String → Builder → Option Builder) {cs : List Char}
    (h : ∀ c ∈ cs, c ≠ '\r') (isKept : Bool) (reversed : List Char) (hreversed : '\r' ∉ reversed)
    (builder : Builder) :
    Builder.addPieces? inEntity false isKept reversed builder (cs.map pieceOf) =
      some (builder.addText (cs.reverse ++ reversed)) := by
  induction cs generalizing isKept reversed with
  | nil => rfl
  | cons c others ih =>
    have hreturn := h c List.mem_cons_self
    have hothers := fun kept => ih (fun d hd => h d (List.mem_cons_of_mem _ hd)) kept
      (c :: reversed) (by simp [hreversed, Ne.symm hreturn])
    have hadded : addWritten (others.map pieceOf).isEmpty c reversed = c :: reversed := by
      cases reversed with
      | nil => simp [addWritten, hreturn]
      | cons last earlier =>
        have hlast : last ≠ '\r' := by
          rintro rfl
          exact hreversed List.mem_cons_self
        simp [addWritten, hreturn, hlast]
    rw [List.map_cons, pieceOf, List.reverse_cons, List.append_assoc, List.singleton_append]
    split
    · rw [Builder.addPieces?.eq_2, hadded, ite_self, hothers]
    · rw [Builder.addPieces?.eq_3, if_neg (by simp), hothers]

theorem readPieces?_lineBreak (depth : Nat) :
    readPieces? (lineBreak depth) = some ((lineBreak depth).map pieceOf) := by
  have hplain : ∀ c ∈ lineBreak depth, isPlainText c = true := by
    intro c hc
    rcases blank_of_mem_lineBreak hc with rfl | rfl <;> decide
  have hescape : (lineBreak depth).flatMap escapeChar = lineBreak depth := by
    rw [List.flatMap_congr fun c hc => escapeChar_of_isPlainText (hplain c hc),
      List.flatMap_singleton']
  have hread := readPieces?_escape (String.ofList (lineBreak depth))
  rwa [escape, String.toList_ofList, String.toList_ofList, hescape] at hread

section Tags

variable {name : String} {attributes : List (String × String)}

/-- The values of a tag's attributes under their names. -/
def namedValues (attributes : List (String × String)) : List (WrittenName × String) :=
  attributes.map fun (name, value) => (plainName name, value)

theorem declaredNamespaces?_plain (hnames : ∀ entry ∈ attributes, isPlainName entry.1 = true) :
    declaredNamespaces? (namedValues attributes) = some [] := by
  induction attributes with
  | nil => rfl
  | cons entry others ih =>
    have hname := hnames entry List.mem_cons_self
    have hothers := ih fun e he => hnames e (List.mem_cons_of_mem _ he)
    simp only [isPlainName, Bool.and_eq_true, bne_iff_ne] at hname
    simp only [namedValues, List.map_cons, plainName] at hothers ⊢
    simp [declaredNamespaces?, hothers, hname.2]

theorem resolveAttributes?_plain (hdistinct : (attributes.map Prod.fst).Nodup) :
    resolveAttributes? [] (namedValues attributes) = some (Tag.plainAttributes attributes) := by
  induction attributes with
  | nil => rfl
  | cons entry others ih =>
    rw [List.map_cons, List.nodup_cons] at hdistinct
    have hothers := ih hdistinct.2
    have hnew : ∀ value, (entry.1, value) ∉ others := fun value hmem =>
      hdistinct.1 (List.mem_map.mpr ⟨_, hmem, rfl⟩)
    have hname : attributeName? [] (plainName entry.1) = some ⟨none, entry.1⟩ := by
      simp [attributeName?, plainName]
    simp only [namedValues, List.map_cons] at hothers ⊢
    simp [resolveAttributes?, hothers, hname, hnew, Tag.plainAttributes]

theorem openElement?_plain (h : PlainTag name attributes) :
    openElement? [] (plainName name) (namedValues attributes) =
      some ⟨plainName name, ⟨none, name⟩, Tag.plainAttributes attributes, [], [], []⟩ := by
  have hordinary : (namedValues attributes).filter (fun entry => !isNamespaceDeclaration entry.1) =
      namedValues attributes := by
    rw [List.filter_eq_self]
    intro entry hentry
    obtain ⟨written, hwritten, rfl⟩ := List.mem_map.mp hentry
    have hname := h.names written hwritten
    simp only [isPlainName, Bool.and_eq_true, bne_iff_ne] at hname
    simp [isNamespaceDeclaration, plainName, hname.2]
  simp only [openElement?, resolveTag?, declaredNamespaces?_plain h.names, hordinary,
    resolveAttributes?_plain h.distinct, inheritScope, Option.bind_eq_bind, Option.bind_some,
    List.isEmpty_nil, if_true, elementName?, plainName, lookupScope]
  rfl

variable {builder : Builder} {outer : List OpenElement} {finished : List Element} {followed : Nat}

/-- A start tag opens an element, or adds it at once. -/
theorem addTag?_plain {entities : List Entity} (h : PlainTag name attributes)
    (hscope : builder.scope = []) (hpending : builder.pending = []) (isEmpty : Bool) :
    builder.addTag? entities maxEntityDepth (plainName name) (writtenAttributes attributes)
        isEmpty =
      some (if isEmpty then
        builder.addElement ⟨⟨none, name⟩, Tag.plainAttributes attributes, [], "", []⟩
      else { builder with opened :=
        ⟨plainName name, ⟨none, name⟩, Tag.plainAttributes attributes, [], [], []⟩ ::
          builder.opened }) := by
  have hvalues := attributeValues?_written entities maxEntityDepth builder.followed
    (Nat.lt_irrefl _) h.values
  have hattributes : builder.addAttributes? entities maxEntityDepth (plainName name)
      (writtenAttributes attributes) = some { builder with pending := namedValues attributes } := by
    simp [Builder.addAttributes?, hvalues, hpending, plainName, namedValues]
  have hopen := openElement?_plain h
  have hkept : ({ builder with pending := namedValues attributes } : Builder).scope = [] := hscope
  rw [Builder.addTag?, hattributes]
  simp only [Option.bind_eq_bind, Option.bind_some, hkept, hopen]
  cases builder
  simp only at hpending
  subst hpending
  cases isEmpty <;> rfl

end Tags

end Building

section Elements

variable {entities : List Entity} {inEntity : String → Builder → Option Builder}

/-- What is built from markup that goes on after a text without carriage returns. -/
theorem addMarkup?_text {builder : Builder} {content : List Char} {pieces : List Char}
    (hread : readPieces? content = some (pieces.map pieceOf)) (hpieces : ∀ c ∈ pieces, c ≠ '\r')
    (more : List Markup) :
    Builder.addMarkup? entities maxEntityDepth inEntity true builder (.text content :: more) =
      Builder.addMarkup? entities maxEntityDepth inEntity true (builder.addText pieces.reverse)
        more := by
  have hadded := addPieces?_text inEntity hpieces false [] (by simp) builder
  simp [Builder.addMarkup?, hread, hadded]

theorem addMarkup?_lineBreak {builder : Builder} (depth : Nat) (more : List Markup) :
    Builder.addMarkup? entities maxEntityDepth inEntity true builder
        (.text (lineBreak depth) :: more) =
      Builder.addMarkup? entities maxEntityDepth inEntity true
        (builder.addText (lineBreak depth).reverse) more := by
  refine addMarkup?_text (readPieces?_lineBreak depth) (fun c hc => ?_) more
  rcases blank_of_mem_lineBreak hc with rfl | rfl <;> decide

theorem addMarkup?_startTag {builder : Builder} {name : String}
    {attributes : List (String × String)} (h : PlainTag name attributes)
    (hscope : builder.scope = []) (hpending : builder.pending = []) (more : List Markup) :
    Builder.addMarkup? entities maxEntityDepth inEntity true builder
        (.startTag (plainName name) (writtenAttributes attributes) false :: more) =
      Builder.addMarkup? entities maxEntityDepth inEntity true
        { builder with opened :=
          ⟨plainName name, ⟨none, name⟩, Tag.plainAttributes attributes, [], [], []⟩ ::
            builder.opened } more := by
  simp [Builder.addMarkup?, addTag?_plain h hscope hpending]

theorem addMarkup?_endTag {name : String} {element : OpenElement}
    (hname : element.written = plainName name) (outer : List OpenElement)
    (finished : List Element) (followed : Nat) (more : List Markup) :
    Builder.addMarkup? entities maxEntityDepth inEntity true
        ⟨element :: outer, finished, [], followed⟩ (.endTag (plainName name) :: more) =
      Builder.addMarkup? entities maxEntityDepth inEntity true
        (Builder.addElement ⟨outer, finished, [], followed⟩ element.close) more := by
  have hresolved : resolveTag? element.scope [] = some (element.scope, []) := by
    simp [resolveTag?, declaredNamespaces?, resolveAttributes?, inheritScope]
  simp [Builder.addMarkup?, Builder.closeElement?, hresolved, hname]

namespace Tag

mutual

/-- Reading the markup of a tag adds its element. -/
theorem addMarkup?_markup (depth : Nat) (tag : Tag) (h : tag.WellFormed) (builder : Builder)
    (hscope : builder.scope = []) (hpending : builder.pending = []) (more : List Markup) :
    Builder.addMarkup? entities maxEntityDepth inEntity true builder
        (tag.markup depth ++ more) =
      Builder.addMarkup? entities maxEntityDepth inEntity true
        (builder.addElement (tag.element depth)) more := by
  obtain ⟨opened, finished, pending, followed⟩ := builder
  obtain rfl : pending = [] := hpending
  cases tag with
  | empty name attributes =>
    simp [markup, element, Builder.addMarkup?, addTag?_plain h hscope rfl]
  | text name attributes content =>
    obtain ⟨htag, hcontent⟩ := h
    simp only [markup, List.cons_append, List.append_assoc, List.nil_append]
    rw [addMarkup?_startTag htag hscope rfl]
    have hreturn : ∀ c ∈ content.toList, c ≠ '\r' := fun c hc => (hcontent c hc).2.2.2
    by_cases hempty : content.isEmpty = true
    · rw [if_pos hempty, List.nil_append, addMarkup?_endTag rfl]
      simp only [String.isEmpty_iff] at hempty
      subst hempty
      rfl
    · rw [if_neg hempty, List.cons_append, List.nil_append,
        addMarkup?_text (readPieces?_escape content) hreturn]
      simp only [Builder.addText]
      rw [addMarkup?_endTag rfl]
      simp [OpenElement.close, element]
  | container name attributes children =>
    obtain ⟨htag, hchildren⟩ := h
    simp only [markup, List.cons_append, List.append_assoc, List.nil_append]
    rw [addMarkup?_startTag htag hscope rfl, addMarkup?_markupAll (depth + 1) children hchildren
      _ rfl, addMarkup?_lineBreak]
    simp only [Builder.addText]
    rw [addMarkup?_endTag rfl]
    simp [OpenElement.close, element, layout]

theorem addMarkup?_markupAll (depth : Nat) (tags : List Tag) (h : AllWellFormed tags)
    (parent : OpenElement) (hscope : parent.scope = []) (outer : List OpenElement)
    (finished : List Element) (followed : Nat) (more : List Markup) :
    Builder.addMarkup? entities maxEntityDepth inEntity true
        ⟨parent :: outer, finished, [], followed⟩ (markupAll depth tags ++ more) =
      Builder.addMarkup? entities maxEntityDepth inEntity true
        ⟨{ parent with
            text := (tags.flatMap fun _ => lineBreak depth).reverse ++ parent.text
            children := (elements depth tags).reverse ++ parent.children } :: outer,
          finished, [], followed⟩ more := by
  cases tags with
  | nil => rfl
  | cons tag others =>
    obtain ⟨hfirst, hothers⟩ := h
    simp only [markupAll, List.cons_append, List.append_assoc]
    rw [addMarkup?_lineBreak]
    simp only [Builder.addText]
    have hinner : (⟨{ parent with text := (lineBreak depth).reverse ++ parent.text } :: outer,
        finished, [], followed⟩ : Builder).scope = [] := hscope
    rw [addMarkup?_markup depth tag hfirst _ hinner rfl]
    simp only [Builder.addElement]
    rw [addMarkup?_markupAll depth others hothers { parent with
      text := (lineBreak depth).reverse ++ parent.text
      children := tag.element depth :: parent.children } hscope]
    simp [elements]

end

end Tag

end Elements

section Documents

/-- What begins with a tag does not begin with other markup. -/
theorem after?_eq_none {expected : String} {second first : Char} {more tail : List Char}
    (hexpected : expected.toList = '<' :: second :: more) (hsecond : isNameStart second = false)
    (hfirst : isNameStart first = true) : after? expected ('<' :: first :: tail) = none := by
  cases hafter : after? expected ('<' :: first :: tail) with
  | none => rfl
  | some rest =>
    have hprefix := List.isPrefixOf?_eq_some_iff_append_eq.mp hafter
    rw [hexpected] at hprefix
    have hsame := (List.cons.inj (List.cons.inj hprefix).2).1
    rw [hsame, hfirst] at hsecond
    contradiction

/-- What is written for a tag begins with the name of the tag, and the markup of a document that it
is alone in is the markup of the tag. -/
theorem Tag.readDocumentElement?_written (tag : Tag) (h : tag.WellFormed) :
    ∃ first tail, isNameStart first = true ∧ tag.written 0 = '<' :: first :: tail ∧
      readDocumentElement? (first :: tail) = some (tag.markup 0, []) := by
  have hopening : ∀ {name : String} {attributes : List (String × String)} (isEmpty : Bool)
      (content : List Char), PlainTag name attributes →
        ∃ first tail, isNameStart first = true ∧
          tagChars name attributes isEmpty ++ content = '<' :: first :: tail ∧
          readStartTag? (first :: tail) =
            some (.startTag (plainName name) (writtenAttributes attributes) isEmpty, content) := by
    intro name attributes isEmpty content htag
    obtain ⟨first, others, hsplit, hstart⟩ := exists_start_of_isPlainName htag.name
    have hread := readStartTag?_tagChars htag isEmpty content
    rw [hsplit, List.cons_append] at hread
    exact ⟨first, _, hstart, by simp [tagChars, hsplit], hread⟩
  cases tag with
  | empty name attributes =>
    obtain ⟨first, tail, hstart, hwritten, hread⟩ := hopening true [] h
    rw [List.append_nil] at hwritten
    exact ⟨first, tail, hstart, hwritten, by simp [readDocumentElement?, hread, markup]⟩
  | text name attributes content =>
    obtain ⟨htag, hcontent⟩ := h
    obtain ⟨first, tail, hstart, hwritten, hread⟩ :=
      hopening false ((escape content).toList ++ endChars name) htag
    have hlast := readContent?_last htag.name []
    rw [List.append_nil] at hlast
    refine ⟨first, tail, hstart, hwritten, ?_⟩
    by_cases hempty : content.isEmpty = true
    · have hnil : (escape content).toList = [] := by
        simp only [String.isEmpty_iff] at hempty
        simp [escape, hempty]
      simp [readDocumentElement?, hread, hnil, hlast, markup, hempty]
    · have htext := readContent?_text (textual_escape hcontent (by simpa using hempty)) 0
        ('/' :: (name.toList ++ ['>']))
      rw [← endChars, hlast] at htext
      simp [readDocumentElement?, hread, htext, markup, hempty, prepend]
  | container name attributes children =>
    obtain ⟨htag, hchildren⟩ := h
    obtain ⟨first, tail, hstart, hwritten, hread⟩ :=
      hopening false (writtenAll 1 children ++ (lineBreak 0 ++ endChars name)) htag
    have hlast := readContent?_last htag.name []
    rw [List.append_nil] at hlast
    have hcontent := readContent?_writtenAll 1 children hchildren 0
      ('/' :: (name.toList ++ ['>'])) 0
    rw [← endChars, hlast] at hcontent
    refine ⟨first, tail, hstart, hwritten, ?_⟩
    simp [readDocumentElement?, hread, hcontent, markup, prepend]

theorem WrittenDocument.read?_render (tag : Tag) (h : tag.WellFormed) (allowDoctype : Bool) :
    WrittenDocument.read? allowDoctype tag.render.toList = some ⟨[], tag.markup 0⟩ := by
  obtain ⟨first, tail, hstart, hwritten, hread⟩ := tag.readDocumentElement?_written h
  have hcomment : after? "<!--" ('<' :: first :: tail) = none :=
    after?_eq_none rfl (by decide) hstart
  have hinstruction : after? "<?" ('<' :: first :: tail) = none :=
    after?_eq_none rfl (by decide) hstart
  have hdoctype : after? "<!DOCTYPE" ('<' :: first :: tail) = none :=
    after?_eq_none rfl (by decide) hstart
  have hdeclaration : after? "<?xml " ('<' :: first :: tail) = none :=
    after?_eq_none rfl (by decide) hstart
  have hspace : isSpace '<' = false := by decide
  have hmisc : skipMisc? ('<' :: first :: tail) = some ('<' :: first :: tail) := by
    rw [skipMisc?]
    simp [skipSpaces, hspace, startsWith, hcomment, hinstruction]
  have hend : skipMisc? [] = some [] := by
    rw [skipMisc?]
    rfl
  rw [Tag.toList_render, hwritten]
  simp [WrittenDocument.read?, dropByteOrderMark, startsWith, hdeclaration, hmisc, hdoctype, hread,
    hend]

/-- A tag that was written is read as its element. -/
theorem read?_render (tag : Tag) (h : tag.WellFormed) (allowDoctype : Bool) :
    read? allowDoctype tag.render = some (tag.element 0) := by
  have hdocument := WrittenDocument.read?_render tag h allowDoctype
  have hbuilt : Builder.addMarkup? [] maxEntityDepth (Builder.addEntity? [] maxEntityDepth) true
      ⟨[], [], [], 0⟩ (tag.markup 0 ++ []) = _ :=
    tag.addMarkup?_markup 0 h ⟨[], [], [], 0⟩ rfl rfl []
  rw [List.append_nil] at hbuilt
  simp [read?, hdocument, hbuilt, Builder.addMarkup?, Builder.addElement]

end Documents

end SchemaForms.Xml
