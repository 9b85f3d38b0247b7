import SchemaForms.Proofs.Xml.Escaping

/-!
The markup of a document that was written. A tag is read up to the end of what was written for it,
whatever follows, so the markup of a list of tags is that of each of them in turn.
-/

namespace SchemaForms.Xml

/-- A name that is read as a local name, and that does not declare a namespace. -/
def isPlainName (name : String) : Bool :=
  name.toList.head?.any isNameStart && name.toList.all (fun c => isNameChar c && c != ':') &&
    name != "xmlns"

def plainName (name : String) : WrittenName := ⟨"", name⟩

def writtenAttributes (attributes : List (String × String)) : List WrittenAttribute :=
  attributes.map fun (name, value) => ⟨plainName name, (escape value).toList⟩

section Names

variable {name : String} (h : isPlainName name = true)

include h

theorem isNameChar_of_isPlainName {c : Char} (hc : c ∈ name.toList) :
    isNameChar c = true ∧ c ≠ ':' := by
  simp only [isPlainName, Bool.and_eq_true, List.all_eq_true, bne_iff_ne] at h
  exact h.1.2 c hc

theorem exists_start_of_isPlainName :
    ∃ first others, name.toList = first :: others ∧ isNameStart first = true := by
  simp only [isPlainName, Bool.and_eq_true] at h
  cases hname : name.toList with
  | nil => simp [hname] at h
  | cons first others => exact ⟨first, others, rfl, by simpa [hname] using h.1.1⟩

theorem splitName?_plainName : splitName? name.toList = some (plainName name) := by
  have hcolon : ':' ∉ name.toList := fun hmem => (isNameChar_of_isPlainName h hmem).2 rfl
  have hcut : Text.cutFirst ':' name.toList = none := by
    cases hcut : Text.cutFirst ':' name.toList with
    | none => rfl
    | some cut =>
      have heq := (Text.cutFirst_eq hcut).1
      exact absurd (heq ▸ List.mem_append_right _ List.mem_cons_self) hcolon
  obtain ⟨first, others, hname, hstart⟩ := exists_start_of_isPlainName h
  have hhead : name.toList.head?.any isNameStart = true := by simp [hname, hstart]
  simp [splitName?, hcut, hcolon, hhead, plainName]

/-- A name ends where a character follows that names do not have. -/
theorem readQualifiedName?_plainName (next : Char) (hnext : isNameChar next = false)
    (rest : List Char) :
    readQualifiedName? (name.toList ++ next :: rest) = some (plainName name, next :: rest) := by
  have hchars : ∀ c ∈ name.toList, isNameChar c = true := fun c hc =>
    (isNameChar_of_isPlainName h hc).1
  simp [readQualifiedName?, List.takeWhile_append_of_pos hchars,
    List.dropWhile_append_of_pos hchars, hnext, splitName?_plainName h]

end Names

theorem takeWhile_append_stop {p : Char → Bool} {cs : List Char} (h : ∀ c ∈ cs, p c = true)
    (stop : Char) (hstop : p stop = false) (rest : List Char) :
    (cs ++ stop :: rest).takeWhile p = cs ∧ (cs ++ stop :: rest).dropWhile p = stop :: rest := by
  simp [List.takeWhile_append_of_pos h, List.dropWhile_append_of_pos h, hstop]

theorem isSpace_eq_false {c : Char} (h : isNameStart c = true) : isSpace c = false := by
  by_contra hspace
  simp only [Bool.not_eq_false, isSpace, Bool.or_eq_true, beq_iff_eq] at hspace
  rcases hspace with ((rfl | rfl) | rfl) | rfl <;> exact absurd h (by decide)

section Attributes

/-- What is written for attributes. -/
def attributeChars (attributes : List (String × String)) : List Char :=
  attributes.flatMap fun (name, value) =>
    ' ' :: (name.toList ++ '=' :: '"' :: ((escape value).toList ++ ['"']))

theorem toList_attributesText (attributes : List (String × String)) :
    (attributesText attributes).toList = attributeChars attributes := by
  rw [attributesText, String.toList_join, List.flatMap_map]
  simp [attributeChars]

theorem readAttributeValue?_escape {value : String} (h : Plain value) (rest : List Char) :
    readAttributeValue? ('"' :: ((escape value).toList ++ '"' :: rest)) =
      some ((escape value).toList, rest) := by
  have hchars : ∀ c ∈ (escape value).toList, (c != '"' && c != '<') = true := by
    intro c hc
    obtain ⟨hlt, -, hquot⟩ := ne_of_mem_escape hc
    simp [hlt, hquot]
  have htake := (takeWhile_append_stop hchars '"' (by decide) rest).1
  have hdocument : (escape value).toList.all isDocumentChar = true :=
    List.all_eq_true.mpr fun c hc => isDocumentChar_of_mem_escape hc h
  simp only [readAttributeValue?, readQuote?, Option.bind_eq_bind, Option.bind_some, htake,
    hdocument, Bool.not_true, Bool.false_eq_true, if_false, List.drop_left, beq_self_eq_true,
    if_true]

variable {name value : String} (hname : isPlainName name = true) (hvalue : Plain value)

include hname hvalue

theorem readAttribute?_written (rest : List Char) :
    readAttribute? (name.toList ++ '=' :: '"' :: ((escape value).toList ++ '"' :: rest)) =
      some (⟨plainName name, (escape value).toList⟩, rest) := by
  have hread := readQualifiedName?_plainName hname '=' (by decide)
    ('"' :: ((escape value).toList ++ '"' :: rest))
  have hequals : isSpace '=' = false := by decide
  have hquote : isSpace '"' = false := by decide
  have hafter (cs : List Char) : after? "=" ('=' :: cs) = some cs := after?_append "=" cs
  simp [readAttribute?, hread, skipSpaces, hequals, hquote, hafter,
    readAttributeValue?_escape hvalue]

theorem readTagRest?_cons (rest : List Char) :
    readTagRest? (attributeChars [(name, value)] ++ rest) =
      (readTagRest? rest).map fun (others, tagEnd, rest) =>
        (⟨plainName name, (escape value).toList⟩ :: others, tagEnd, rest) := by
  obtain ⟨first, others, hsplit, hstart⟩ := exists_start_of_isPlainName hname
  have hspace := isSpace_eq_false hstart
  have hslash : first ≠ '/' := by
    rintro rfl
    exact absurd hstart (by decide)
  have hgt : first ≠ '>' := by
    rintro rfl
    exact absurd hstart (by decide)
  have hread := readAttribute?_written hname hvalue rest
  have hchars : attributeChars [(name, value)] ++ rest =
      ' ' :: (name.toList ++ '=' :: '"' :: ((escape value).toList ++ '"' :: rest)) := by
    simp [attributeChars]
  have hskip : skipSpaces (' ' :: (name.toList ++ '=' :: '"' ::
      ((escape value).toList ++ '"' :: rest))) =
        name.toList ++ '=' :: '"' :: ((escape value).toList ++ '"' :: rest) := by
    have hblank : isSpace ' ' = true := by decide
    simp [skipSpaces, hblank, hsplit, hspace]
  rw [hchars, readTagRest?.eq_2]
  simp only [hskip]
  split
  · rename_i heq
    rw [hsplit] at heq
    exact absurd (List.cons.inj heq).1 hslash
  · rename_i heq
    rw [hsplit] at heq
    exact absurd (List.cons.inj heq).1 hgt
  · rw [if_pos (by decide), hread]
    dsimp only
    rw [if_pos]
    simp only [List.length_append, List.length_cons]
    omega

end Attributes

/-- A tag that a reader of documents with namespaces takes as it is. -/
structure PlainTag (name : String) (attributes : List (String × String)) : Prop where
  name : isPlainName name = true
  names : ∀ entry ∈ attributes, isPlainName entry.1 = true
  values : ∀ entry ∈ attributes, Plain entry.2
  distinct : (attributes.map Prod.fst).Nodup

/-- Attributes are read up to what ends the tag. -/
theorem readTagRest?_attributeChars {attributes : List (String × String)}
    (hnames : ∀ entry ∈ attributes, isPlainName entry.1 = true)
    (hvalues : ∀ entry ∈ attributes, Plain entry.2) (rest : List Char) :
    readTagRest? (attributeChars attributes ++ rest) =
      (readTagRest? rest).map fun (others, tagEnd, rest) =>
        (writtenAttributes attributes ++ others, tagEnd, rest) := by
  induction attributes with
  | nil => simp [attributeChars, writtenAttributes]
  | cons entry others ih =>
    have hfirst := readTagRest?_cons (hnames entry List.mem_cons_self)
      (hvalues entry List.mem_cons_self) (attributeChars others ++ rest)
    have hothers := ih (fun a ha => hnames a (List.mem_cons_of_mem _ ha))
      (fun a ha => hvalues a (List.mem_cons_of_mem _ ha))
    have hchars : attributeChars (entry :: others) ++ rest =
        attributeChars [entry] ++ (attributeChars others ++ rest) := by
      simp [attributeChars]
    rw [hchars, hfirst, hothers]
    cases readTagRest? rest <;> rfl

/-- What ends a start tag. -/
def tagEnding (isEmpty : Bool) : List Char := if isEmpty then ['/', '>'] else ['>']

theorem readTagRest?_tagEnding (isEmpty : Bool) (rest : List Char) :
    readTagRest? (tagEnding isEmpty ++ rest) =
      some ([], if isEmpty then .closed else .opened, rest) := by
  have hslash : isSpace '/' = false := by decide
  have hgt : isSpace '>' = false := by decide
  cases isEmpty <;> simp [tagEnding, readTagRest?.eq_2, skipSpaces, hslash, hgt]

/-- A start tag from its opening on. -/
def tagChars (name : String) (attributes : List (String × String)) (isEmpty : Bool) : List Char :=
  '<' :: (name.toList ++ (attributeChars attributes ++ tagEnding isEmpty))

def endChars (name : String) : List Char := '<' :: '/' :: (name.toList ++ ['>'])

theorem readStartTag?_tagChars {name : String} {attributes : List (String × String)}
    (h : PlainTag name attributes) (isEmpty : Bool) (rest : List Char) :
    readStartTag? (name.toList ++ (attributeChars attributes ++ (tagEnding isEmpty ++ rest))) =
      some (.startTag (plainName name) (writtenAttributes attributes) isEmpty, rest) := by
  obtain ⟨next, tail, hnext, htail⟩ : ∃ next tail, isNameChar next = false ∧
      attributeChars attributes ++ (tagEnding isEmpty ++ rest) = next :: tail := by
    cases attributes with
    | nil => cases isEmpty <;> exact ⟨_, _, by decide, rfl⟩
    | cons entry others => exact ⟨' ', _, by decide, rfl⟩
  have hname := readQualifiedName?_plainName h.name _ hnext tail
  have hrest := readTagRest?_attributeChars h.names h.values (tagEnding isEmpty ++ rest)
  rw [readTagRest?_tagEnding] at hrest
  rw [← htail] at hname
  cases isEmpty <;> simp_all [readStartTag?]

theorem readMarkup?_tagChars {name : String} {attributes : List (String × String)}
    (h : PlainTag name attributes) (isEmpty : Bool) (rest : List Char) :
    readMarkup? (tagChars name attributes isEmpty ++ rest) =
      some (.startTag (plainName name) (writtenAttributes attributes) isEmpty, rest) := by
  obtain ⟨first, others, hsplit, hstart⟩ := exists_start_of_isPlainName h.name
  have hread := readStartTag?_tagChars h isEmpty rest
  have hother : ∀ c, isNameStart c = false → c ≠ first := by
    rintro c hc rfl
    exact absurd hc (by simp [hstart])
  have hbang := hother '!' (by decide)
  have hquestion := hother '?' (by decide)
  have hslash := hother '/' (by decide)
  simp only [tagChars, List.cons_append, List.append_assoc]
  rw [hsplit] at hread ⊢
  simp only [List.cons_append] at hread ⊢
  unfold readMarkup?
  split <;> simp_all

theorem readMarkup?_endChars {name : String} (h : isPlainName name = true) (rest : List Char) :
    readMarkup? (endChars name ++ rest) = some (.endTag (plainName name), rest) := by
  have hread := readQualifiedName?_plainName h '>' (by decide) rest
  have hspace : isSpace '>' = false := by decide
  have hafter (cs : List Char) : after? ">" ('>' :: cs) = some cs := after?_append ">" cs
  simp [endChars, readMarkup?, readEndTag?, hread, skipSpaces, hspace, hafter]

/-- A fixed text is only found where its last character is. -/
theorem holds_eq_false {expected : String} {last : Char} (hlast : last ∈ expected.toList)
    {cs : List Char} (h : last ∉ cs) : holds expected cs = false := by
  have hcut : cutAt? expected cs = none := by
    induction cs with
    | nil => rfl
    | cons c others ih =>
      have hafter : after? expected (c :: others) = none := by
        by_contra hsome
        obtain ⟨rest, hrest⟩ := Option.ne_none_iff_exists'.mp hsome
        have hfront := List.isPrefixOf?_eq_some_iff_append_eq.mp hrest
        exact h (hfront ▸ List.mem_append_left _ hlast)
      rw [cutAt?, hafter, ih fun hmem => h (List.mem_cons_of_mem _ hmem)]
      rfl
  simp [holds, hcut]

/-- What may be written between two tags. -/
structure Textual (cs : List Char) : Prop where
  ne_nil : cs ≠ []
  chars : ∀ c ∈ cs, c ≠ '<' ∧ c ≠ '>' ∧ isDocumentChar c = true

theorem readMarkup?_text {cs : List Char} (h : Textual cs) (rest : List Char) :
    readMarkup? (cs ++ '<' :: rest) = some (.text cs, '<' :: rest) := by
  obtain ⟨first, others, rfl⟩ := List.exists_cons_of_ne_nil h.ne_nil
  have hlt : ∀ c ∈ first :: others, (c != '<') = true := fun c hc => by simp [(h.chars c hc).1]
  have hfirst : first ≠ '<' := (h.chars first List.mem_cons_self).1
  have hgt : '>' ∉ first :: others := fun hmem => (h.chars '>' hmem).2.1 rfl
  have hholds : holds "]]>" (first :: others) = false := holds_eq_false (by decide) hgt
  have hall : (first :: others).all isDocumentChar = true :=
    List.all_eq_true.mpr fun c hc => (h.chars c hc).2.2
  obtain ⟨htake, hdrop⟩ := takeWhile_append_stop hlt '<' (by decide) rest
  have hread : readText? (first :: others ++ '<' :: rest) =
      some (.text (first :: others), '<' :: rest) := by
    rw [readText?, htake, hdrop, hall, hholds]
    rfl
  rw [List.cons_append] at hread ⊢
  unfold readMarkup?
  split <;> simp_all

end SchemaForms.Xml
