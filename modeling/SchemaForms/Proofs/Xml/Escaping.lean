import SchemaForms.Xml.Document
import SchemaForms.Xml.Writing
import Mathlib.Data.Bool.AllAny
import Mathlib.Data.List.Basic
import Mathlib.Tactic.Common

/-!
Values and texts that are written can be read. Escaping leaves no character that ends a value or a
text, and what it puts in place of a character is read as a reference to that character. Plain
characters are those that no reader changes: all that a document may hold but tabs and line ends.
-/

namespace SchemaForms.Xml

def PlainChar (c : Char) : Prop := isDocumentChar c = true ∧ c ≠ '\t' ∧ c ≠ '\n' ∧ c ≠ '\r'

def Plain (s : String) : Prop := ∀ c ∈ s.toList, PlainChar c

theorem Plain.append {left right : String} (hleft : Plain left) (hright : Plain right) :
    Plain (left ++ right) := by
  intro c hc
  rw [String.toList_append] at hc
  rcases List.mem_append.mp hc with h | h
  · exact hleft c h
  · exact hright c h

theorem plain_join {parts : List String} (h : ∀ part ∈ parts, Plain part) :
    Plain (String.join parts) := by
  intro c hc
  rw [String.toList_join] at hc
  obtain ⟨part, hpart, hmem⟩ := List.mem_flatMap.mp hc
  exact h part hpart c hmem

/-- A character that stands for itself. -/
def isPlainText (c : Char) : Bool := c != '&' && c != '<' && c != '>' && c != '"' && c != '\''

theorem escapeChar_of_isPlainText {c : Char} (h : isPlainText c = true) : escapeChar c = [c] := by
  simp only [isPlainText, Bool.and_eq_true, bne_iff_ne, ne_eq] at h
  obtain ⟨⟨⟨⟨hamp, hlt⟩, hgt⟩, hquot⟩, hapos⟩ := h
  unfold escapeChar
  split <;> simp_all

/-- A name that stands for a character, and that is read up to the semicolon after it. -/
structure Names (name : String) (c : Char) : Prop where
  named : namedCharacter? name = some c
  start : ∃ first others, name.toList = first :: others ∧ isNameStart first = true ∧ first ≠ '#'
  chars : ∀ d ∈ name.toList, isNameChar d = true
  special : isPlainText c = false
  harmless : ∀ d ∈ '&' :: (name.toList ++ [';']),
    d ≠ '<' ∧ d ≠ '>' ∧ d ≠ '"' ∧ isDocumentChar d = true

/-- The conditions on the characters as they are computed: over `Char`, a decision for the stated
ones may also go through every character there is. -/
theorem Names.of_all {name : String} {c : Char} (named : namedCharacter? name = some c)
    (start : ∃ first others,
      name.toList = first :: others ∧ isNameStart first = true ∧ first ≠ '#')
    (chars : name.toList.all isNameChar = true) (special : isPlainText c = false)
    (harmless : ('&' :: (name.toList ++ [';'])).all (fun d =>
      d ≠ '<' ∧ d ≠ '>' ∧ d ≠ '"' ∧ isDocumentChar d = true) = true) : Names name c :=
  ⟨named, start, List.all_eq_true.mp chars, special, List.all_iff_forall_prop.mp harmless⟩

/-- What is written for a character: the character, or a reference to it by its name. -/
theorem escapeChar_cases (c : Char) :
    (isPlainText c = true ∧ escapeChar c = [c]) ∨
      ∃ name, Names name c ∧ escapeChar c = '&' :: (name.toList ++ [';']) := by
  by_cases h : isPlainText c = true
  · exact Or.inl ⟨h, escapeChar_of_isPlainText h⟩
  · have hspecial : c = '&' ∨ c = '<' ∨ c = '>' ∨ c = '"' ∨ c = '\'' := by
      simp only [isPlainText, Bool.and_eq_true, bne_iff_ne, ne_eq] at h
      tauto
    right
    rcases hspecial with rfl | rfl | rfl | rfl | rfl
    · exact ⟨"amp", .of_all rfl ⟨_, _, rfl, by decide⟩ (by decide) (by decide) (by decide),
        by decide⟩
    · exact ⟨"lt", .of_all rfl ⟨_, _, rfl, by decide⟩ (by decide) (by decide) (by decide),
        by decide⟩
    · exact ⟨"gt", .of_all rfl ⟨_, _, rfl, by decide⟩ (by decide) (by decide) (by decide),
        by decide⟩
    · exact ⟨"quot", .of_all rfl ⟨_, _, rfl, by decide⟩ (by decide) (by decide) (by decide),
        by decide⟩
    · exact ⟨"apos", .of_all rfl ⟨_, _, rfl, by decide⟩ (by decide) (by decide) (by decide),
        by decide⟩

/-- No escaped text has a character that ends it, and all its characters may be in documents. -/
theorem mem_escapeChar {c d : Char} (h : d ∈ escapeChar c) :
    d ≠ '<' ∧ d ≠ '>' ∧ d ≠ '"' ∧ (isDocumentChar c = true → isDocumentChar d = true) := by
  rcases escapeChar_cases c with ⟨hplain, hself⟩ | ⟨name, hnames, hreference⟩
  · rw [hself, List.mem_singleton] at h
    subst h
    simp only [isPlainText, Bool.and_eq_true, bne_iff_ne, ne_eq] at hplain
    exact ⟨hplain.1.1.1.2, hplain.1.1.2, hplain.1.2, id⟩
  · rw [hreference] at h
    obtain ⟨hlt, hgt, hquot, hdocument⟩ := hnames.harmless d h
    exact ⟨hlt, hgt, hquot, fun _ => hdocument⟩

section Escaped

variable {s : String} {c : Char} (h : c ∈ (escape s).toList)

include h

theorem mem_escape : ∃ d ∈ s.toList, c ∈ escapeChar d := by
  rw [escape, String.toList_ofList] at h
  exact List.mem_flatMap.mp h

theorem ne_of_mem_escape : c ≠ '<' ∧ c ≠ '>' ∧ c ≠ '"' := by
  obtain ⟨d, -, hc⟩ := mem_escape h
  obtain ⟨hlt, hgt, hquot, -⟩ := mem_escapeChar hc
  exact ⟨hlt, hgt, hquot⟩

theorem isDocumentChar_of_mem_escape (hplain : Plain s) : isDocumentChar c = true := by
  obtain ⟨d, hd, hc⟩ := mem_escape h
  exact (mem_escapeChar hc).2.2.2 (hplain d hd).1

end Escaped

theorem after?_append (expected : String) (rest : List Char) :
    after? expected (expected.toList ++ rest) = some rest :=
  List.isPrefixOf?_eq_some_iff_append_eq.mpr rfl

/-- What a written character is read as. -/
def pieceOf (c : Char) : Piece := if isPlainText c then .written c else .numbered c

theorem readPieces?_cons_written {c : Char} (h : c ≠ '&') (following : List Char) :
    readPieces? (c :: following) = (readPieces? following).map (.written c :: ·) := by
  have hne : (c == '&') = false := by simpa using h
  rw [readPieces?.eq_2]
  simp [hne]

theorem Names.readReference? {name : String} {c : Char} (h : Names name c) (rest : List Char) :
    readReference? (name.toList ++ ';' :: rest) = some (.numbered c, rest) := by
  obtain ⟨first, others, hsplit, hstart, hnumber⟩ := h.start
  have hsemicolon : isNameChar ';' = false := by decide
  have hothers : ∀ d ∈ others, isNameChar d = true := fun d hd =>
    h.chars d (hsplit ▸ List.mem_cons_of_mem _ hd)
  have hread : readName? (name.toList ++ ';' :: rest) = some (name, ';' :: rest) := by
    rw [hsplit, List.cons_append, readName?]
    simp only [hstart, if_true, List.takeWhile_append_of_pos hothers,
      List.dropWhile_append_of_pos hothers, List.takeWhile_cons, List.dropWhile_cons, hsemicolon,
      Bool.false_eq_true, if_false, List.append_nil, ← hsplit, String.ofList_toList]
  have hafter : after? ";" (';' :: rest) = some rest := after?_append ";" rest
  have hhead : ∀ others, name.toList ++ ';' :: rest = '#' :: others → False := by
    intro others heq
    rw [hsplit] at heq
    exact hnumber (List.cons.inj heq).1
  rw [Xml.readReference?.eq_3 _ (fun _ => hhead _) hhead]
  simp [hread, h.named, hafter]

theorem readPieces?_escapeChar (c : Char) (rest : List Char) :
    readPieces? (escapeChar c ++ rest) = (readPieces? rest).map (pieceOf c :: ·) := by
  rcases escapeChar_cases c with ⟨hplain, hself⟩ | ⟨name, hnames, hreference⟩
  · have hamp : c ≠ '&' := by
      rintro rfl
      exact absurd hplain (by decide)
    rw [hself, List.singleton_append, readPieces?_cons_written hamp, pieceOf, if_pos hplain]
  · have hread := hnames.readReference? rest
    have hshorter : rest.length ≤ (name.toList ++ ';' :: rest).length := by
      simp only [List.length_append, List.length_cons]
      omega
    rw [hreference, List.cons_append, List.append_assoc, List.singleton_append, readPieces?.eq_2]
    simp only [beq_self_eq_true, if_true, hread]
    rw [if_pos hshorter, pieceOf, hnames.special]
    rfl

theorem readPieces?_escape (s : String) :
    readPieces? (escape s).toList = some (s.toList.map pieceOf) := by
  rw [escape, String.toList_ofList]
  induction s.toList with
  | nil => simp [readPieces?]
  | cons c others ih => rw [List.flatMap_cons, readPieces?_escapeChar, ih]; rfl

end SchemaForms.Xml
