import SchemaForms.Address.Grammar
import SchemaForms.Proofs.Address.Variables
import Mathlib.Data.List.Induction
import Mathlib.Tactic.IntervalCases

/-!
Addresses and their written form. An address is well formed when its names, variables and positions
can be written and only its last segment is an attribute. Reading undoes writing on these addresses,
and no others are read. A text that is read differs from the written form of what it is read as in
the zeros that a position begins with, and in nothing else.
-/

namespace SchemaForms

namespace Text

section Pieces

variable {isSeparator : Char → Bool} {separator : Char} {piece rest : List Char}

theorem pieces_cons_separator (h : isSeparator separator = true) (cs : List Char) :
    pieces isSeparator (separator :: cs) = [] :: pieces isSeparator cs := by
  cases hpieces : pieces isSeparator cs with
  | nil => exact absurd hpieces (pieces_ne_nil isSeparator cs)
  | cons first others => simp [pieces, hpieces, h]

/-- What holds no separator is the first piece of whatever it begins. -/
theorem pieces_append (h : ∀ c ∈ piece, isSeparator c = false) (first : List Char)
    (others : List (List Char)) (hrest : pieces isSeparator rest = first :: others) :
    pieces isSeparator (piece ++ rest) = (piece ++ first) :: others := by
  induction piece with
  | nil => simpa using hrest
  | cons c cs ih =>
    obtain ⟨hc, hcs⟩ := List.forall_mem_cons.mp h
    simp [pieces, ih hcs, hc]

theorem pieces_of_plain (h : ∀ c ∈ piece, isSeparator c = false) :
    pieces isSeparator piece = [piece] := by
  have hall : pieces isSeparator (piece ++ []) = [piece ++ []] := pieces_append h [] [] rfl
  rwa [List.append_nil] at hall

theorem pieces_append_separator (h : ∀ c ∈ piece, isSeparator c = false)
    (hseparator : isSeparator separator = true) (cs : List Char) :
    pieces isSeparator (piece ++ separator :: cs) = piece :: pieces isSeparator cs := by
  have hall := pieces_append h [] _ (pieces_cons_separator hseparator cs)
  rwa [List.append_nil] at hall

/-- The pieces, each after a separator, are what was cut, after a separator. -/
theorem flatMap_pieces (separator : Char) (cs : List Char) :
    (pieces (· == separator) cs).flatMap (separator :: ·) = separator :: cs := by
  induction cs with
  | nil => rfl
  | cons c cs ih =>
    by_cases hc : c = separator
    · subst hc
      rw [pieces_cons_separator (by simp), List.flatMap_cons, ih]
      rfl
    · cases hpieces : pieces (· == separator) cs with
      | nil => exact absurd hpieces (pieces_ne_nil _ cs)
      | cons first others =>
        rw [hpieces, List.flatMap_cons] at ih
        simp only [pieces, hpieces, beq_iff_eq, hc, if_false, List.flatMap_cons]
        simpa using ih

/-- What is written with a separator before each part but the first is cut into the parts. -/
theorem pieces_written (first : List Char) (others : List (List Char))
    (h : ∀ part ∈ first :: others, separator ∉ part) :
    pieces (· == separator) (first ++ others.flatMap (separator :: ·)) = first :: others := by
  have hplain : ∀ part ∈ first :: others, ∀ c ∈ part, (c == separator) = false := by
    intro part hpart c hc
    have hne : c ≠ separator := fun heq => h part hpart (heq ▸ hc)
    simpa using hne
  induction others generalizing first with
  | nil => simpa using pieces_of_plain (hplain first List.mem_cons_self)
  | cons second others ih =>
    have hrest := ih second (fun part hpart => h part (List.mem_cons_of_mem _ hpart))
      (fun part hpart => hplain part (List.mem_cons_of_mem _ hpart))
    rw [List.flatMap_cons, List.cons_append, pieces_append_separator
      (hplain first List.mem_cons_self) (by simp), hrest]

end Pieces

section Digits

theorem bounds_of_isDigit {c : Char} (h : c.isDigit = true) : 48 ≤ c.toNat ∧ c.toNat ≤ 57 := by
  simpa [Char.isDigit, UInt32.le_iff_toNat_le] using h

theorem digitChar_of_isDigit {c : Char} (h : c.isDigit = true) :
    c.toNat - '0'.toNat < 10 ∧ Nat.digitChar (c.toNat - '0'.toNat) = c := by
  obtain ⟨hlow, hhigh⟩ := bounds_of_isDigit h
  have hchar : c = Char.ofNat c.toNat := (Char.ofNat_toNat c).symm
  generalize c.toNat = code at *
  subst hchar
  interval_cases code <;> decide

/-- Written anew, a number has the digits that it was read from after their leading zeros. -/
theorem toDigits_ofDigitChars {cs : List Char} (h : ∀ c ∈ cs, c.isDigit = true) :
    (Nat.ofDigitChars 10 cs 0 = 0 ∧ cs.dropWhile (· == '0') = []) ∨
      (0 < Nat.ofDigitChars 10 cs 0 ∧
        Nat.toDigits 10 (Nat.ofDigitChars 10 cs 0) = cs.dropWhile (· == '0')) := by
  induction cs using List.reverseRecOn with
  | nil => exact Or.inl ⟨rfl, rfl⟩
  | append_singleton cs digit ih =>
    obtain ⟨hlt, hchar⟩ := digitChar_of_isDigit (h digit (by simp))
    have hvalue : Nat.ofDigitChars 10 (cs ++ [digit]) 0 =
        10 * Nat.ofDigitChars 10 cs 0 + (digit.toNat - '0'.toNat) := by
      rw [Nat.ofDigitChars_append, Nat.ofDigitChars_cons, Nat.ofDigitChars_nil]
    rw [hvalue, List.dropWhile_append]
    rcases ih fun c hc => h c (List.mem_append_left _ hc) with ⟨hzero, hnil⟩ | ⟨hpos, hdigits⟩
    · rw [hzero, hnil]
      by_cases hdigit : digit = '0'
      · subst hdigit
        exact Or.inl ⟨rfl, rfl⟩
      · right
        have hne : digit.toNat - '0'.toNat ≠ 0 := by
          intro heq
          rw [heq] at hchar
          exact hdigit hchar.symm
        refine ⟨by omega, ?_⟩
        rw [Nat.mul_zero, Nat.zero_add, Nat.toDigits_of_lt_base hlt, hchar]
        simp [hdigit]
    · right
      refine ⟨by omega, ?_⟩
      have hne : (cs.dropWhile (· == '0')).isEmpty = false := by
        rw [← hdigits]
        simp [Nat.toDigits_ne_nil]
      rw [← Nat.toDigits_append_toDigits (by omega) hpos hlt, hdigits,
        Nat.toDigits_of_lt_base hlt, hchar, hne]
      rfl

end Digits

end Text

section Grammar

open Address (startsName continuesName)

/-- A text that begins as a name does and goes on with characters of one kind. -/
def Text.isIdentifier (continues : Char → Bool) (text : String) : Bool :=
  match text.toList with
  | [] => false
  | c :: cs => startsName c && cs.all continues

def PrefixedName.isWellFormed (name : PrefixedName) : Bool :=
  name.qualifier.all (Text.isIdentifier continuesName) &&
    Text.isIdentifier continuesName name.localName

def Index.isWellFormed : Index → Bool
  | position number => 0 < number && number ≤ Text.maxWord
  | var name => Text.isIdentifier Text.isWordChar name

def Segment.isWellFormed : Segment → Bool
  | element name index => name.isWellFormed && index.all Index.isWellFormed
  | attr name => name.isWellFormed

/-- What can be written and read again: names, variables and positions of the grammar, and nothing
below an attribute. -/
structure Address.WellFormed (address : Address) : Prop where
  nonempty : address.segments ≠ []
  segments : ∀ segment ∈ address.segments, segment.isWellFormed = true
  attributeLast : ∀ segment ∈ address.segments.dropLast, segment.isAttribute = false

/-- Leaves out the zeros that follow an opening bracket; the flag says that one was just read. -/
def dropZeros : Bool → List Char → List Char
  | _, [] => []
  | afterBracket, c :: cs =>
    if afterBracket && c == '0' then dropZeros true cs else c :: dropZeros (c == '[') cs

/-- An address without the zeros that its positions begin with. -/
def withoutLeadingZeros (source : String) : String :=
  String.ofList (dropZeros false source.toList)

end Grammar

section Zeros

theorem dropZeros_of_plain {cs : List Char} (h : '[' ∉ cs) : dropZeros false cs = cs := by
  induction cs with
  | nil => rfl
  | cons c cs ih =>
    obtain ⟨hne, hrest⟩ := not_or.mp (mt List.mem_cons.mpr h)
    have hc : (c == '[') = false := by simpa using Ne.symm hne
    simp [dropZeros, hc, ih hrest]

theorem dropZeros_after_bracket {cs : List Char} (h : '[' ∉ cs) :
    dropZeros true cs = cs.dropWhile (· == '0') := by
  induction cs with
  | nil => rfl
  | cons c cs ih =>
    obtain ⟨hne, hrest⟩ := not_or.mp (mt List.mem_cons.mpr h)
    have hc : (c == '[') = false := by simpa using Ne.symm hne
    by_cases hzero : c = '0'
    · simp [dropZeros, hzero, ih hrest]
    · simp [dropZeros, hzero, hc, dropZeros_of_plain hrest]

/-- Zeros are looked for anew after a character that is none. -/
theorem dropZeros_append_stop {stop : Char} (hstop : stop ≠ '0') (afterBracket : Bool)
    (before after : List Char) : dropZeros afterBracket (before ++ stop :: after) =
      dropZeros afterBracket before ++ stop :: dropZeros (stop == '[') after := by
  induction before generalizing afterBracket with
  | nil => simp [dropZeros, hstop]
  | cons c cs ih =>
    simp only [List.cons_append, dropZeros]
    split
    · exact ih true
    · rw [ih, List.cons_append]

end Zeros

section Names

variable {continues : Char → Bool} {name : String} {cs rest : List Char}

theorem isIdentifier_iff : Text.isIdentifier continues name = true ↔
    ∃ first others, name.toList = first :: others ∧ Address.startsName first = true ∧
      ∀ c ∈ others, continues c = true := by
  unfold Text.isIdentifier
  cases name.toList <;> simp

theorem readIdentifier?_eq (h : Address.readIdentifier? continues cs = some (name, rest)) :
    cs = name.toList ++ rest ∧ Text.isIdentifier continues name = true := by
  cases cs with
  | nil => contradiction
  | cons first others =>
    simp only [Address.readIdentifier?] at h
    split at h
    · rename_i hstarts
      obtain ⟨rfl, rfl⟩ := Prod.mk.inj (Option.some.inj h)
      refine ⟨by simp, isIdentifier_iff.mpr ⟨first, _, String.toList_ofList, hstarts, ?_⟩⟩
      intro c hc
      exact List.all_eq_true.mp (List.all_takeWhile) c hc
    · contradiction

theorem readIdentifier?_written (h : Text.isIdentifier continues name = true)
    (hrest : ∀ c ∈ rest.head?, continues c = false) :
    Address.readIdentifier? continues (name.toList ++ rest) = some (name, rest) := by
  obtain ⟨first, others, hname, hstarts, hothers⟩ := isIdentifier_iff.mp h
  have htake : (others ++ rest).takeWhile continues = others := by
    rw [List.takeWhile_append_of_pos hothers]
    cases rest <;> simp_all
  have hdrop : (others ++ rest).dropWhile continues = rest := by
    rw [List.dropWhile_append_of_pos hothers]
    cases rest <;> simp_all
  rw [hname, List.cons_append, Address.readIdentifier?, if_pos hstarts, htake, hdrop, ← hname,
    String.ofList_toList]

/-- No character of an identifier is told apart by what its characters have in common. -/
theorem not_mem_identifier (h : Text.isIdentifier continues name = true) {stop : Char}
    (hstarts : Address.startsName stop = false) (hcontinues : continues stop = false) :
    stop ∉ name.toList := by
  obtain ⟨first, others, hname, hfirst, hothers⟩ := isIdentifier_iff.mp h
  intro hmem
  rw [hname] at hmem
  rcases List.mem_cons.mp hmem with rfl | hmem
  · exact absurd hfirst (by simp [hstarts])
  · exact absurd (hothers stop hmem) (by simp [hcontinues])

end Names

namespace PrefixedName

variable {name : PrefixedName}

theorem text_cases (name : PrefixedName) :
    (name.qualifier = none ∧ name.text.toList = name.localName.toList) ∨
      ∃ qualifier, name.qualifier = some qualifier ∧
        name.text.toList = qualifier.toList ++ ':' :: name.localName.toList := by
  obtain ⟨qualifier, localName⟩ := name
  cases qualifier <;> simp [text]

theorem not_mem_text (h : name.isWellFormed = true) {stop : Char} (hcolon : stop ≠ ':')
    (hstarts : Address.startsName stop = false) (hcontinues : Address.continuesName stop = false) :
    stop ∉ name.text.toList := by
  obtain ⟨hqualifier, hlocal⟩ := Bool.and_eq_true_iff.mp h
  have hown := not_mem_identifier hlocal hstarts hcontinues
  rcases text_cases name with ⟨-, htext⟩ | ⟨qualifier, hsome, htext⟩
  · rwa [htext]
  · rw [hsome] at hqualifier
    have hbefore := not_mem_identifier hqualifier hstarts hcontinues
    simp [htext, hbefore, hcolon, hown]

theorem exists_text_cons (h : name.isWellFormed = true) :
    ∃ first others, name.text.toList = first :: others ∧ Address.startsName first = true := by
  obtain ⟨hqualifier, hlocal⟩ := Bool.and_eq_true_iff.mp h
  rcases text_cases name with ⟨-, htext⟩ | ⟨qualifier, hsome, htext⟩
  · obtain ⟨first, others, hname, hstarts, -⟩ := isIdentifier_iff.mp hlocal
    exact ⟨first, others, htext.trans hname, hstarts⟩
  · rw [hsome] at hqualifier
    obtain ⟨first, others, hname, hstarts, -⟩ := isIdentifier_iff.mp hqualifier
    exact ⟨first, _, by rw [htext, hname]; rfl, hstarts⟩

end PrefixedName

namespace Address

section Reading

variable {name : PrefixedName} {index : Index} {cs rest : List Char}

theorem readName?_eq (h : readName? cs = some (name, rest)) :
    cs = name.text.toList ++ rest ∧ name.isWellFormed = true := by
  unfold readName? at h
  obtain ⟨⟨first, others⟩, hfirst, hname⟩ := Option.bind_eq_some_iff.mp h
  obtain ⟨rfl, hwell⟩ := readIdentifier?_eq hfirst
  dsimp only at hname
  split at hname
  · obtain ⟨⟨second, others⟩, hsecond, hmade⟩ := Option.bind_eq_some_iff.mp hname
    obtain ⟨rfl, hwellSecond⟩ := readIdentifier?_eq hsecond
    obtain ⟨rfl, rfl⟩ := Prod.mk.inj (Option.some.inj hmade)
    exact ⟨by simp [PrefixedName.text],
      by simp [PrefixedName.isWellFormed, hwell, hwellSecond]⟩
  · obtain ⟨rfl, rfl⟩ := Prod.mk.inj (Option.some.inj hname)
    exact ⟨rfl, by simp [PrefixedName.isWellFormed, PrefixedName.unprefixed, hwell]⟩

theorem readName?_written (h : name.isWellFormed = true)
    (hrest : ∀ c ∈ rest.head?, continuesName c = false ∧ c ≠ ':') :
    readName? (name.text.toList ++ rest) = some (name, rest) := by
  obtain ⟨qualifier, localName⟩ := name
  obtain ⟨hqualifier, hlocal⟩ := Bool.and_eq_true_iff.mp h
  have hread := readIdentifier?_written hlocal fun c hc => (hrest c hc).1
  unfold readName?
  cases qualifier with
  | none =>
    simp only [PrefixedName.text, hread, Option.bind_eq_bind, Option.bind_some]
    split
    · exact absurd rfl (hrest ':' rfl).2
    · rfl
  | some qualifier =>
    have hbefore : readIdentifier? continuesName
        (qualifier.toList ++ ':' :: (localName.toList ++ rest)) =
          some (qualifier, ':' :: (localName.toList ++ rest)) :=
      readIdentifier?_written hqualifier (by simp; decide)
    have htext : (PrefixedName.text ⟨some qualifier, localName⟩).toList ++ rest =
        qualifier.toList ++ ':' :: (localName.toList ++ rest) := by
      simp [PrefixedName.text]
    simp only [htext, hbefore, hread, Option.bind_eq_bind, Option.bind_some]
    rfl

theorem digitsValue?_eq (h : Text.digitsValue? cs = some number) (hpos : 0 < number) :
    Nat.toDigits 10 number = cs.dropWhile (· == '0') := by
  have hdigits := Text.all_isDigit_of_digitsValue? h
  have hvalue : Nat.ofDigitChars 10 cs 0 = number := by
    unfold Text.digitsValue? at h
    split at h
    · exact Option.some.inj h
    · contradiction
  rcases Text.toDigits_ofDigitChars hdigits with ⟨hzero, -⟩ | ⟨-, hwritten⟩
  · omega
  · rwa [hvalue] at hwritten

theorem readIndex?_eq (h : readIndex? cs = some index) :
    index.text.toList = dropZeros true cs ∧ '[' ∉ cs ∧ index.isWellFormed = true := by
  unfold readIndex? at h
  split at h
  · split at h
    · rename_i cs name hname
      obtain ⟨rfl, hwell⟩ := readIdentifier?_eq hname
      obtain rfl := Option.some.inj h
      have hplain : '[' ∉ name.toList := not_mem_identifier hwell (by decide) (by decide)
      refine ⟨?_, by simp [hplain], hwell⟩
      rw [dropZeros_after_bracket (by simp [hplain])]
      simp [Index.text]
    · contradiction
  · split at h
    · rename_i number hnumber
      split at h
      · rename_i hbounds
        obtain rfl := Option.some.inj h
        have hplain : '[' ∉ cs := fun hmem =>
          absurd (Text.all_isDigit_of_digitsValue? hnumber _ hmem) (by decide)
        refine ⟨?_, hplain, by simpa [Index.isWellFormed] using hbounds⟩
        rw [dropZeros_after_bracket hplain, ← digitsValue?_eq hnumber hbounds.1]
        simp [Index.text]
      · contradiction
    · contradiction

theorem readIndex?_written (h : index.isWellFormed = true) :
    readIndex? index.text.toList = some index := by
  cases index with
  | var name =>
    have hread : readIdentifier? Text.isWordChar (name.toList ++ []) = some (name, []) :=
      readIdentifier?_written h (by simp)
    rw [List.append_nil] at hread
    have htext : (Index.text (.var name)).toList = '$' :: name.toList := by simp [Index.text]
    simp only [htext, readIndex?, hread]
  | position number =>
    have hbounds : 0 < number ∧ number ≤ Text.maxWord := by
      simpa [Index.isWellFormed] using h
    have htext : (Index.text (.position number)).toList = Nat.toDigits 10 number := by
      simp [Index.text]
    rw [htext]
    unfold readIndex?
    split
    · rename_i hdollar
      have hdigit : '$'.isDigit = true :=
        Nat.isDigit_of_mem_toDigits (b := 10) (n := number) (by omega) (by omega)
          (by rw [hdollar]; exact List.mem_cons_self)
      exact absurd hdigit (by decide)
    · simp [Text.digitsValue?_toDigits, hbounds]

theorem readBrackets?_eq {index : Option Index} (h : readBrackets? cs = some index) :
    index.all Index.isWellFormed = true ∧ ∀ name : PrefixedName, name.isWellFormed = true →
      (Segment.text (.element name index)).toList =
        dropZeros false (name.text.toList ++ cs) := by
  unfold readBrackets? at h
  split at h
  · obtain rfl := Option.some.inj h
    refine ⟨rfl, fun name hname => ?_⟩
    have hplain : '[' ∉ name.text.toList :=
      PrefixedName.not_mem_text hname (by decide) (by decide) (by decide)
    rw [List.append_nil, dropZeros_of_plain hplain]
    rfl
  · rename_i inside
    split at h
    · rename_i hlast
      obtain ⟨index, hindex, rfl⟩ := Option.map_eq_some_iff.mp h
      obtain ⟨htext, hbracket, hwell⟩ := readIndex?_eq hindex
      refine ⟨hwell, fun name hname => ?_⟩
      have hplain : '[' ∉ name.text.toList :=
        PrefixedName.not_mem_text hname (by decide) (by decide) (by decide)
      have hinside : inside = inside.dropLast ++ [']'] := by
        obtain ⟨before, rfl⟩ := List.getLast?_eq_some_iff.mp hlast
        rw [List.dropLast_concat]
      rw [hinside, dropZeros_append_stop (by decide), dropZeros_of_plain hplain,
        dropZeros_append_stop (by decide)]
      simp [Segment.text, htext, dropZeros]
    · contradiction
  · contradiction

theorem readSegment?_eq {segment : Segment} (h : readSegment? cs = some segment) :
    segment.text.toList = dropZeros false cs ∧ segment.isWellFormed = true := by
  unfold readSegment? at h
  split at h
  · rename_i cs
    split at h
    · rename_i name hname
      obtain rfl := Option.some.inj h
      obtain ⟨hcs, hwell⟩ := readName?_eq hname
      have hplain : '[' ∉ name.text.toList :=
        PrefixedName.not_mem_text hwell (by decide) (by decide) (by decide)
      rw [List.append_nil] at hcs
      subst hcs
      refine ⟨?_, hwell⟩
      rw [dropZeros_of_plain (by simp [hplain])]
      simp [Segment.text]
    · contradiction
  · split at h
    · rename_i name rest hname
      obtain ⟨index, hindex, rfl⟩ := Option.map_eq_some_iff.mp h
      obtain ⟨rfl, hwell⟩ := readName?_eq hname
      obtain ⟨hwellIndex, htext⟩ := readBrackets?_eq hindex
      exact ⟨htext name hwell, by simp [Segment.isWellFormed, hwell, hwellIndex]⟩
    · contradiction

theorem readBrackets?_written (h : index.isWellFormed = true) :
    readBrackets? ('[' :: (index.text.toList ++ [']'])) = some (some index) := by
  simp [readBrackets?, readIndex?_written h]

theorem readSegment?_written {segment : Segment} (h : segment.isWellFormed = true) :
    readSegment? segment.text.toList = some segment := by
  cases segment with
  | attr name =>
    have hread : readName? (name.text.toList ++ []) = some (name, []) :=
      readName?_written h (by simp)
    rw [List.append_nil] at hread
    have htext : (Segment.text (.attr name)).toList = '@' :: name.text.toList := by
      simp [Segment.text]
    simp only [htext, readSegment?, hread]
  | element name index =>
    obtain ⟨hname, hindex⟩ := Bool.and_eq_true_iff.mp h
    obtain ⟨rest, htext, hbrackets, hstop⟩ : ∃ rest,
        (Segment.text (.element name index)).toList = name.text.toList ++ rest ∧
          readBrackets? rest = some index ∧
          ∀ c ∈ rest.head?, continuesName c = false ∧ c ≠ ':' := by
      cases index with
      | none => exact ⟨[], by simp [Segment.text], rfl, by simp⟩
      | some index =>
        exact ⟨'[' :: (index.text.toList ++ [']']), by simp [Segment.text],
          readBrackets?_written hindex, by simp; decide⟩
    have hread := readName?_written hname hstop
    obtain ⟨first, others, hfirst, hstarts⟩ := PrefixedName.exists_text_cons hname
    rw [htext]
    unfold readSegment?
    split
    · rename_i hat
      rw [hfirst] at hat
      obtain ⟨rfl, -⟩ := List.cons.inj hat
      exact absurd hstarts (by decide)
    · simp only [hread, hbrackets, Option.map_some]

theorem not_mem_text_segment {segment : Segment} (h : segment.isWellFormed = true) :
    '/' ∉ segment.text.toList := by
  cases segment with
  | attr name =>
    have hname : '/' ∉ name.text.toList :=
      PrefixedName.not_mem_text h (by decide) (by decide) (by decide)
    simp [Segment.text, hname]
  | element name index =>
    obtain ⟨hwell, hindex⟩ := Bool.and_eq_true_iff.mp h
    have hname : '/' ∉ name.text.toList :=
      PrefixedName.not_mem_text hwell (by decide) (by decide) (by decide)
    cases index with
    | none => simpa [Segment.text] using hname
    | some index =>
      have hinside : '/' ∉ index.text.toList := by
        cases index with
        | position number =>
          intro hmem
          rw [Index.text, Nat.toString_eq_ofList_toDigits, String.toList_ofList] at hmem
          exact absurd (Nat.isDigit_of_mem_toDigits (by omega) (by omega) hmem) (by decide)
        | var name =>
          have hvar : '/' ∉ name.toList := not_mem_identifier hindex (by decide) (by decide)
          simp [Index.text, hvar]
      simp [Segment.text, hname, hinside]

end Reading

theorem dropZeros_append_flatMap (raw : List Char) (raws : List (List Char)) :
    dropZeros false (raw ++ raws.flatMap ('/' :: ·)) =
      dropZeros false raw ++ raws.flatMap fun raw => '/' :: dropZeros false raw := by
  induction raws generalizing raw with
  | nil => simp
  | cons next raws ih =>
    rw [List.flatMap_cons, List.cons_append, dropZeros_append_stop (by decide), List.flatMap_cons,
      List.cons_append]
    exact congrArg _ (congrArg _ (ih next))

/-- Segments are read when each of them is and only the last one is an attribute. -/
theorem readSegments_eq_ok_iff {source : String} {raws : List (List Char)}
    {segments : List Segment} : readSegments source raws = .ok segments ↔
      raws.map readSegment? = segments.map some ∧
        ∀ segment ∈ segments.dropLast, segment.isAttribute = false := by
  induction raws generalizing segments with
  | nil => cases segments <;> simp [readSegments]
  | cons raw raws ih =>
    rw [readSegments]
    cases hraw : readSegment? raw with
    | none => cases segments <;> simp [hraw]
    | some segment =>
      constructor
      · intro h
        dsimp only at h
        split at h
        · contradiction
        · rename_i hlast
          cases hothers : readSegments source raws with
          | error error => rw [hothers] at h; contradiction
          | ok others =>
            rw [hothers] at h
            obtain rfl := Except.ok.inj h
            obtain ⟨hmap, habove⟩ := ih.mp hothers
            refine ⟨by simp [hraw, hmap], ?_⟩
            cases others with
            | nil => simp
            | cons second others =>
              have hne : raws ≠ [] := by rintro rfl; simp at hmap
              have hown : segment.isAttribute = false := by simpa [hne] using hlast
              simpa [hown] using habove
      · rintro ⟨hmap, habove⟩
        cases segments with
        | nil => simp at hmap
        | cons first others =>
          rw [List.map_cons, List.map_cons] at hmap
          obtain ⟨hfirst, hrest⟩ := List.cons.inj hmap
          obtain rfl := Option.some.inj (hraw.symm.trans hfirst)
          have hlast : ¬ (segment.isAttribute && !raws.isEmpty) = true := by
            cases others with
            | nil => simp_all
            | cons second others => simp_all
          have hbelow : ∀ other ∈ others.dropLast, other.isAttribute = false := by
            intro other hother
            cases others with
            | nil => contradiction
            | cons second others => exact habove other (List.mem_cons_of_mem _ hother)
          have hothers := ih.mpr ⟨hrest, hbelow⟩
          dsimp only
          rw [if_neg hlast, hothers]
          rfl

theorem texts_of_read {raws : List (List Char)} {segments : List Segment}
    (h : raws.map readSegment? = segments.map some) :
    (segments.map fun segment => segment.text.toList) = raws.map (dropZeros false) ∧
      ∀ segment ∈ segments, segment.isWellFormed = true := by
  induction raws generalizing segments with
  | nil => simp [List.map_eq_nil_iff.mp h.symm]
  | cons raw raws ih =>
    cases segments with
    | nil => simp at h
    | cons segment others =>
      rw [List.map_cons, List.map_cons] at h
      obtain ⟨hraw, hrest⟩ := List.cons.inj h
      obtain ⟨htext, hwell⟩ := readSegment?_eq hraw
      obtain ⟨htexts, hall⟩ := ih hrest
      exact ⟨by simp [htext, htexts], List.forall_mem_cons.mpr ⟨hwell, hall⟩⟩

theorem toList_text {address : Address} (h : address.segments ≠ []) :
    address.text.toList = address.segments.flatMap fun segment => '/' :: segment.text.toList := by
  unfold text
  split
  · contradiction
  · rw [String.toList_join, List.flatMap_map]
    simp

/-- What is read can be written, and has lost nothing but zeros. -/
theorem parse_eq {source : String} {address : Address} (h : parse source = .ok address) :
    address.WellFormed ∧ address.text = withoutLeadingZeros source := by
  unfold parse at h
  split at h
  · rename_i cs hsource
    cases hsegments : readSegments source (Text.pieces (· == '/') cs) with
    | error error => rw [hsegments] at h; contradiction
    | ok segments =>
      rw [hsegments] at h
      obtain rfl := Except.ok.inj h
      obtain ⟨hmap, habove⟩ := readSegments_eq_ok_iff.mp hsegments
      obtain ⟨htexts, hwell⟩ := texts_of_read hmap
      have hne : segments ≠ [] := by
        rintro rfl
        exact Text.pieces_ne_nil _ cs (List.map_eq_nil_iff.mp hmap)
      refine ⟨⟨hne, hwell, habove⟩, ?_⟩
      have hkept : (text ⟨segments⟩).toList = dropZeros false source.toList := calc
        (text ⟨segments⟩).toList
        _ = (segments.map fun segment => segment.text.toList).flatMap ('/' :: ·) := by
          rw [toList_text hne, List.flatMap_map]
        _ = (Text.pieces (· == '/') cs).flatMap fun raw => '/' :: dropZeros false raw := by
          rw [htexts, List.flatMap_map]
        _ = dropZeros false ((Text.pieces (· == '/') cs).flatMap ('/' :: ·)) :=
          (dropZeros_append_flatMap [] _).symm
        _ = dropZeros false source.toList := by rw [Text.flatMap_pieces, hsource]
      rw [withoutLeadingZeros, ← hkept, String.ofList_toList]
  · contradiction

/-- What can be written is read as it was. -/
theorem parse_text {address : Address} (h : address.WellFormed) :
    parse address.text = .ok address := by
  obtain ⟨segments⟩ := address
  cases segments with
  | nil => exact absurd rfl h.nonempty
  | cons first others =>
    have hplain :
        ∀ part ∈ (first :: others).map fun segment => segment.text.toList, '/' ∉ part := by
      intro part hpart
      obtain ⟨segment, hsegment, rfl⟩ := List.mem_map.mp hpart
      exact not_mem_text_segment (h.segments segment hsegment)
    have hsegments : readSegments (text ⟨first :: others⟩)
        ((first :: others).map fun segment => segment.text.toList) = .ok (first :: others) := by
      refine readSegments_eq_ok_iff.mpr ⟨?_, h.attributeLast⟩
      rw [List.map_map]
      exact List.map_congr_left fun segment hsegment =>
        readSegment?_written (h.segments segment hsegment)
    have hpieces := Text.pieces_written _ _ hplain
    rw [List.flatMap_map] at hpieces
    have htext : (text ⟨first :: others⟩).toList = '/' :: (first.text.toList ++
        others.flatMap fun segment => '/' :: segment.text.toList) := by
      rw [toList_text h.nonempty]
      simp
    simp only [parse, htext]
    rw [hpieces]
    exact congrArg (Except.map Address.mk) hsegments

/-- Reading and writing undo each other: all that is read is well formed and is written as it stood,
but for leading zeros, and all that is well formed is read again. -/
theorem parse_inverts_text :
    (∀ source address, parse source = .ok address →
      address.WellFormed ∧ address.text = withoutLeadingZeros source ∧
        parse address.text = .ok address) ∧
      ∀ address : Address, address.WellFormed → parse address.text = .ok address := by
  refine ⟨fun source address h => ?_, fun address => parse_text⟩
  obtain ⟨hwell, htext⟩ := parse_eq h
  exact ⟨hwell, htext, parse_text hwell⟩

/-- The address that a segment of each kind is read from and written to. -/
def everyKind : Address :=
  ⟨[.element ⟨some "a", "b.c"⟩ (some (.position 7)),
    .element (.unprefixed "d") (some (.var "x")), .attr (.unprefixed "e")]⟩

theorem parse_inverts_text_everyKind :
    parse "/a:b.c[007]/d[$x]/@e" = .ok everyKind ∧ everyKind.WellFormed ∧
      withoutLeadingZeros "/a:b.c[007]/d[$x]/@e" = "/a:b.c[7]/d[$x]/@e" ∧
      everyKind.text = "/a:b.c[7]/d[$x]/@e" ∧ parse everyKind.text = .ok everyKind := by
  have hread : parse "/a:b.c[007]/d[$x]/@e" = .ok everyKind := by decide
  obtain ⟨hwell, htext, -⟩ := parse_inverts_text.1 _ _ hread
  have hzeros : withoutLeadingZeros "/a:b.c[007]/d[$x]/@e" = "/a:b.c[7]/d[$x]/@e" := by decide
  exact ⟨hread, hwell, hzeros, htext.trans hzeros, parse_inverts_text.2 _ hwell⟩

end Address

end SchemaForms
