import SchemaForms.Proofs.Address.Written
import SchemaForms.Proofs.Compile.Rendered

/-!
Items written and read again. The variable of an item is the name of its leaf without the colon,
with a word and perhaps a number after it. A variable is made of word characters while a name may
also hold dots and hyphens, so an item can be read again exactly when the name of its leaf holds
neither.
-/

namespace SchemaForms

open Text (isWordChar isIdentifier)

section Characters

theorem isWordChar_of_startsName {c : Char} (h : Address.startsName c = true) :
    isWordChar c = true := by
  rcases Bool.or_eq_true_iff.mp h with halpha | hline
  · have hsmall : c.toNat < 0x80 := by
      rcases Bool.or_eq_true_iff.mp halpha with hupper | hlower
      · have hle : c.toNat ≤ 90 := (of_decide_eq_true hupper).2
        omega
      · have hle : c.toNat ≤ 122 := of_decide_eq_true (Bool.and_eq_true_iff.mp hlower).2
        omega
    simp [isWordChar, hsmall, Char.isAlphanum, halpha]
  · obtain rfl := beq_iff_eq.mp hline
    decide

/-- Dots and hyphens are all that names have and variables have not. -/
theorem isWordChar_iff {c : Char} (h : Address.continuesName c = true) :
    isWordChar c = true ↔ c ≠ '.' ∧ c ≠ '-' := by
  have hdot : isWordChar '.' = false := by decide
  have hhyphen : isWordChar '-' = false := by decide
  constructor
  · intro hword
    constructor <;> rintro rfl <;> simp_all
  · rintro ⟨hnotDot, hnotHyphen⟩
    simpa [Address.continuesName, hnotDot, hnotHyphen] using h

end Characters

/-- A name without its colon is a name. -/
theorem PrefixedName.isIdentifier_flattened {name : PrefixedName} (h : name.isWellFormed = true) :
    isIdentifier Address.continuesName name.flattened = true := by
  obtain ⟨qualifier, localName⟩ := name
  obtain ⟨hqualifier, hlocal⟩ := Bool.and_eq_true_iff.mp h
  cases qualifier with
  | none => simpa [flattened] using hlocal
  | some qualifier =>
    obtain ⟨first, others, hname, hfirst, hothers⟩ := isIdentifier_iff.mp hqualifier
    obtain ⟨second, after, hlocalName, hsecond, hafter⟩ := isIdentifier_iff.mp hlocal
    have hword : Address.continuesName second = true := by
      simp [Address.continuesName, isWordChar_of_startsName hsecond]
    refine isIdentifier_iff.mpr ⟨first, others ++ second :: after, ?_, hfirst, ?_⟩
    · simp [flattened, hname, hlocalName]
    · intro c hc
      rcases List.mem_append.mp hc with hbefore | hrest
      · exact hothers c hbefore
      · rcases List.mem_cons.mp hrest with rfl | hlast
        · exact hword
        · exact hafter c hlast

namespace Address

variable {address : Address} {leaf : PrefixedName}

/-- Only word characters come after the name in a fresh variable. -/
theorem exists_suffix_freshVariable (hleaf : address.leafName? = some leaf) :
    ∃ suffix : List Char, address.freshVariable.toList = leaf.flattened.toList ++ suffix ∧
      ∀ c ∈ suffix, isWordChar c = true := by
  have hstem : ∀ c ∈ "Index".toList, isWordChar c = true :=
    List.all_eq_true.mp (by decide)
  rcases freshVariable_cases address leaf hleaf with ⟨heq, -⟩ | ⟨largest, heq, -⟩
  · exact ⟨_, by rw [heq, variableStem, String.toList_append], hstem⟩
  · refine ⟨"Index".toList ++ Nat.toDigits 10 (largest + 1), ?_, ?_⟩
    · simp [heq, variableStem]
    · intro c hc
      rcases List.mem_append.mp hc with hword | hdigit
      · exact hstem c hword
      · have hdigit := Nat.isDigit_of_mem_toDigits (by omega) (by omega) hdigit
        have hsmall : c.toNat < 0x80 := by
          have hbounds := Text.bounds_of_isDigit hdigit
          omega
        simp [isWordChar, hsmall, Char.isAlphanum, hdigit]

theorem isIdentifier_freshVariable_iff (hleaf : address.leafName? = some leaf)
    (h : leaf.isWellFormed = true) : isIdentifier isWordChar address.freshVariable = true ↔
      '.' ∉ leaf.flattened.toList ∧ '-' ∉ leaf.flattened.toList := by
  obtain ⟨suffix, hvariable, hsuffix⟩ := exists_suffix_freshVariable hleaf
  have hname := PrefixedName.isIdentifier_flattened h
  obtain ⟨first, others, hflattened, hstarts, hothers⟩ := isIdentifier_iff.mp hname
  rw [hflattened] at hvariable ⊢
  constructor
  · intro hidentifier
    have hplain : ∀ stop, startsName stop = false → isWordChar stop = false →
        stop ∉ first :: others := by
      intro stop hnot hnotWord hmem
      refine not_mem_identifier hidentifier hnot hnotWord ?_
      rw [hvariable]
      exact List.mem_append_left _ hmem
    exact ⟨hplain '.' (by decide) (by decide), hplain '-' (by decide) (by decide)⟩
  · rintro ⟨hdot, hhyphen⟩
    refine isIdentifier_iff.mpr ⟨first, others ++ suffix, hvariable, hstarts, fun c hc => ?_⟩
    rcases List.mem_append.mp hc with hown | hadded
    · have hmem : c ∈ first :: others := List.mem_cons_of_mem _ hown
      refine (isWordChar_iff (hothers c hown)).mpr ⟨?_, ?_⟩ <;> rintro rfl
      · exact hdot hmem
      · exact hhyphen hmem
    · exact hsuffix c hadded

theorem withIndex_siblingPath (address : Address) (index : Index) :
    address.siblingPath.withIndex index = address.withIndex index := by
  rcases segments_eq address with h | ⟨ancestors, leaf, h⟩
  · simp [withIndex, siblingPath, h, setLeafIndex]
  · cases leaf <;> simp [withIndex, siblingPath, h, setLeafIndex_append, Segment.withIndex]

/-- Under a variable an element is as well formed as the variable is. -/
theorem wellFormed_withIndex_iff (h : address.WellFormed) (helement : address.isAttribute = false)
    (index : Index) : (address.withIndex index).WellFormed ↔ index.isWellFormed = true := by
  rcases segments_eq address with hnil | ⟨ancestors, last, hsegments⟩
  · exact absurd hnil h.nonempty
  · cases last with
    | attr name => simp [isAttribute, leaf?, hsegments, Segment.isAttribute] at helement
    | element name old =>
      have hitem : (address.withIndex index).segments =
          ancestors ++ [.element name (some index)] := by
        simp [withIndex, hsegments, setLeafIndex_append, Segment.withIndex]
      have hwell := h.segments
      have habove := h.attributeLast
      rw [hsegments] at hwell habove
      have hname : name.isWellFormed = true :=
        (Bool.and_eq_true_iff.mp (hwell _ (List.mem_append_right _ (List.mem_singleton_self _)))).1
      constructor
      · intro hnew
        have hlast := hnew.segments (.element name (some index)) (by simp [hitem])
        exact (Bool.and_eq_true_iff.mp hlast).2
      · intro hindex
        refine ⟨by simp [hitem], fun segment hsegment => ?_, ?_⟩
        · rw [hitem] at hsegment
          rcases List.mem_append.mp hsegment with hancestor | hlast
          · exact hwell segment (List.mem_append_left _ hancestor)
          · rw [List.mem_singleton.mp hlast]
            simp [Segment.isWellFormed, hname, hindex]
        · rw [hitem, List.dropLast_concat]
          rwa [List.dropLast_concat] at habove

/-- The item of an element that was read can be read again if and only if the name of the element,
without its colon, is all word characters. -/
theorem parse_item_iff {source : String} (h : parse source = .ok address)
    (helement : address.isAttribute = false) :
    let item := address.withIndex (.var address.siblingPath.freshVariable)
    Compile.itemAddress address = item ∧ ∃ leaf, address.leafName? = some leaf ∧
      (parse item.text = .ok item ↔
        '.' ∉ leaf.flattened.toList ∧ '-' ∉ leaf.flattened.toList) := by
  intro item
  obtain ⟨hwell, -⟩ := parse_eq h
  rcases segments_eq address with hnil | ⟨ancestors, last, hsegments⟩
  · exact absurd hnil hwell.nonempty
  · have hname : last.name.isWellFormed = true := by
      have hlast := hwell.segments last (by simp [hsegments])
      cases last with
      | attr name => exact hlast
      | element name index => exact (Bool.and_eq_true_iff.mp hlast).1
    have hshared : address.siblingPath.leafName? = some last.name := by
      cases last <;>
        simp [leafName?, leaf?, siblingPath, hsegments, setLeafIndex_append, Segment.withIndex,
          Segment.name]
    refine ⟨withIndex_siblingPath _ _, last.name, by simp [leafName?, leaf?, hsegments], ?_⟩
    calc parse item.text = .ok item
      _ ↔ item.WellFormed := ⟨fun hread => (parse_eq hread).1, parse_text⟩
      _ ↔ isIdentifier isWordChar address.siblingPath.freshVariable = true :=
        wellFormed_withIndex_iff hwell helement _
      _ ↔ _ := isIdentifier_freshVariable_iff hshared hname

/-- An address whose leaf has a prefix. -/
def prefixedLeaf : Address :=
  (root (.unprefixed "r")).withIndex (.position 2) |>.child ⟨some "a", "b"⟩

theorem parse_item_iff_prefixedLeaf :
    parse "/r[2]/a:b" = .ok prefixedLeaf ∧ prefixedLeaf.isAttribute = false ∧
      (Compile.itemAddress prefixedLeaf).text = "/r[2]/a:b[$abIndex]" ∧
      parse "/r[2]/a:b[$abIndex]" = .ok (Compile.itemAddress prefixedLeaf) := by
  have hread : parse "/r[2]/a:b" = .ok prefixedLeaf := by decide
  have helement : prefixedLeaf.isAttribute = false := by decide
  obtain ⟨hitem, leaf, hleaf, hiff⟩ := parse_item_iff hread helement
  have hname : leaf = ⟨some "a", "b"⟩ :=
    Option.some.inj (hleaf.symm.trans (by decide))
  have htext : (Compile.itemAddress prefixedLeaf).text = "/r[2]/a:b[$abIndex]" := by decide
  have hparsed := hiff.mpr (by subst hname; decide)
  rw [← hitem, htext] at hparsed
  exact ⟨hread, helement, htext, hparsed⟩

/-- An element with a dot in its name is read, but the item of its iteration is not. -/
theorem item_of_dotted_name_unreadable : ∃ address,
    parse "/a.b" = .ok address ∧ address.isAttribute = false ∧
      (address.withIndex (.var address.siblingPath.freshVariable)).text = "/a.b[$a.bIndex]" ∧
      parse "/a.b[$a.bIndex]" = .error (.invalidSegment "a.b[$a.bIndex]") :=
  ⟨.root (.unprefixed "a.b"), by decide, by decide, by decide, by decide⟩

end Address

end SchemaForms
