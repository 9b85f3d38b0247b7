import SchemaForms.Proofs.Address.Variables

/-!
Addresses as patterns. An address with variables stands for the places that it has when positions
are put for them. It leads to another one when it is a beginning of it, or of what is left of it
when indices are dropped.
-/

namespace SchemaForms

namespace Bindings

/-- The variables stand for positions, which are counted from one. -/
def Places (bindings : Bindings) (vars : List String) : Prop :=
  ∀ var ∈ vars, ∃ number, bindings.lookup var = some number ∧ 1 ≤ number

theorem exists_places (vars : List String) : ∃ bindings : Bindings, bindings.Places vars := by
  induction vars with
  | nil => exact ⟨[], by simp [Places]⟩
  | cons var others ih =>
    obtain ⟨bindings, hplaces⟩ := ih
    refine ⟨bindings.insert var 1, fun name hname => ?_⟩
    rw [lookup_insert]
    split
    · exact ⟨1, rfl, Nat.le_refl 1⟩
    · rename_i hne
      exact hplaces name ((List.mem_cons.mp hname).resolve_left hne)

end Bindings

namespace Segment

/-- The segment is an element's, and says no more about its position than the other one. -/
def leadsTo (segment other : Segment) : Bool :=
  !segment.isAttribute && (segment = other || segment = other.withoutIndex)

def HasNoPosition (segment : Segment) : Prop :=
  ∀ number, segment.index? ≠ some (.position number)

theorem substitute_withoutIndex (bindings : Bindings) (segment : Segment) :
    segment.withoutIndex.substitute bindings = segment.withoutIndex := by
  cases segment <;> rfl

theorem leadsTo_iff {segment other : Segment} : segment.leadsTo other = true ↔
    segment.isAttribute = false ∧ (segment = other ∨ segment = other.withoutIndex) := by
  simp [leadsTo]

theorem name_of_leadsTo {segment other : Segment} (h : segment.leadsTo other = true) :
    segment.name = other.name := by
  rcases (leadsTo_iff.mp h).2 with rfl | rfl
  · rfl
  · cases other <;> rfl

theorem leadsTo_substitute {segment other : Segment} (h : segment.leadsTo other = true)
    (bindings : Bindings) :
    (segment.substitute bindings).leadsTo (other.substitute bindings) = true := by
  obtain ⟨hattribute, hsame⟩ := leadsTo_iff.mp h
  refine leadsTo_iff.mpr ⟨by rwa [isAttribute_substitute], ?_⟩
  rcases hsame with rfl | rfl
  · exact Or.inl rfl
  · exact Or.inr (by rw [substitute_withoutIndex, withoutIndex_substitute])

end Segment

namespace Address

/-- What the other path selects is selected by the path or is below it. -/
def pathLeadsTo : List Segment → List Segment → Bool
  | [], _ => true
  | segment :: path, other :: others => segment.leadsTo other && pathLeadsTo path others
  | _ :: _, [] => false

def leadsTo (address other : Address) : Bool :=
  !address.segments.isEmpty && pathLeadsTo address.segments other.segments

/-- The address of some place: all variables of the other address have positions. -/
def IsPlaceOf (place address : Address) : Prop :=
  ∃ bindings : Bindings, bindings.Places address.vars ∧ place = address.substitute bindings

theorem IsPlaceOf.isAttribute {place address : Address} (h : place.IsPlaceOf address) :
    place.isAttribute = address.isAttribute := by
  obtain ⟨bindings, -, rfl⟩ := h
  exact isAttribute_substitute address bindings

theorem IsPlaceOf.ne_nil {place address : Address} (h : place.IsPlaceOf address)
    (hne : address.segments ≠ []) : place.segments ≠ [] := by
  obtain ⟨bindings, -, rfl⟩ := h
  simpa [substitute] using hne

theorem vars_cons (segment : Segment) (rest : List Segment) :
    vars ⟨segment :: rest⟩ = (segment.index?.bind Index.varName?).toList ++ vars ⟨rest⟩ := by
  cases h : segment.index?.bind Index.varName? <;> simp [vars, h]

/-- One more segment in front: its variable, if it has one, can have any position. -/
theorem exists_placed_front {segment : Segment} {rest : List Segment} {inner : Bindings}
    (hvars : (vars ⟨segment :: rest⟩).Nodup) (hplaces : inner.Places (vars ⟨rest⟩))
    {number : Nat} (hpos : 1 ≤ number) :
    ∃ bindings : Bindings, bindings.Places (vars ⟨segment :: rest⟩) ∧
      rest.map (Segment.substitute bindings) = rest.map (Segment.substitute inner) ∧
      ∀ var, segment.index? = some (.var var) → bindings.lookup var = some number := by
  rw [vars_cons] at hvars ⊢
  cases hvar : segment.index?.bind Index.varName? with
  | none =>
    refine ⟨inner, by simpa using hplaces, rfl, fun var hindex => ?_⟩
    simp [hindex, Index.varName?] at hvar
  | some var =>
    rw [hvar] at hvars
    have hfresh := (List.nodup_cons.mp hvars).1
    have hown : (inner.insert var number).lookup var = some number := by
      rw [Bindings.lookup_insert, if_pos rfl]
    have hkept : ∀ other ∈ vars ⟨rest⟩,
        (inner.insert var number).lookup other = inner.lookup other := by
      intro other hother
      have hne : other ≠ var := fun heq => hfresh (heq ▸ hother)
      rw [Bindings.lookup_insert, if_neg hne]
    have hrest := substitute_congr ⟨rest⟩ _ _ hkept
    refine ⟨inner.insert var number, ?_, congrArg segments hrest, ?_⟩
    · intro other hother
      rcases List.mem_cons.mp hother with rfl | hother
      · exact ⟨number, hown, hpos⟩
      · rw [hkept other hother]
        exact hplaces other hother
    · intro other hother
      have hsame : other = var := by simpa [hother, Index.varName?] using hvar
      rw [hsame, hown]

theorem pathLeadsTo_substitute {path others : List Segment} (h : pathLeadsTo path others = true)
    (bindings : Bindings) :
    pathLeadsTo (path.map (Segment.substitute bindings))
      (others.map (Segment.substitute bindings)) = true := by
  induction path generalizing others with
  | nil => rfl
  | cons segment path ih =>
    cases others with
    | nil => simp [pathLeadsTo] at h
    | cons other others =>
      simp only [pathLeadsTo, List.map_cons, Bool.and_eq_true] at h ⊢
      exact ⟨Segment.leadsTo_substitute h.1 bindings, ih h.2⟩

theorem leadsTo_substitute {address other : Address} (h : address.leadsTo other = true)
    (bindings : Bindings) :
    (address.substitute bindings).leadsTo (other.substitute bindings) = true := by
  simp only [leadsTo, Bool.and_eq_true] at h ⊢
  exact ⟨by simpa [substitute] using h.1, pathLeadsTo_substitute h.2 bindings⟩

theorem isAttribute_of_pathLeadsTo {path others : List Segment}
    (h : pathLeadsTo path others = true) : ∀ segment ∈ path, segment.isAttribute = false := by
  induction path generalizing others with
  | nil => simp
  | cons segment path ih =>
    cases others with
    | nil => simp [pathLeadsTo] at h
    | cons other others =>
      simp only [pathLeadsTo, Bool.and_eq_true] at h
      exact List.forall_mem_cons.mpr ⟨(Segment.leadsTo_iff.mp h.1).1, ih h.2⟩

theorem isAttribute_eq_false {address : Address}
    (h : ∀ segment ∈ address.segments, segment.isAttribute = false) :
    address.isAttribute = false := by
  cases hleaf : address.leaf? with
  | none => simp [isAttribute, hleaf]
  | some leaf => simp [isAttribute, hleaf, h leaf (List.mem_of_getLast? hleaf)]

theorem isAttribute_of_leadsTo {address other : Address} (h : address.leadsTo other = true) :
    ∀ segment ∈ address.segments, segment.isAttribute = false :=
  isAttribute_of_pathLeadsTo (Bool.and_eq_true_iff.mp h).2

theorem pathLeadsTo_append {front : List Segment}
    (hfront : ∀ segment ∈ front, segment.isAttribute = false) (path others : List Segment) :
    pathLeadsTo (front ++ path) (front ++ others) = pathLeadsTo path others := by
  induction front with
  | nil => rfl
  | cons segment front ih =>
    obtain ⟨hsegment, hrest⟩ := List.forall_mem_cons.mp hfront
    simp [pathLeadsTo, Segment.leadsTo, hsegment, ih hrest]

section Beginning

variable {way address : Address} (hbegins : way.segments <+: address.segments)
  (helements : ∀ segment ∈ address.segments, segment.isAttribute = false)
  (hne : way.segments ≠ [])

include hbegins helements hne

theorem leadsTo_of_prefix : way.leadsTo address = true := by
  obtain ⟨rest, hsegments⟩ := hbegins
  have hway : ∀ segment ∈ way.segments, segment.isAttribute = false := by
    intro segment hsegment
    exact helements segment (hsegments ▸ List.mem_append_left _ hsegment)
  have hsame := pathLeadsTo_append hway [] rest
  rw [List.append_nil, hsegments] at hsame
  simp [leadsTo, hne, hsame, pathLeadsTo]

/-- Siblings of what is on the way are on the way, since their path says less. -/
theorem siblingPath_leadsTo_of_prefix : way.siblingPath.leadsTo address = true := by
  obtain ⟨rest, hsegments⟩ := hbegins
  rcases segments_eq way with hnil | ⟨ancestors, leaf, hway⟩
  · exact absurd hnil hne
  have hwhole : address.segments = ancestors ++ leaf :: rest := by
    simp [← hsegments, hway]
  have hancestors : ∀ segment ∈ ancestors, segment.isAttribute = false := by
    intro segment hsegment
    exact helements segment (by simp [hwhole, hsegment])
  have hleaf : leaf.withoutIndex.leadsTo leaf = true := by
    have helement := helements leaf (by simp [hwhole])
    cases leaf with
    | attr name => contradiction
    | element name index => simp [Segment.leadsTo, Segment.withoutIndex, Segment.withIndex,
        Segment.isAttribute]
  have hsiblings : way.siblingPath.segments = ancestors ++ [leaf.withoutIndex] := by
    simp [siblingPath, hway, setLeafIndex_append, Segment.withoutIndex]
  have hsame := pathLeadsTo_append hancestors [leaf.withoutIndex] (leaf :: rest)
  simp [leadsTo, hsiblings, hwhole, hsame, pathLeadsTo, hleaf]

end Beginning

/-- The address of one occurrence among several. -/
def isIterated (address : Address) : Bool := (address.leaf?.bind Segment.index?).isSome

/-- Below its root, the address has no positions, and its variables are all different. -/
structure IsPattern (address : Address) : Prop where
  noPosition : ∀ segment ∈ address.segments.tail, segment.HasNoPosition
  nodup : address.vars.Nodup

theorem vars_concat (ancestors : List Segment) (leaf : Segment) :
    vars ⟨ancestors ++ [leaf]⟩ = vars ⟨ancestors⟩ ++ (leaf.index?.bind Index.varName?).toList := by
  cases h : leaf.index?.bind Index.varName? <;> simp [vars, h]

namespace IsPattern

variable {ancestors : List Segment} {leaf : Segment}

theorem front (h : IsPattern ⟨ancestors ++ [leaf]⟩) : IsPattern ⟨ancestors⟩ := by
  refine ⟨fun segment hsegment => h.noPosition segment ?_, ?_⟩
  · cases ancestors with
    | nil => contradiction
    | cons first rest => exact List.mem_append_left _ hsegment
  · have hnodup := h.nodup
    rw [vars_concat] at hnodup
    exact (List.nodup_append.mp hnodup).1

theorem concat (h : IsPattern ⟨ancestors⟩) (hleaf : leaf.HasNoPosition)
    (hfresh : ∀ var, leaf.index? = some (.var var) → var ∉ vars ⟨ancestors⟩) :
    IsPattern ⟨ancestors ++ [leaf]⟩ := by
  refine ⟨fun segment hsegment => ?_, ?_⟩
  · cases ancestors with
    | nil => contradiction
    | cons first rest =>
      rcases List.mem_append.mp hsegment with hrest | hnew
      · exact h.noPosition segment hrest
      · exact List.mem_singleton.mp hnew ▸ hleaf
  · rw [vars_concat]
    refine List.nodup_append.mpr ⟨h.nodup, ?_, ?_⟩
    · cases leaf.index?.bind Index.varName? <;> simp
    · intro var hvar other hother
      obtain ⟨index, hindex, hname⟩ := Option.bind_eq_some_iff.mp (Option.mem_toList.mp hother)
      cases index with
      | position number => contradiction
      | var name =>
        obtain rfl := Option.some.inj hname
        exact fun heq => hfresh name hindex (heq ▸ hvar)

variable {address : Address}

theorem child (h : address.IsPattern) (name : PrefixedName) : (address.child name).IsPattern :=
  h.concat (by simp [Segment.HasNoPosition, Segment.index?]) (by simp [Segment.index?])

theorem attr (h : address.IsPattern) (name : PrefixedName) : (address.attr name).IsPattern :=
  h.concat (by simp [Segment.HasNoPosition, Segment.index?]) (by simp [Segment.index?])

theorem of_parent? {parent : Address} (h : address.IsPattern)
    (hparent : address.parent? = some parent) : parent.IsPattern := by
  obtain ⟨-, leaf, hsegments⟩ := segments_of_parent? hparent
  obtain ⟨segments⟩ := address
  obtain rfl : segments = parent.segments ++ [leaf] := hsegments
  exact h.front

/-- An item gets a variable that its siblings do not have. -/
theorem item (h : address.IsPattern) (hne : address.segments ≠ [])
    (helement : address.isAttribute = false) {var : String}
    (hfresh : var ∉ address.siblingPath.vars) :
    (address.siblingPath.withIndex (.var var)).IsPattern ∧
      (address.siblingPath.withIndex (.var var)).isIterated = true := by
  obtain ⟨segments⟩ := address
  rcases List.eq_nil_or_concat' segments with rfl | ⟨ancestors, leaf, rfl⟩
  · exact absurd rfl hne
  cases leaf with
  | attr name => simp [isAttribute, leaf?, Segment.isAttribute] at helement
  | element name index =>
    have hitem : (siblingPath ⟨ancestors ++ [.element name index]⟩).withIndex (.var var) =
        ⟨ancestors ++ [.element name (some (.var var))]⟩ := by
      simp [withIndex, siblingPath, setLeafIndex_append, Segment.withIndex]
    have hsiblings : (siblingPath ⟨ancestors ++ [.element name index]⟩).vars =
        vars ⟨ancestors⟩ := by
      simp [siblingPath, setLeafIndex_append, Segment.withIndex, vars_concat, Segment.index?]
    rw [hsiblings] at hfresh
    rw [hitem]
    refine ⟨h.front.concat (by simp [Segment.HasNoPosition, Segment.index?]) ?_, ?_⟩
    · intro other hother
      obtain rfl : var = other := by simpa [Segment.index?] using hother
      exact hfresh
    · simp [isIterated, leaf?, Segment.index?]

end IsPattern

end Address

end SchemaForms
