import SchemaForms.Proofs.Schema.Matching
import Mathlib.Tactic.Common

/-!
Reading one thing into two tables. Both readings enter the same types in the same order; the types
of the language are entered where they are not known yet, so a type may come to stand in different
places. A world pairs the places of what was entered on both sides. Pairs are one to one, what
stands in paired places matches, and a step adds pairs of new places only.
-/

namespace SchemaForms

/-- Two tables, the types that were entered into both, and the documents components may stand in. -/
structure World where
  left : TypeTable
  right : TypeTable
  pairs : TypeId → TypeId → Prop
  documents : DocumentId → Prop

namespace TypeTable

/-- The table only grew, and what is new under a name is one of these types of the language. -/
structure Grows (names : ExpandedName → Prop) (before after : TypeTable) : Prop where
  definitions : before.definitions <+: after.definitions
  kept : ∀ {name id}, before.namedType? name = some id → after.namedType? name = some id
  others : ∀ {name}, ¬ names name → after.namedType? name = before.namedType? name
  fresh : ∀ {name}, names name → before.namedType? name = none →
    ∃ id, after.namedType? name = some id ∧ after.definitions[id.index]? = some (.builtin name)

variable {names names' : ExpandedName → Prop} {before middle after : TypeTable}

theorem Grows.refl (names : ExpandedName → Prop) (hnames : ∀ name, ¬ names name)
    (table : TypeTable) : table.Grows names table :=
  ⟨List.prefix_rfl, fun h => h, fun _ => rfl, fun h => absurd h (hnames _)⟩

theorem Grows.definition (h : before.Grows names after) {index : Nat}
    {definition : TypeDefinition} (hbefore : before.definitions[index]? = some definition) :
    after.definitions[index]? = some definition := by
  obtain ⟨hlt, rfl⟩ := List.getElem?_eq_some_iff.mp hbefore
  exact List.prefix_iff_getElem?.mp h.definitions index hlt

theorem Grows.trans (hfirst : before.Grows names middle) (hsecond : middle.Grows names' after) :
    before.Grows (fun name => names name ∨ names' name) after where
  definitions := hfirst.definitions.trans hsecond.definitions
  kept h := hsecond.kept (hfirst.kept h)
  others h := by
    rw [not_or] at h
    rw [hsecond.others h.2, hfirst.others h.1]
  fresh := by
    intro name hname hnone
    by_cases hold : names name
    · obtain ⟨id, hid, hdefinition⟩ := hfirst.fresh hold hnone
      exact ⟨id, hsecond.kept hid, hsecond.definition hdefinition⟩
    · have hmiddle : middle.namedType? name = none := (hfirst.others hold).trans hnone
      exact hsecond.fresh (hname.resolve_left hold) hmiddle

/-- Either the type of a name was there before, or it is one of the language. -/
theorem Grows.namedType?_cases (h : before.Grows names after) {name : ExpandedName} {id : TypeId}
    (hafter : after.namedType? name = some id) : before.namedType? name = some id ∨
      before.namedType? name = none ∧ after.definitions[id.index]? = some (.builtin name) := by
  cases hbefore : before.namedType? name with
  | some held =>
    left
    rw [← hafter, h.kept hbefore]
  | none =>
    right
    by_cases hname : names name
    · obtain ⟨found, hfound, hdefinition⟩ := h.fresh hname hbefore
      obtain rfl := Option.some.inj (hfound.symm.trans hafter)
      exact ⟨rfl, hdefinition⟩
    · rw [h.others hname, hbefore] at hafter
      cases hafter

theorem grows_intern (table : TypeTable) (name : ExpandedName) :
    table.Grows (· = name) (table.intern name) := by
  unfold intern
  split
  · rename_i id hid
    refine ⟨List.prefix_rfl, fun h => h, fun _ => rfl, ?_⟩
    rintro _ rfl hnone
    rw [hid] at hnone
    cases hnone
  · rename_i hunknown
    have hlookup : ∀ other, (Keyed.put name ⟨table.definitions.length⟩ table.named).lookup other =
        if other = name then some ⟨table.definitions.length⟩ else table.namedType? other :=
      fun other => Keyed.lookup_put ..
    refine ⟨List.prefix_append _ _, ?_, ?_, ?_⟩
    · intro other id hother
      have hne : other ≠ name := by
        rintro rfl
        rw [hunknown] at hother
        cases hother
      exact (hlookup other).trans (by rw [if_neg hne, hother])
    · exact fun {other} hne => (hlookup other).trans (if_neg hne)
    · intro other hname _
      refine ⟨⟨table.definitions.length⟩, (hlookup other).trans (if_pos hname), ?_⟩
      simp [push, hname]

theorem namedType?_intern (table : TypeTable) (name : ExpandedName) :
    ((table.intern name).namedType? name).isSome := by
  cases h : table.namedType? name with
  | some id => rw [(table.grows_intern name).kept h, Option.isSome_some]
  | none =>
    obtain ⟨id, hid, -⟩ := (table.grows_intern name).fresh rfl h
    rw [hid, Option.isSome_some]

theorem contentHeights_intern (table : TypeTable) (name : ExpandedName) :
    (table.intern name).contentHeights = table.contentHeights := by
  unfold intern
  split
  · rfl
  · simp [contentHeights, push, TypeDefinition.complex?]

/-- What is new after a name was entered is a type of the language. -/
theorem builtin_of_intern {table : TypeTable} {name : ExpandedName} {index : Nat}
    {definition : TypeDefinition} (hnew : table.definitions.length ≤ index)
    (h : (table.intern name).definitions[index]? = some definition) :
    definition = .builtin name := by
  unfold intern at h
  split at h
  · exact absurd (List.getElem?_eq_some_iff.mp h).1 (Nat.not_lt.mpr hnew)
  · simp only [push, List.getElem?_append_right hnew] at h
    exact (List.mem_singleton.mp (List.mem_of_getElem? h))

theorem grows_push (table : TypeTable) (definition : TypeDefinition) :
    table.Grows (fun _ => False) (table.push definition).1 :=
  ⟨List.prefix_append _ _, fun h => h, fun _ => rfl, fun h => h.elim⟩

end TypeTable

namespace World

/-- References that mean the same in both tables. -/
inductive Refer (world : World) : TypeRef → TypeRef → Prop
  | named {name : ExpandedName} (h : name.isBuiltin →
      (world.left.namedType? name).isSome ∧ (world.right.namedType? name).isSome) :
    Refer world (.named name) (.named name)
  | anonymous {left right : TypeId} (h : world.pairs left right) :
    Refer world (.anonymous left) (.anonymous right)

def matching (world : World) : Matching := ⟨world.Refer, world.documents⟩

structure Sound (world : World) : Prop where
  one_to_one : ∀ {left right left' right'}, world.pairs left right → world.pairs left' right' →
    (left = left' ↔ right = right')
  defined : ∀ {left right}, world.pairs left right → ∃ definition definition',
    world.left.definitions[left.index]? = some definition ∧
    world.right.definitions[right.index]? = some definition' ∧
      definition.Matches world.matching definition'

/-- The tables have grown together. What is new on the left is in a pair or of the language, and
other names than those of the language stand for what they stood for. -/
structure Extends (world later : World) : Prop where
  grows : ∃ names, world.left.Grows names later.left ∧ world.right.Grows names later.right
  names : ∀ name, name.isBuiltin = false →
    later.left.namedType? name = world.left.namedType? name
  documents : later.documents = world.documents
  pairs : ∀ {left right}, world.pairs left right → later.pairs left right
  fresh : ∀ {left right}, later.pairs left right → world.pairs left right ∨
    world.left.definitions.length ≤ left.index ∧ world.right.definitions.length ≤ right.index
  covered : ∀ {index definition}, world.left.definitions.length ≤ index →
    later.left.definitions[index]? = some definition →
      (∃ name, definition = .builtin name) ∨ ∃ other, later.pairs ⟨index⟩ other
  heights : ∃ added, later.left.contentHeights = world.left.contentHeights ++ added ∧
    later.right.contentHeights = world.right.contentHeights ++ added

variable {world middle later : World}

theorem Extends.refl (world : World) : world.Extends world where
  grows := ⟨fun _ => False, .refl _ (fun _ h => h) _, .refl _ (fun _ h => h) _⟩
  names _ _ := rfl
  documents := rfl
  pairs h := h
  fresh h := .inl h
  covered hnew h := absurd (List.getElem?_eq_some_iff.mp h).1 (Nat.not_lt.mpr hnew)
  heights := ⟨[], by simp, by simp⟩

theorem Extends.trans (hfirst : world.Extends middle) (hsecond : middle.Extends later) :
    world.Extends later := by
  obtain ⟨names, hleft, hright⟩ := hfirst.grows
  obtain ⟨names', hleft', hright'⟩ := hsecond.grows
  constructor
  · exact ⟨_, hleft.trans hleft', hright.trans hright'⟩
  · exact fun name hname => (hsecond.names name hname).trans (hfirst.names name hname)
  · rw [hsecond.documents, hfirst.documents]
  · exact fun h => hsecond.pairs (hfirst.pairs h)
  · intro left right h
    rcases hsecond.fresh h with hold | ⟨hle, hle'⟩
    · exact hfirst.fresh hold
    · exact .inr ⟨Nat.le_trans hleft.definitions.length_le hle,
        Nat.le_trans hright.definitions.length_le hle'⟩
  · intro index definition hnew h
    by_cases hmiddle : middle.left.definitions.length ≤ index
    · exact hsecond.covered hmiddle h
    · have hlt : index < middle.left.definitions.length := Nat.lt_of_not_le hmiddle
      have hheld := hleft'.definition (List.getElem?_eq_getElem hlt)
      obtain rfl := Option.some.inj (h.symm.trans hheld)
      exact (hfirst.covered hnew (List.getElem?_eq_getElem hlt)).imp id
        fun ⟨other, hother⟩ => ⟨other, hsecond.pairs hother⟩
  · obtain ⟨added, hadded, hadded'⟩ := hfirst.heights
    obtain ⟨more, hmore, hmore'⟩ := hsecond.heights
    exact ⟨added ++ more, by rw [hmore, hadded, List.append_assoc],
      by rw [hmore', hadded', List.append_assoc]⟩

theorem Extends.implies (h : world.Extends later) : world.matching.Implies later.matching where
  ref := by
    rintro _ _ (⟨hnamed⟩ | ⟨hpair⟩)
    · obtain ⟨names, hleft, hright⟩ := h.grows
      refine .named fun hbuiltin => ?_
      obtain ⟨⟨left, hid⟩, right, hid'⟩ :=
        (hnamed hbuiltin).imp Option.isSome_iff_exists.mp Option.isSome_iff_exists.mp
      exact ⟨by rw [hleft.kept hid, Option.isSome_some],
        by rw [hright.kept hid', Option.isSome_some]⟩
    · exact .anonymous (h.pairs hpair)
  document := by
    intro id hid
    show later.documents id
    rw [h.documents]
    exact hid

theorem Sound.lt (h : world.Sound) {left right : TypeId} (hpair : world.pairs left right) :
    left.index < world.left.definitions.length ∧ right.index < world.right.definitions.length := by
  obtain ⟨definition, definition', hleft, hright, -⟩ := h.defined hpair
  exact ⟨(List.getElem?_eq_some_iff.mp hleft).1, (List.getElem?_eq_some_iff.mp hright).1⟩

/-- The world in which a name was entered into both tables. -/
def intern (world : World) (name : ExpandedName) : World :=
  { world with left := world.left.intern name, right := world.right.intern name }

theorem extends_intern (world : World) {name : ExpandedName} (hbuiltin : name.isBuiltin = true) :
    world.Extends (world.intern name) where
  grows := ⟨_, world.left.grows_intern name, world.right.grows_intern name⟩
  names other hother := by
    refine (world.left.grows_intern name).others ?_
    rintro rfl
    rw [hbuiltin] at hother
    cases hother
  documents := rfl
  pairs h := h
  fresh h := .inl h
  covered hnew h := .inl ⟨name, TypeTable.builtin_of_intern hnew h⟩
  heights := ⟨[], by simp [intern, TypeTable.contentHeights_intern]⟩

theorem Sound.intern (h : world.Sound) {name : ExpandedName} (hbuiltin : name.isBuiltin = true) :
    (world.intern name).Sound where
  one_to_one := h.one_to_one
  defined := by
    intro left right hpair
    obtain ⟨definition, definition', hleft, hright, hmatches⟩ := h.defined hpair
    exact ⟨definition, definition', (world.left.grows_intern name).definition hleft,
      (world.right.grows_intern name).definition hright,
      hmatches.mono (world.extends_intern hbuiltin).implies⟩

/-- The world in which two definitions were entered and make a pair. -/
def push (world : World) (definition definition' : TypeDefinition) : World where
  left := (world.left.push definition).1
  right := (world.right.push definition').1
  pairs left right := world.pairs left right ∨
    left = (world.left.push definition).2 ∧ right = (world.right.push definition').2
  documents := world.documents

variable {definition definition' : TypeDefinition}

theorem extends_push (hmatches : definition.Matches world.matching definition') :
    world.Extends (world.push definition definition') where
  grows := ⟨_, world.left.grows_push definition, world.right.grows_push definition'⟩
  names _ _ := rfl
  documents := rfl
  pairs h := .inl h
  fresh := by
    rintro left right (hold | ⟨rfl, rfl⟩)
    · exact .inl hold
    · exact .inr ⟨Nat.le_refl _, Nat.le_refl _⟩
  covered := by
    intro index found hnew h
    have hlt := (List.getElem?_eq_some_iff.mp h).1
    simp only [push, TypeTable.push, List.length_append, List.length_singleton] at hlt
    obtain rfl : index = world.left.definitions.length := by omega
    exact .inr ⟨_, .inr ⟨rfl, rfl⟩⟩
  heights := by
    cases hmatches with
    | builtin => exact ⟨[], by simp [push, TypeTable.push, TypeTable.contentHeights,
        TypeDefinition.complex?]⟩
    | simple => exact ⟨[], by simp [push, TypeTable.push, TypeTable.contentHeights,
        TypeDefinition.complex?]⟩
    | @complex _ _ _ _ content _ _ h =>
      exact ⟨[Construct.heights content], by simp [push, TypeTable.push, TypeTable.contentHeights,
        TypeDefinition.complex?, Construct.heights_eq_of_allMatch h]⟩

theorem Sound.push (h : world.Sound) (hmatches : definition.Matches world.matching definition') :
    (world.push definition definition').Sound where
  one_to_one := by
    -- an old identifier is never the one that a table hands out
    have hleft : ∀ {left right}, world.pairs left right →
        left ≠ (world.left.push definition).2 := by
      rintro _ right hpair rfl
      exact Nat.lt_irrefl _ (h.lt hpair).1
    have hright : ∀ {left right}, world.pairs left right →
        right ≠ (world.right.push definition').2 := by
      rintro left _ hpair rfl
      exact Nat.lt_irrefl _ (h.lt hpair).2
    rintro left right left' right' (hold | ⟨rfl, rfl⟩) (hold' | ⟨rfl, rfl⟩)
    · exact h.one_to_one hold hold'
    · exact iff_of_false (hleft hold) (hright hold)
    · exact iff_of_false (Ne.symm (hleft hold')) (Ne.symm (hright hold'))
    · exact iff_of_true rfl rfl
  defined := by
    have himplies := (extends_push hmatches).implies
    rintro left right (hold | ⟨rfl, rfl⟩)
    · obtain ⟨found, found', hfound, hfound', hmatch⟩ := h.defined hold
      exact ⟨found, found', (world.left.grows_push definition).definition hfound,
        (world.right.grows_push definition').definition hfound', hmatch.mono himplies⟩
    · exact ⟨definition, definition', by simp [World.push, TypeTable.push],
        by simp [World.push, TypeTable.push], hmatches.mono himplies⟩

end World

section Steps

variable {α β : Type}

/-- Both fail with the same error, or what they answer is related. -/
inductive Agree (R : α → α → Prop) : Except SchemaError α → Except SchemaError α → Prop
  | ok {left right : α} (h : R left right) : Agree R (.ok left) (.ok right)
  | error (error : SchemaError) : Agree R (.error error) (.error error)

/-- Readings that, in a sound world, lead to a later one, answer alike and fail alike. -/
def Lockstep (R : Matching → α → α → Prop) (world : World) (left right : Reading α) : Prop :=
  world.Sound → ∃ later, world.Extends later ∧ later.Sound ∧
    (left.run.run world.left).2 = later.left ∧ (right.run.run world.right).2 = later.right ∧
      Agree (R later.matching) (left.run.run world.left).1 (right.run.run world.right).1

variable {R : Matching → α → α → Prop} {Q : Matching → β → β → Prop} {world : World}

theorem Lockstep.pure {left right : α} (h : R world.matching left right) :
    Lockstep R world (Pure.pure left) (Pure.pure right) :=
  fun hsound => ⟨world, .refl world, hsound, rfl, rfl, .ok h⟩

theorem Lockstep.throw {error : SchemaError} :
    Lockstep R world (MonadExcept.throw error) (MonadExcept.throw error) :=
  fun hsound => ⟨world, .refl world, hsound, rfl, rfl, .error error⟩

theorem Lockstep.bind {left right : Reading α} {next next' : α → Reading β}
    (hstep : Lockstep R world left right)
    (hnext : ∀ later a b, world.Extends later → R later.matching a b →
      Lockstep Q later (next a) (next' b)) :
    Lockstep Q world (left >>= next) (right >>= next') := by
  intro hsound
  obtain ⟨middle, hextends, hmiddle, hleft, hright, hagree⟩ := hstep hsound
  rw [ExceptT.run_bind, StateT.run_bind, ExceptT.run_bind, StateT.run_bind]
  rcases hrun : left.run.run world.left with ⟨result, reached⟩
  rcases hrun' : right.run.run world.right with ⟨result', reached'⟩
  rw [hrun] at hleft hagree
  rw [hrun'] at hright hagree
  obtain rfl : reached = middle.left := hleft
  obtain rfl : reached' = middle.right := hright
  cases hagree with
  | error error => exact ⟨middle, hextends, hmiddle, rfl, rfl, .error error⟩
  | ok h =>
    obtain ⟨later, hlater, hfinal⟩ := hnext middle _ _ hextends h hmiddle
    exact ⟨later, hextends.trans hlater, hfinal⟩

/-- A step that does not touch the tables is the same on both sides. -/
theorem Lockstep.after {result : Except SchemaError α} {next next' : α → Reading β}
    (h : ∀ a, Lockstep Q world (next a) (next' a)) :
    Lockstep Q world (liftM result >>= next) (liftM result >>= next') := by
  cases result with
  | error error => exact .throw
  | ok a => exact h a

end Steps

namespace Reading

variable {world : World}

theorem lockstep_namedType (name : ExpandedName) :
    Lockstep Matching.ref world (namedType name) (namedType name) := by
  unfold namedType
  split
  · rename_i hbuiltin
    intro hsound
    refine ⟨world.intern name, world.extends_intern hbuiltin, hsound.intern hbuiltin, rfl, rfl,
      .ok ?_⟩
    exact .named fun _ => ⟨world.left.namedType?_intern name, world.right.namedType?_intern name⟩
  · rename_i hbuiltin
    exact .pure (.named fun h => absurd h hbuiltin)

theorem lockstep_enterType {definition definition' : TypeDefinition}
    (h : definition.Matches world.matching definition') :
    Lockstep (fun matching left right => matching.ref (.anonymous left) (.anonymous right)) world
      (enterType definition) (enterType definition') :=
  fun hsound => ⟨world.push definition definition', World.extends_push h, hsound.push h, rfl, rfl,
    .ok (.anonymous (.inr ⟨rfl, rfl⟩))⟩

theorem lockstep_anonymousType {definition definition' : TypeDefinition}
    (h : definition.Matches world.matching definition') :
    Lockstep Matching.ref world (anonymousType definition) (anonymousType definition') :=
  .bind (lockstep_enterType h) fun _ _ _ _ href => .pure href

end Reading

end SchemaForms
