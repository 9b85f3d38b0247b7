import SchemaForms.Proofs.Schema.Closed
import SchemaForms.Proofs.Schema.Tables

/-!
Tables that say the same. Names stand for the same types in both, and the types are the same up to
the pairing of a world. What is read into both of them leaves them so, and so do two things that are
read into one table in this order and into the other one in the other order.
-/

namespace SchemaForms

namespace TypeTable

/-- Everything that was there is still there. A name may have got another type. -/
structure Stays (before after : TypeTable) : Prop where
  definitions : before.definitions <+: after.definitions
  named : ∀ name, (before.namedType? name).isSome → (after.namedType? name).isSome

variable {names names' : ExpandedName → Prop} {before middle after : TypeTable}

theorem Stays.trans (hfirst : before.Stays middle) (hsecond : middle.Stays after) :
    before.Stays after :=
  ⟨hfirst.definitions.trans hsecond.definitions,
    fun name h => hsecond.named name (hfirst.named name h)⟩

theorem Grows.stays (h : before.Grows names after) : before.Stays after := by
  refine ⟨h.definitions, fun name hname => ?_⟩
  obtain ⟨id, hid⟩ := Option.isSome_iff_exists.mp hname
  rw [h.kept hid, Option.isSome_some]

theorem Stays.definition (h : before.Stays after) {index : Nat} {definition : TypeDefinition}
    (hbefore : before.definitions[index]? = some definition) :
    after.definitions[index]? = some definition :=
  getElem?_of_prefix h.definitions hbefore

/-- The table with a type under a name, if there is one. -/
def call? (table : TypeTable) (entry : Option (ExpandedName × TypeId)) : TypeTable :=
  { table with named := Keyed.put? entry table.named }

theorem namedType?_call?_of_mem (table : TypeTable) {entry : Option (ExpandedName × TypeId)}
    {called : ExpandedName × TypeId} (h : called ∈ entry) :
    (table.call? entry).namedType? called.1 = some called.2 := by
  obtain rfl := Option.mem_def.mp h
  exact (Keyed.lookup_put ..).trans (if_pos rfl)

theorem namedType?_call?_of_ne (table : TypeTable) {entry : Option (ExpandedName × TypeId)}
    {name : ExpandedName} (h : ∀ called ∈ entry, called.1 ≠ name) :
    (table.call? entry).namedType? name = table.namedType? name := by
  cases entry with
  | none => rfl
  | some called => exact (Keyed.lookup_put ..).trans (if_neg (Ne.symm (h called rfl)))

theorem stays_call? (table : TypeTable) (entry : Option (ExpandedName × TypeId)) :
    table.Stays (table.call? entry) := by
  refine ⟨List.prefix_rfl, fun name hname => ?_⟩
  by_cases hcalled : ∀ called ∈ entry, called.1 ≠ name
  · rwa [namedType?_call?_of_ne table hcalled]
  · push Not at hcalled
    obtain ⟨called, hmem, rfl⟩ := hcalled
    rw [namedType?_call?_of_mem table hmem, Option.isSome_some]

/-- What becomes of a name that nothing is called by, when a table grows twice. -/
theorem namedType?_of_grows_twice {called : Option (ExpandedName × TypeId)} {name : ExpandedName}
    (hfirst : before.Grows names middle) (hsecond : (middle.call? called).Grows names' after)
    (hcalled : ∀ entry ∈ called, entry.1 ≠ name) (hnone : before.namedType? name = none) :
    (names name ∨ names' name → ∃ id, after.namedType? name = some id ∧
      after.definitions[id.index]? = some (.builtin name)) ∧
    (¬ (names name ∨ names' name) → after.namedType? name = none) := by
  have hsame : (middle.call? called).namedType? name = middle.namedType? name :=
    middle.namedType?_call?_of_ne hcalled
  by_cases hname : names name
  · obtain ⟨id, hid, hdefinition⟩ := hfirst.fresh hname hnone
    refine ⟨fun _ => ⟨id, hsecond.kept (hsame.trans hid), ?_⟩, fun h => absurd (.inl hname) h⟩
    exact hsecond.definition ((middle.stays_call? called).definition hdefinition)
  · have hmiddle : (middle.call? called).namedType? name = none :=
      hsame.trans ((hfirst.others hname).trans hnone)
    by_cases hname' : names' name
    · exact ⟨fun _ => hsecond.fresh hname' hmiddle, fun h => absurd (.inr hname') h⟩
    · exact ⟨fun h => absurd (h.resolve_left hname) hname',
        fun _ => (hsecond.others hname').trans hmiddle⟩

end TypeTable

namespace World

/-- One type on both sides: a pair, or the same type of the language. -/
def Same (world : World) (left right : TypeId) : Prop :=
  world.pairs left right ∨ ∃ name, world.left.definitions[left.index]? = some (.builtin name) ∧
    world.right.definitions[right.index]? = some (.builtin name)

/-- The tables of a world say the same. -/
structure Tied (world : World) : Prop where
  sound : world.Sound
  named : ∀ name, Option.Rel world.Same (world.left.namedType? name) (world.right.namedType? name)
  heights : world.left.contentHeights.Perm world.right.contentHeights

variable {world later : World}

/-- The world in tables that have everything that its tables had. -/
def moved (world : World) (left right : TypeTable) : World :=
  { world with left := left, right := right }

section Moved

variable {left right : TypeTable} (hleft : world.left.Stays left) (hright : world.right.Stays right)

include hleft hright

theorem implies_moved : world.matching.Implies (world.moved left right).matching where
  ref := by
    rintro _ _ (⟨hnamed⟩ | ⟨hpair⟩)
    · exact .named fun hbuiltin => (hnamed hbuiltin).imp (hleft.named _) (hright.named _)
    · exact .anonymous hpair
  document _ h := h

theorem Sound.moved (h : world.Sound) : (world.moved left right).Sound where
  one_to_one := h.one_to_one
  defined := by
    intro _ _ hpair
    obtain ⟨definition, definition', hdefinition, hdefinition', hmatches⟩ := h.defined hpair
    exact ⟨definition, definition', hleft.definition hdefinition, hright.definition hdefinition',
      hmatches.mono (implies_moved hleft hright)⟩

theorem Same.moved {type type' : TypeId} (h : world.Same type type') :
    (world.moved left right).Same type type' :=
  h.imp id fun ⟨name, hbuiltin, hbuiltin'⟩ =>
    ⟨name, hleft.definition hbuiltin, hright.definition hbuiltin'⟩

end Moved

/-- The world with other pairs besides its own. -/
def join (world : World) (pairs : TypeId → TypeId → Prop) : World :=
  { world with pairs := fun left right => world.pairs left right ∨ pairs left right }

section Join

variable (world : World) (pairs : TypeId → TypeId → Prop)

theorem implies_join : world.matching.Implies (world.join pairs).matching where
  ref := by
    rintro _ _ (⟨hnamed⟩ | ⟨hpair⟩)
    · exact .named hnamed
    · exact .anonymous (.inl hpair)
  document _ h := h

theorem join_implies :
    ({ world with pairs := pairs } : World).matching.Implies (world.join pairs).matching where
  ref := by
    rintro _ _ (⟨hnamed⟩ | ⟨hpair⟩)
    · exact .named hnamed
    · exact .anonymous (.inr hpair)
  document _ h := h

variable {world pairs}

theorem Same.join {type type' : TypeId} (h : world.Same type type') :
    (world.join pairs).Same type type' :=
  h.imp .inl id

/-- Worlds over the same tables whose pairs have nothing in common. -/
theorem Sound.join (h : world.Sound) (hother : Sound { world with pairs := pairs })
    (hapart : ∀ {left right left' right'}, world.pairs left right → pairs left' right' →
      left ≠ left' ∧ right ≠ right') : (world.join pairs).Sound where
  one_to_one := by
    rintro left right left' right' (hpair | hpair) (hpair' | hpair')
    · exact h.one_to_one hpair hpair'
    · exact iff_of_false (hapart hpair hpair').1 (hapart hpair hpair').2
    · exact iff_of_false (Ne.symm (hapart hpair' hpair).1) (Ne.symm (hapart hpair' hpair).2)
    · exact hother.one_to_one hpair hpair'
  defined := by
    rintro left right (hpair | hpair)
    · obtain ⟨definition, definition', hdefinition, hdefinition', hmatches⟩ := h.defined hpair
      exact ⟨definition, definition', hdefinition, hdefinition',
        hmatches.mono (world.implies_join pairs)⟩
    · obtain ⟨definition, definition', hdefinition, hdefinition', hmatches⟩ := hother.defined hpair
      exact ⟨definition, definition', hdefinition, hdefinition',
        hmatches.mono (world.join_implies pairs)⟩

end Join

/-- The tables of a world before anything was entered into both. -/
def start (left right : TypeTable) (documents : DocumentId → Prop) : World :=
  ⟨left, right, fun _ _ => False, documents⟩

theorem sound_start (left right : TypeTable) (documents : DocumentId → Prop) :
    (start left right documents).Sound :=
  ⟨fun h => h.elim, fun h => h.elim⟩

theorem Extends.apart {left right : TypeTable} {documents : DocumentId → Prop}
    (h : (start left right documents).Extends later) {id id' : TypeId}
    (hpair : later.pairs id id') :
    left.definitions.length ≤ id.index ∧ right.definitions.length ≤ id'.index :=
  (h.fresh hpair).resolve_left fun hnone => hnone

/-- What matched before a reading, and what the reading made, match in the tables after it. -/
theorem Extends.implies_read
    (h : (start world.left world.right world.documents).Extends later) :
    world.matching.Implies ((world.moved later.left later.right).join later.pairs).matching ∧
      later.matching.Implies ((world.moved later.left later.right).join later.pairs).matching := by
  obtain ⟨names, hleft, hright⟩ : ∃ names, world.left.Grows names later.left ∧
      world.right.Grows names later.right := h.grows
  have hdocuments : later.documents = world.documents := h.documents
  refine ⟨(implies_moved hleft.stays hright.stays).trans (implies_join _ _), ?_⟩
  refine .trans ⟨?_, ?_⟩ (join_implies (world.moved later.left later.right) later.pairs)
  · rintro _ _ (⟨hnamed⟩ | ⟨hpair⟩)
    · exact .named hnamed
    · exact .anonymous hpair
  · intro id hid
    show world.documents id
    exact hdocuments ▸ hid

/-- What is read into both tables leaves them so that they say the same. -/
theorem Tied.read (h : world.Tied)
    (hextends : (start world.left world.right world.documents).Extends later)
    (hsound : later.Sound) :
    ((world.moved later.left later.right).join later.pairs).Tied := by
  obtain ⟨names, hleft, hright⟩ : ∃ names, world.left.Grows names later.left ∧
      world.right.Grows names later.right := hextends.grows
  have hmoved : (world.moved later.left later.right).Sound :=
    h.sound.moved hleft.stays hright.stays
  have hlater : Sound { world.moved later.left later.right with pairs := later.pairs } := by
    have hdocuments : later.documents = world.documents := hextends.documents
    show (World.mk later.left later.right later.pairs world.documents).Sound
    rw [← hdocuments]
    exact hsound
  constructor
  · refine hmoved.join hlater fun {left right left' right'} hpair hpair' => ?_
    have hlt : left.index < world.left.definitions.length ∧
        right.index < world.right.definitions.length := h.sound.lt hpair
    have hle := hextends.apart hpair'
    constructor
    · rintro rfl
      omega
    · rintro rfl
      omega
  · intro name
    have hnamed := h.named name
    show Option.Rel _ (later.left.namedType? name) (later.right.namedType? name)
    rcases hbefore : world.left.namedType? name with _ | id <;>
      rcases hbefore' : world.right.namedType? name with _ | id' <;>
        rw [hbefore, hbefore'] at hnamed <;> cases hnamed
    · by_cases hname : names name
      · obtain ⟨id, hid, hbuiltin⟩ := hleft.fresh hname hbefore
        obtain ⟨id', hid', hbuiltin'⟩ := hright.fresh hname hbefore'
        rw [hid, hid']
        exact .some (.inr ⟨name, hbuiltin, hbuiltin'⟩)
      · rw [hleft.others hname, hright.others hname]
        show Option.Rel _ (world.left.namedType? name) (world.right.namedType? name)
        rw [hbefore, hbefore']
        exact .none
    · rename_i hsame
      rw [hleft.kept hbefore, hright.kept hbefore']
      exact .some (hsame.moved hleft.stays hright.stays).join
  · obtain ⟨added, hadded, hadded'⟩ := hextends.heights
    show later.left.contentHeights.Perm later.right.contentHeights
    rw [hadded, hadded']
    exact h.heights.append_right added

/-- A name that types of a pair are called by. -/
theorem Tied.call? (h : world.Tied) {called called' : Option (ExpandedName × TypeId)}
    (hcalled : Option.Rel (Keyed.Entry world.pairs) called called') :
    (world.moved (world.left.call? called) (world.right.call? called')).Tied := by
  refine ⟨h.sound.moved (TypeTable.stays_call? ..) (TypeTable.stays_call? ..), fun name => ?_,
    h.heights⟩
  show Option.Rel _ ((world.left.call? called).namedType? name)
    ((world.right.call? called').namedType? name)
  cases hcalled with
  | none => exact h.named name
  | @some entry entry' hentry =>
    obtain ⟨hname, hpair⟩ := hentry
    by_cases hcalled : entry.1 = name
    · obtain rfl := hcalled
      rw [TypeTable.namedType?_call?_of_mem _ rfl, hname, TypeTable.namedType?_call?_of_mem _ rfl]
      exact .some (.inl hpair)
    · rw [TypeTable.namedType?_call?_of_ne, TypeTable.namedType?_call?_of_ne]
      · exact h.named name
      · rintro _ ⟨⟩
        rwa [← hname]
      · rintro _ ⟨⟩
        exact hcalled

/-- A table beside itself. -/
def diagonal (table : TypeTable) (documents : DocumentId → Prop) : World where
  left := table
  right := table
  pairs left right := left = right ∧ left.index < table.definitions.length
  documents := documents

/-- Two things are read, in this order on the left and in the other order on the right. The first
one is read into the table itself and, on the right, after the second one; the second one is read on
the left after the first one. What they may be called is not the same name. -/
structure Swaps (table : TypeTable) (documents : DocumentId → Prop) (first second : World)
    (called called' others others' : Option (ExpandedName × TypeId)) : Prop where
  self : (diagonal table documents).Sound
  range : ∀ name id, table.namedType? name = some id → id.index < table.definitions.length
  extends_first : (start table (second.right.call? others') documents).Extends first
  extends_second : (start (first.left.call? called) table documents).Extends second
  sound_first : first.Sound
  sound_second : second.Sound
  pair_first : Option.Rel (Keyed.Entry first.pairs) called called'
  pair_second : Option.Rel (Keyed.Entry second.pairs) others others'
  distinct : ∀ entry ∈ called, ∀ other ∈ others, entry.1 ≠ other.1

/-- The tables after both, and all pairs there are. -/
def swapped (table : TypeTable) (documents : DocumentId → Prop) (first second : World)
    (called' others : Option (ExpandedName × TypeId)) : World :=
  (((diagonal table documents).moved (second.left.call? others)
    (first.right.call? called')).join first.pairs).join second.pairs

namespace Swaps

variable {table : TypeTable} {documents : DocumentId → Prop} {first second : World}
  {called called' others others' : Option (ExpandedName × TypeId)}
  (h : Swaps table documents first second called called' others others')

include h

theorem grows_first : ∃ names, table.Grows names first.left ∧
    (second.right.call? others').Grows names first.right :=
  h.extends_first.grows

theorem grows_second : ∃ names, (first.left.call? called).Grows names second.left ∧
    table.Grows names second.right :=
  h.extends_second.grows

theorem stays_first : first.left.Stays (second.left.call? others) ∧
    first.right.Stays (first.right.call? called') := by
  obtain ⟨names, hleft, -⟩ := h.grows_second
  exact ⟨((TypeTable.stays_call? ..).trans hleft.stays).trans (TypeTable.stays_call? ..),
    TypeTable.stays_call? ..⟩

theorem stays_second : second.left.Stays (second.left.call? others) ∧
    second.right.Stays (first.right.call? called') := by
  obtain ⟨names, -, hright⟩ := h.grows_first
  exact ⟨TypeTable.stays_call? ..,
    ((TypeTable.stays_call? ..).trans hright.stays).trans (TypeTable.stays_call? ..)⟩

theorem stays_table : table.Stays (second.left.call? others) ∧
    table.Stays (first.right.call? called') := by
  obtain ⟨names, hleft, -⟩ := h.grows_first
  obtain ⟨names', -, hright⟩ := h.grows_second
  exact ⟨hleft.stays.trans h.stays_first.1, hright.stays.trans h.stays_second.2⟩

/-- What matched at any of the readings matches in the tables after both. -/
theorem implies :
    (diagonal table documents).matching.Implies
      (swapped table documents first second called' others).matching ∧
    first.matching.Implies (swapped table documents first second called' others).matching ∧
    second.matching.Implies (swapped table documents first second called' others).matching := by
  have hdocuments : first.documents = documents := h.extends_first.documents
  have hdocuments' : second.documents = documents := h.extends_second.documents
  refine ⟨?_, ⟨?_, fun id hid => ?_⟩, ⟨?_, fun id hid => ?_⟩⟩
  · exact ((implies_moved h.stays_table.1 h.stays_table.2).trans (implies_join _ _)).trans
      (implies_join _ _)
  · rintro _ _ (⟨hnamed⟩ | ⟨hpair⟩)
    · exact .named fun hbuiltin =>
        (hnamed hbuiltin).imp (h.stays_first.1.named _) (h.stays_first.2.named _)
    · exact .anonymous (.inl (.inr hpair))
  · show documents id
    exact hdocuments ▸ hid
  · rintro _ _ (⟨hnamed⟩ | ⟨hpair⟩)
    · exact .named fun hbuiltin =>
        (hnamed hbuiltin).imp (h.stays_second.1.named _) (h.stays_second.2.named _)
    · exact .anonymous (.inr hpair)
  · show documents id
    exact hdocuments' ▸ hid

theorem sound : (swapped table documents first second called' others).Sound := by
  have hdocuments : first.documents = documents := h.extends_first.documents
  have hdocuments' : second.documents = documents := h.extends_second.documents
  have hself := h.self.moved h.stays_table.1 h.stays_table.2
  have hfirst : (World.mk (second.left.call? others) (first.right.call? called') first.pairs
      documents).Sound :=
    hdocuments ▸ h.sound_first.moved h.stays_first.1 h.stays_first.2
  have hsecond : (World.mk (second.left.call? others) (first.right.call? called') second.pairs
      documents).Sound :=
    hdocuments' ▸ h.sound_second.moved h.stays_second.1 h.stays_second.2
  -- The pairs are of places in the table, of places after it, and of places still further on.
  have htable : table.definitions.length ≤ second.right.definitions.length ∧
      table.definitions.length ≤ first.left.definitions.length := by
    obtain ⟨names, hleft, -⟩ := h.grows_first
    obtain ⟨names', -, hright⟩ := h.grows_second
    exact ⟨hright.definitions.length_le, hleft.definitions.length_le⟩
  have hplaces : ∀ {left right}, first.pairs left right →
      table.definitions.length ≤ left.index ∧ left.index < first.left.definitions.length ∧
        second.right.definitions.length ≤ right.index := fun hpair =>
    ⟨(h.extends_first.apart hpair).1, (h.sound_first.lt hpair).1, (h.extends_first.apart hpair).2⟩
  have hplaces' : ∀ {left right}, second.pairs left right →
      first.left.definitions.length ≤ left.index ∧ table.definitions.length ≤ right.index ∧
        right.index < second.right.definitions.length := fun hpair =>
    ⟨(h.extends_second.apart hpair).1, (h.extends_second.apart hpair).2,
      (h.sound_second.lt hpair).2⟩
  refine Sound.join (hself.join hfirst ?_) hsecond ?_
  · rintro left _ left' right' ⟨rfl, hlt⟩ hpair
    have hplace := hplaces hpair
    have hlt : left.index < table.definitions.length := hlt
    constructor <;> rintro rfl <;> omega
  · rintro left right left' right' (⟨rfl, hlt⟩ | hpair) hpair'
    · have hplace := hplaces' hpair'
      have hlt : left.index < table.definitions.length := hlt
      constructor <;> rintro rfl <;> omega
    · have hplace := hplaces hpair
      have hplace' := hplaces' hpair'
      constructor <;> rintro rfl <;> omega

/-- A name that the first reading gives is given in both orders, to types that match. -/
theorem named_of_called {entry : ExpandedName × TypeId} (hentry : entry ∈ called) :
    Option.Rel (swapped table documents first second called' others).Same
      ((second.left.call? others).namedType? entry.1)
      ((first.right.call? called').namedType? entry.1) := by
  obtain ⟨names, hleft, -⟩ := h.grows_second
  obtain ⟨entry', hentry', hname, hpair⟩ := Keyed.Entry.exists_mem h.pair_first hentry
  have hid : second.left.namedType? entry.1 = some entry.2 :=
    hleft.kept (TypeTable.namedType?_call?_of_mem _ hentry)
  have hothers : ∀ other ∈ others, other.1 ≠ entry.1 := fun other hother =>
    Ne.symm (h.distinct entry hentry other hother)
  rw [TypeTable.namedType?_call?_of_ne _ hothers, hid, hname,
    TypeTable.namedType?_call?_of_mem _ hentry']
  exact .some (.inl (.inl (.inr hpair)))

/-- So is a name that the second reading gives. -/
theorem named_of_others {entry : ExpandedName × TypeId} (hentry : entry ∈ others) :
    Option.Rel (swapped table documents first second called' others).Same
      ((second.left.call? others).namedType? entry.1)
      ((first.right.call? called').namedType? entry.1) := by
  obtain ⟨names, -, hright⟩ := h.grows_first
  obtain ⟨entry', hentry', hname, hpair⟩ := Keyed.Entry.exists_mem h.pair_second hentry
  have hid' : first.right.namedType? entry.1 = some entry'.2 := by
    apply hright.kept
    rw [hname, TypeTable.namedType?_call?_of_mem _ hentry']
  have hcalled : ∀ other ∈ called, other.1 ≠ entry.1 := fun other hother =>
    h.distinct other hother entry hentry
  have hcalled' := Keyed.Entry.forall_ne h.pair_first hcalled
  rw [TypeTable.namedType?_call?_of_mem _ hentry, TypeTable.namedType?_call?_of_ne _ hcalled', hid']
  exact .some (.inl (.inr hpair))

/-- A name that neither reading gives is the name of what the table or both readings made of it. -/
theorem named_of_uncalled {name : ExpandedName} (hcalled : ∀ entry ∈ called, entry.1 ≠ name)
    (hothers : ∀ entry ∈ others, entry.1 ≠ name) :
    Option.Rel (swapped table documents first second called' others).Same
      ((second.left.call? others).namedType? name)
      ((first.right.call? called').namedType? name) := by
  obtain ⟨names, hleft, hright⟩ := h.grows_first
  obtain ⟨names', hleft', hright'⟩ := h.grows_second
  have hcalled' := Keyed.Entry.forall_ne h.pair_first hcalled
  have hothers' := Keyed.Entry.forall_ne h.pair_second hothers
  rw [TypeTable.namedType?_call?_of_ne _ hothers, TypeTable.namedType?_call?_of_ne _ hcalled']
  cases htable : table.namedType? name with
  | some id =>
    have hid : second.left.namedType? name = some id := by
      apply hleft'.kept
      rw [TypeTable.namedType?_call?_of_ne _ hcalled]
      exact hleft.kept htable
    have hid' : first.right.namedType? name = some id := by
      apply hright.kept
      rw [TypeTable.namedType?_call?_of_ne _ hothers']
      exact hright'.kept htable
    rw [hid, hid']
    exact .some (.inl (.inl (.inl ⟨rfl, h.range name id htable⟩)))
  | none =>
    obtain ⟨hnew, hold⟩ := TypeTable.namedType?_of_grows_twice hleft hleft' hcalled htable
    obtain ⟨hnew', hold'⟩ := TypeTable.namedType?_of_grows_twice hright' hright hothers' htable
    by_cases hname : names name ∨ names' name
    · obtain ⟨id, hid, hbuiltin⟩ := hnew hname
      obtain ⟨id', hid', hbuiltin'⟩ := hnew' hname.symm
      rw [hid, hid']
      exact .some (.inr ⟨name, hbuiltin, hbuiltin'⟩)
    · rw [hold hname, hold' fun hname' => hname hname'.symm]
      exact .none

theorem named (name : ExpandedName) :
    Option.Rel (swapped table documents first second called' others).Same
      ((second.left.call? others).namedType? name)
      ((first.right.call? called').namedType? name) := by
  by_cases hcalled : ∃ entry ∈ called, entry.1 = name
  · obtain ⟨entry, hentry, rfl⟩ := hcalled
    exact h.named_of_called hentry
  · by_cases hothers : ∃ entry ∈ others, entry.1 = name
    · obtain ⟨entry, hentry, rfl⟩ := hothers
      exact h.named_of_others hentry
    · push Not at hcalled hothers
      exact h.named_of_uncalled hcalled hothers

theorem heights : second.left.contentHeights.Perm first.right.contentHeights := by
  obtain ⟨added, hadded, hadded'⟩ : ∃ added,
      first.left.contentHeights = table.contentHeights ++ added ∧
      first.right.contentHeights = second.right.contentHeights ++ added := h.extends_first.heights
  obtain ⟨more, hmore, hmore'⟩ : ∃ more,
      second.left.contentHeights = first.left.contentHeights ++ more ∧
      second.right.contentHeights = table.contentHeights ++ more := h.extends_second.heights
  rw [hmore, hadded, hadded', hmore', List.append_assoc, List.append_assoc]
  exact List.perm_append_comm.append_left _

theorem tied : (swapped table documents first second called' others).Tied :=
  ⟨h.sound, h.named, h.heights⟩

end Swaps

end World

end SchemaForms
