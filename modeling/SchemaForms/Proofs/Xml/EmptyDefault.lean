import SchemaForms.Xml.Document
import Mathlib.Data.List.Forall2
import Mathlib.Data.Option.Basic
import Mathlib.Tactic.Common

/-!
Declaring the empty default namespace. In the terms of XML it is no namespace, but the reader lists
it like any other one. So when the first tag of a document declares it, the document is read as
before, and each name without prefix that was in no namespace is in the empty one now, unless a tag
further inside declares a default of its own. What an entity opens after it has closed the document
element is not below that tag and stays as it was.
-/

namespace SchemaForms

/-- The name in another namespace if it is in none. -/
def ExpandedName.orIn (fallback : Option String) (name : ExpandedName) : ExpandedName :=
  ⟨name.namespaceName.or fallback, name.localName⟩

/-- The name in the empty namespace if it is in none. -/
abbrev ExpandedName.emptied (name : ExpandedName) : ExpandedName := name.orIn (some "")

namespace Xml

section Rel

variable {α β γ δ : Type} {R : α → β → Prop} {S : γ → δ → Prop}

theorem rel_bind {left : Option α} {right : Option β} {next : α → Option γ} {next' : β → Option δ}
    (h : Option.Rel R left right) (hnext : ∀ a b, R a b → Option.Rel S (next a) (next' b)) :
    Option.Rel S (left >>= next) (right >>= next') := by
  cases h with
  | some hrelated => exact hnext _ _ hrelated
  | none => exact .none

/-- Two computations with the same first part. -/
theorem rel_bind_self {first : Option α} {next : α → Option γ} {next' : α → Option δ}
    (h : ∀ a, Option.Rel S (next a) (next' a)) :
    Option.Rel S (first >>= next) (first >>= next') := by
  cases first with
  | some a => exact h a
  | none => exact .none

end Rel

/-- The bindings of a scope that are made for a prefix. -/
def prefixedOnly (scope : List NamespaceBinding) : List NamespaceBinding :=
  scope.filter (·.qualifier.isSome)

/-- Scopes that differ in the default namespace, where the first one has none. -/
structure ScopeAlike (fallback : Option String) (scope scope' : List NamespaceBinding) : Prop where
  listed : prefixedOnly scope' = prefixedOnly scope
  default : lookupScope scope' none = (lookupScope scope none).or fallback

/-- Trees that differ in the default namespace, where the first one has none. -/
inductive Element.Alike (fallback : Option String) : Element → Element → Prop
  | mk {name attributes scope scope' text children children'}
      (hscope : ScopeAlike fallback scope scope')
      (hchildren : List.Forall₂ (Element.Alike fallback) children children') :
    Alike fallback ⟨name, attributes, scope, text, children⟩
      ⟨name.orIn fallback, attributes, scope', text, children'⟩

structure OpenElement.Alike (fallback : Option String) (left right : OpenElement) : Prop where
  written : right.written = left.written
  name : right.name = left.name.orIn fallback
  attributes : right.attributes = left.attributes
  scope : ScopeAlike fallback left.scope right.scope
  text : right.text = left.text
  children : List.Forall₂ (Element.Alike fallback) left.children right.children

theorem OpenElement.Alike.close {fallback : Option String} {left right : OpenElement}
    (h : left.Alike fallback right) : left.close.Alike fallback right.close := by
  unfold OpenElement.close
  rw [h.name, h.attributes, h.text]
  exact .mk h.scope (List.rel_reverse h.children)

section Scopes

variable {fallback : Option String} {scope scope' : List NamespaceBinding}

theorem lookupScope_append (front back : List NamespaceBinding) (qualifier : Option String) :
    lookupScope (front ++ back) qualifier =
      (lookupScope front qualifier).or (lookupScope back qualifier) := by
  rw [lookupScope, lookupScope, lookupScope, List.find?_append, Option.map_or]

theorem lookupScope_cons (binding : NamespaceBinding) (others : List NamespaceBinding)
    (qualifier : Option String) : lookupScope (binding :: others) qualifier =
      if binding.qualifier = qualifier then some binding.uri
      else lookupScope others qualifier := by
  by_cases h : binding.qualifier = qualifier <;> simp [lookupScope, h]

theorem lookupScope_prefixedOnly (scope : List NamespaceBinding) (qualifier : String) :
    lookupScope (prefixedOnly scope) (some qualifier) = lookupScope scope (some qualifier) := by
  rw [lookupScope, lookupScope, prefixedOnly, List.find?_filter]
  congr 2
  funext binding
  cases binding.qualifier <;> simp

theorem ScopeAlike.prefixed (h : ScopeAlike fallback scope scope') (qualifier : String) :
    lookupScope scope' (some qualifier) = lookupScope scope (some qualifier) := by
  rw [← lookupScope_prefixedOnly, h.listed, lookupScope_prefixedOnly]

/-- An inherited binding is listed unless its prefix is declared again. -/
def addInherited (scope : List NamespaceBinding) (binding : NamespaceBinding) :
    List NamespaceBinding :=
  if scope.any (·.qualifier = binding.qualifier) then scope else scope ++ [binding]

theorem inheritScope_eq (declared inherited : List NamespaceBinding) :
    inheritScope declared inherited =
      if declared.isEmpty then inherited else inherited.foldl addInherited declared :=
  rfl

theorem lookupScope_addInherited (scope : List NamespaceBinding) (binding : NamespaceBinding)
    (qualifier : Option String) : lookupScope (addInherited scope binding) qualifier =
      (lookupScope scope qualifier).or (lookupScope [binding] qualifier) := by
  unfold addInherited
  split
  · rename_i hheld
    by_cases hqualifier : binding.qualifier = qualifier
    · -- the binding is hidden by one that is held already
      obtain ⟨held, hmem, hsame⟩ := List.any_eq_true.mp hheld
      have hfound : (lookupScope scope qualifier).isSome := by
        rw [lookupScope, Option.isSome_map, List.find?_isSome]
        exact ⟨held, hmem, by simpa [hqualifier] using hsame⟩
      obtain ⟨uri, huri⟩ := Option.isSome_iff_exists.mp hfound
      rw [huri, Option.some_or]
    · rw [lookupScope_cons, if_neg hqualifier]
      exact Option.or_none.symm
  · exact lookupScope_append ..

/-- A tag's own declarations come before the inherited ones. -/
theorem lookupScope_inheritScope (declared inherited : List NamespaceBinding)
    (qualifier : Option String) :
    lookupScope (inheritScope declared inherited) qualifier =
      (lookupScope declared qualifier).or (lookupScope inherited qualifier) := by
  have hfold : ∀ scope, lookupScope (inherited.foldl addInherited scope) qualifier =
      (lookupScope scope qualifier).or (lookupScope inherited qualifier) := by
    induction inherited with
    | nil => exact fun _ => Option.or_none.symm
    | cons binding others ih =>
      intro scope
      rw [List.foldl_cons, ih, lookupScope_addInherited, Option.or_assoc, ← lookupScope_append,
        List.singleton_append]
  rw [inheritScope_eq]
  split
  · rename_i hempty
    rw [List.isEmpty_iff.mp hempty]
    rfl
  · exact hfold declared

/-- Which prefixes are listed does not depend on default namespaces. -/
theorem prefixedOnly_foldl (scope inherited : List NamespaceBinding) :
    prefixedOnly (inherited.foldl addInherited scope) =
      (prefixedOnly inherited).foldl addInherited (prefixedOnly scope) := by
  induction inherited generalizing scope with
  | nil => rfl
  | cons binding others ih =>
    rw [List.foldl_cons, ih]
    cases hqualifier : binding.qualifier with
    | none =>
      have hsame : prefixedOnly (addInherited scope binding) = prefixedOnly scope := by
        unfold addInherited
        split
        · rfl
        · simp [prefixedOnly, hqualifier]
      rw [hsame, prefixedOnly, prefixedOnly, prefixedOnly,
        List.filter_cons_of_neg (by simp [hqualifier])]
    | some qualifier =>
      have hheld : (prefixedOnly scope).any (·.qualifier = binding.qualifier) =
          scope.any (·.qualifier = binding.qualifier) := by
        rw [prefixedOnly, List.any_filter, hqualifier]
        congr 1
        funext held
        cases held.qualifier <;> simp
      have hadd : prefixedOnly (addInherited scope binding) =
          addInherited (prefixedOnly scope) binding := by
        unfold addInherited
        rw [hheld]
        split
        · rfl
        · simp [prefixedOnly, hqualifier]
      rw [hadd]
      simp [prefixedOnly, hqualifier]

theorem ScopeAlike.inherit (h : ScopeAlike fallback scope scope')
    (declared : List NamespaceBinding) :
    ScopeAlike fallback (inheritScope declared scope) (inheritScope declared scope') where
  listed := by
    rw [inheritScope_eq, inheritScope_eq]
    split
    · exact h.listed
    · rw [prefixedOnly_foldl, prefixedOnly_foldl, h.listed]
  default := by
    rw [lookupScope_inheritScope, lookupScope_inheritScope, h.default, Option.or_assoc]

theorem scopeAlike_nil : ScopeAlike none [] [] := ⟨rfl, rfl⟩

/-- Declarations with the empty default namespace among them, in addition. -/
def Inserted (declared declared' : List NamespaceBinding) : Prop :=
  ∃ front back, declared = front ++ back ∧ declared' = front ++ ⟨none, ""⟩ :: back

theorem Inserted.cons {declared declared' : List NamespaceBinding} (h : Inserted declared declared')
    (binding : NamespaceBinding) : Inserted (binding :: declared) (binding :: declared') := by
  obtain ⟨front, back, rfl, rfl⟩ := h
  exact ⟨binding :: front, back, rfl, rfl⟩

theorem Inserted.any_eq {declared declared' : List NamespaceBinding}
    (h : Inserted declared declared') (localName : String) :
    declared'.any (·.qualifier = some localName) = declared.any (·.qualifier = some localName) := by
  obtain ⟨front, back, rfl, rfl⟩ := h
  simp

theorem Inserted.scopeAlike {declared declared' : List NamespaceBinding}
    (h : Inserted declared declared') (hnone : lookupScope declared none = none) :
    ScopeAlike (some "") declared declared' := by
  obtain ⟨front, back, rfl, rfl⟩ := h
  rw [lookupScope_append, Option.or_eq_none_iff] at hnone
  constructor
  · simp [prefixedOnly]
  · rw [lookupScope_append, lookupScope_append, hnone.1, hnone.2, lookupScope_cons, if_pos rfl]
    rfl

end Scopes

/-- An attribute that the reader takes for a declaration of the default namespace. -/
def WrittenName.DeclaresDefault (name : WrittenName) : Prop :=
  name.qualifier ≠ "xmlns" ∧ name.localName = "xmlns"

/-- The attribute that declares the empty default namespace. -/
def emptyDefault : WrittenName := ⟨"", "xmlns"⟩

section Tags

variable {fallback : Option String} {scope scope' : List NamespaceBinding}

theorem declaredNamespaces?_cons_empty (values : List (WrittenName × String)) :
    declaredNamespaces? ((emptyDefault, "") :: values) =
      (declaredNamespaces? values).map (⟨none, ""⟩ :: ·) := by
  rw [declaredNamespaces?]
  cases declaredNamespaces? values <;> rfl

theorem declaredNamespaces?_inserted (before after : List (WrittenName × String)) :
    Option.Rel Inserted (declaredNamespaces? (before ++ after))
      (declaredNamespaces? (before ++ (emptyDefault, "") :: after)) := by
  induction before with
  | nil =>
    rw [List.nil_append, List.nil_append, declaredNamespaces?_cons_empty]
    cases declaredNamespaces? after with
    | none => exact .none
    | some declared => exact .some ⟨[], declared, rfl, rfl⟩
  | cons first others ih =>
    obtain ⟨name, uri⟩ := first
    rw [List.cons_append, List.cons_append, declaredNamespaces?, declaredNamespaces?]
    refine rel_bind ih fun declared declared' hinserted => ?_
    rw [hinserted.any_eq]
    split
    · split
      · exact .none
      · split
        · exact .some hinserted
        · split
          · exact .none
          · exact .some (hinserted.cons _)
    · split
      · split
        · exact .none
        · exact .some (hinserted.cons _)
      · exact .some hinserted

/-- A tag without a default namespace of its own. -/
theorem lookupScope_declaredNamespaces? {values : List (WrittenName × String)}
    {declared : List NamespaceBinding} (hdeclared : declaredNamespaces? values = some declared)
    (h : ∀ value ∈ values, ¬ value.1.DeclaresDefault) : lookupScope declared none = none := by
  induction values generalizing declared with
  | nil =>
    obtain rfl := Option.some.inj hdeclared
    rfl
  | cons first others ih =>
    obtain ⟨name, uri⟩ := first
    obtain ⟨hname, hothers⟩ := List.forall_mem_cons.mp h
    rw [declaredNamespaces?] at hdeclared
    obtain ⟨bindings, hbindings, hfirst⟩ := Option.bind_eq_some_iff.mp hdeclared
    have hnone := ih hbindings hothers
    split at hfirst
    · split at hfirst
      · contradiction
      · split at hfirst
        · exact Option.some.inj hfirst ▸ hnone
        · split at hfirst
          · contradiction
          · obtain rfl := Option.some.inj hfirst
            rw [lookupScope_cons, if_neg (by simp), hnone]
    · rename_i hqualifier
      split at hfirst
      · rename_i hlocal
        exact absurd ⟨hqualifier, hlocal⟩ hname
      · exact Option.some.inj hfirst ▸ hnone

theorem resolveAttributes?_congr
    (h : ∀ qualifier, lookupScope scope' (some qualifier) = lookupScope scope (some qualifier))
    (values : List (WrittenName × String)) :
    resolveAttributes? scope' values = resolveAttributes? scope values := by
  induction values with
  | nil => rfl
  | cons first others ih =>
    obtain ⟨written, value⟩ := first
    have hname : attributeName? scope' written = attributeName? scope written := by
      rw [attributeName?, attributeName?, h]
    rw [resolveAttributes?, resolveAttributes?, ih, hname]

theorem ScopeAlike.elementName? (h : ScopeAlike fallback scope scope') (name : WrittenName) :
    elementName? scope' name = (elementName? scope name).map (ExpandedName.orIn fallback) := by
  unfold Xml.elementName?
  rw [h.prefixed, h.default]
  split
  · rfl
  · cases lookupScope scope (some name.qualifier) <;> rfl

/-- What the tag declares and what it has as attributes. -/
def TagAlike (fallback : Option String)
    (left right : List NamespaceBinding × List Attribute) : Prop :=
  ScopeAlike fallback left.1 right.1 ∧ right.2 = left.2

theorem ScopeAlike.resolveTag? (h : ScopeAlike fallback scope scope')
    (values : List (WrittenName × String)) :
    Option.Rel (TagAlike fallback) (resolveTag? scope values) (resolveTag? scope' values) := by
  unfold Xml.resolveTag?
  refine rel_bind_self fun declared => ?_
  have hinherit := h.inherit declared
  dsimp only
  rw [resolveAttributes?_congr hinherit.prefixed]
  refine rel_bind_self fun attributes => ?_
  exact .some ⟨hinherit, rfl⟩

/-- The tag of the document element, without and with the empty default namespace. -/
theorem resolveTag?_inserted {before after : List (WrittenName × String)}
    (hbefore : ∀ value ∈ before ++ after, ¬ value.1.DeclaresDefault) :
    Option.Rel (TagAlike (some "")) (resolveTag? [] (before ++ after))
      (resolveTag? [] (before ++ (emptyDefault, "") :: after)) := by
  have hinherit : ∀ declared, inheritScope declared [] = declared := by
    intro declared
    unfold inheritScope
    split
    · rename_i hempty
      exact (List.isEmpty_iff.mp hempty).symm
    · rfl
  have hvalues : (before ++ (emptyDefault, "") :: after).filter
      (fun value => !isNamespaceDeclaration value.1) =
        (before ++ after).filter fun value => !isNamespaceDeclaration value.1 := by
    rw [List.filter_append, List.filter_append, List.filter_cons_of_neg (by decide)]
  have hdeclared := declaredNamespaces?_inserted before after
  unfold Xml.resolveTag?
  rw [hvalues]
  cases hnone : declaredNamespaces? (before ++ after) with
  | none =>
    rw [hnone] at hdeclared
    generalize declaredNamespaces? (before ++ (emptyDefault, "") :: after) = found at hdeclared ⊢
    cases hdeclared
    exact .none
  | some declared =>
    rw [hnone] at hdeclared
    generalize declaredNamespaces? (before ++ (emptyDefault, "") :: after) = found at hdeclared ⊢
    cases hdeclared with
    | some hinserted =>
      have hscope := hinserted.scopeAlike (lookupScope_declaredNamespaces? hnone hbefore)
      refine rel_bind (R := ScopeAlike (some "")) (.some hscope) ?_
      intro scope scope' hscope
      dsimp only
      rw [hinherit, hinherit, resolveAttributes?_congr hscope.prefixed]
      refine rel_bind_self fun attributes => ?_
      exact .some ⟨hscope, rfl⟩

theorem openElement?_alike {inherited inherited' : List NamespaceBinding} (name : WrittenName)
    {values values' : List (WrittenName × String)}
    (h : Option.Rel (TagAlike fallback) (resolveTag? inherited values)
      (resolveTag? inherited' values')) :
    Option.Rel (OpenElement.Alike fallback) (openElement? inherited name values)
      (openElement? inherited' name values') := by
  unfold openElement?
  refine rel_bind h ?_
  rintro ⟨scope, attributes⟩ ⟨scope', _⟩ ⟨hscope, rfl⟩
  dsimp only at hscope ⊢
  rw [hscope.elementName?]
  cases Xml.elementName? scope name with
  | none => exact .none
  | some resolved => exact .some ⟨rfl, rfl, rfl, hscope, rfl, .nil⟩

end Tags

/-- The default namespace that elements have in addition inside of the document element. -/
def fallbackAt (isInside : Bool) : Option String := if isInside then some "" else none

/-- Builders on the way through both documents. The same elements are open, and the document
elements differ in the default namespace, whether they are still open or have been closed. -/
structure Builder.Alike (isInside : Bool) (left right : Builder) : Prop where
  opened : List.Forall₂ (OpenElement.Alike (fallbackAt isInside)) left.opened right.opened
  pending : right.pending = left.pending
  followed : right.followed = left.followed
  inside : isInside = true → left.finished = [] ∧ right.finished = []
  outside : isInside = false → ∃ root root', left.finished.getLast? = some root ∧
    right.finished.getLast? = some root' ∧ root.Alike (some "") root'

/-- Builders right after some markup. The document element is open as long as it is not closed. -/
def Builder.Emptied (left right : Builder) : Prop :=
  ∃ isInside, left.Alike isInside right ∧ (isInside = true → left.opened ≠ [])

namespace Builder

variable {isInside : Bool} {left right : Builder}

theorem Alike.scope (h : left.Alike isInside right) (hopen : isInside = true → left.opened ≠ []) :
    ScopeAlike (fallbackAt isInside) left.scope right.scope := by
  have hopened := h.opened
  unfold Builder.scope
  cases hleft : left.opened with
  | nil =>
    rw [hleft] at hopened
    rw [List.forall₂_nil_left_iff.mp hopened]
    cases isInside with
    | true => exact absurd hleft (hopen rfl)
    | false => exact scopeAlike_nil
  | cons element outer =>
    rw [hleft] at hopened
    generalize right.opened = opened at hopened
    cases hopened with
    | cons hfirst _ => exact hfirst.scope

/-- A finished element is added to the one around it, or it is the document element. -/
theorem Alike.addElement {element element' : Element}
    (helement : element.Alike (fallbackAt isInside) element') (h : left.Alike isInside right) :
    (left.addElement element).Emptied (right.addElement element') := by
  obtain ⟨hopened, hpending, hfollowed, hinside, houtside⟩ := h
  unfold Builder.addElement
  generalize left.opened = opened at hopened
  generalize right.opened = opened' at hopened
  cases hopened with
  | cons hfirst hothers =>
    refine ⟨isInside, ⟨.cons ?_ hothers, hpending, hfollowed, hinside, houtside⟩, by simp⟩
    exact ⟨hfirst.written, hfirst.name, hfirst.attributes, hfirst.scope, hfirst.text,
      .cons helement hfirst.children⟩
  | nil =>
    refine ⟨false, ⟨.nil, hpending, hfollowed, by simp, fun _ => ?_⟩, by simp⟩
    cases isInside with
    | true =>
      obtain ⟨hleft, hright⟩ := hinside rfl
      exact ⟨element, element', by simp [hleft], by simp [hright], helement⟩
    | false =>
      obtain ⟨root, root', hroot, hroot', halike⟩ := houtside rfl
      exact ⟨root, root', by simp [List.getLast?_cons, hroot],
        by simp [List.getLast?_cons, hroot'], halike⟩

theorem Emptied.addText (h : left.Emptied right) (reversed : List Char) :
    (left.addText reversed).Emptied (right.addText reversed) := by
  obtain ⟨isInside, ⟨hopened, hpending, hfollowed, hinside, houtside⟩, hopen⟩ := h
  refine ⟨isInside, ?_⟩
  unfold Builder.addText
  generalize hleft : left.opened = opened at hopened hopen
  generalize hright : right.opened = opened' at hopened
  cases hopened with
  | nil => exact ⟨⟨by rw [hleft, hright]; exact .nil, hpending, hfollowed, hinside, houtside⟩,
      fun h => absurd rfl (hopen h)⟩
  | cons hfirst hothers =>
    refine ⟨⟨.cons ?_ hothers, hpending, hfollowed, hinside, houtside⟩, by simp⟩
    exact ⟨hfirst.written, hfirst.name, hfirst.attributes, hfirst.scope,
      congrArg (reversed ++ ·) hfirst.text, hfirst.children⟩

theorem Emptied.closeElement? (h : left.Emptied right) (name : WrittenName) :
    Option.Rel Emptied (left.closeElement? name) (right.closeElement? name) := by
  obtain ⟨isInside, ⟨hopened, hpending, hfollowed, hinside, houtside⟩, -⟩ := h
  unfold Builder.closeElement?
  rw [hpending]
  generalize left.opened = opened at hopened
  generalize right.opened = opened' at hopened
  cases hopened with
  | nil => exact .none
  | cons hfirst hothers =>
    refine rel_bind (hfirst.scope.resolveTag? left.pending) fun _ _ _ => ?_
    rw [hfirst.written]
    split
    · refine .some (Alike.addElement hfirst.close ?_)
      exact ⟨hothers, rfl, hfollowed, hinside, houtside⟩
    · exact .none

theorem Emptied.addAttributes? (h : left.Emptied right) (entities : List Entity) (depth : Nat)
    (name : WrittenName) (attributes : List WrittenAttribute) :
    Option.Rel Emptied (left.addAttributes? entities depth name attributes)
      (right.addAttributes? entities depth name attributes) := by
  obtain ⟨isInside, ⟨hopened, hpending, hfollowed, hinside, houtside⟩, hopen⟩ := h
  unfold Builder.addAttributes?
  rw [hpending, hfollowed]
  split
  · exact .none
  · refine rel_bind_self ?_
    rintro ⟨values, followed⟩
    exact .some ⟨isInside, ⟨hopened, rfl, rfl, hinside, houtside⟩, hopen⟩

theorem Emptied.addTag? (h : left.Emptied right) (entities : List Entity) (depth : Nat)
    (name : WrittenName) (attributes : List WrittenAttribute) (isEmpty : Bool) :
    Option.Rel Emptied (left.addTag? entities depth name attributes isEmpty)
      (right.addTag? entities depth name attributes isEmpty) := by
  unfold Builder.addTag?
  refine rel_bind (h.addAttributes? entities depth name attributes) ?_
  rintro built built' ⟨isInside, halike, hopen⟩
  have htag := (halike.scope hopen).resolveTag? built.pending
  rw [halike.pending]
  refine rel_bind (openElement?_alike name htag) fun element element' helement => ?_
  obtain ⟨hopened, -, hfollowed, hinside, houtside⟩ := halike
  dsimp only
  split
  · refine .some (Alike.addElement helement.close ?_)
    exact ⟨hopened, rfl, hfollowed, hinside, houtside⟩
  · exact .some ⟨isInside, ⟨.cons helement hopened, rfl, hfollowed, hinside, houtside⟩, by simp⟩

theorem Emptied.addCutOffTag? (h : left.Emptied right) (entities : List Entity) (depth : Nat)
    (name : WrittenName) (attributes : List WrittenAttribute) :
    Option.Rel Emptied (left.addCutOffTag? entities depth name attributes)
      (right.addCutOffTag? entities depth name attributes) := by
  unfold Builder.addCutOffTag?
  refine rel_bind (h.addAttributes? entities depth name attributes) fun built built' hbuilt => ?_
  have hpending : built'.pending = built.pending := by
    obtain ⟨isInside, halike, -⟩ := hbuilt
    exact halike.pending
  rw [hpending]
  exact rel_bind_self fun _ => .some hbuilt

/-- The count of the references that were followed. -/
theorem Emptied.setFollowed (h : left.Emptied right) (followed : Nat) :
    Emptied { left with followed := followed } { right with followed := followed } := by
  obtain ⟨isInside, ⟨hopened, hpending, -, hinside, houtside⟩, hopen⟩ := h
  exact ⟨isInside, ⟨hopened, hpending, rfl, hinside, houtside⟩, hopen⟩

theorem Emptied.followed_eq (h : left.Emptied right) : right.followed = left.followed := by
  obtain ⟨isInside, halike, -⟩ := h
  exact halike.followed

/-- What an entity adds, it adds to both. -/
def EntityEmptied (inEntity : String → Builder → Option Builder) : Prop :=
  ∀ name left right, Emptied left right →
    Option.Rel Emptied (inEntity name left) (inEntity name right)

theorem Emptied.addPieces? {inEntity : String → Builder → Option Builder}
    (hentity : EntityEmptied inEntity) (isNested : Bool) (isKept : Bool) (reversed : List Char)
    (h : left.Emptied right) (pieces : List Piece) :
    Option.Rel Emptied (addPieces? inEntity isNested isKept reversed left pieces)
      (addPieces? inEntity isNested isKept reversed right pieces) := by
  induction pieces generalizing isKept reversed left right with
  | nil => exact .some (h.addText reversed)
  | cons piece pieces ih =>
    cases piece with
    | written c => exact ih _ _ h
    | numbered c => exact ih _ _ h
    | entity name =>
      have htext := h.addText reversed
      rw [Builder.addPieces?, Builder.addPieces?, htext.followed_eq]
      refine rel_bind_self fun followed => ?_
      refine rel_bind (hentity name _ _ (htext.setFollowed followed)) fun inner inner' hinner => ?_
      rw [hinner.followed_eq]
      exact ih _ _ (hinner.setFollowed _)

theorem Emptied.addMarkup? {inEntity : String → Builder → Option Builder}
    (hentity : EntityEmptied inEntity) (entities : List Entity) (depth : Nat) (hasTag : Bool)
    (h : left.Emptied right) (markup : List Markup) :
    Option.Rel Emptied (addMarkup? entities depth inEntity hasTag left markup)
      (addMarkup? entities depth inEntity hasTag right markup) := by
  induction markup generalizing hasTag left right with
  | nil => exact .some h
  | cons first more ih =>
    cases first with
    | startTag name attributes isEmpty =>
      rw [Builder.addMarkup?, Builder.addMarkup?]
      exact rel_bind (h.addTag? entities depth name attributes isEmpty) fun _ _ hnext =>
        ih _ hnext
    | cutOffTag name attributes =>
      rw [Builder.addMarkup?, Builder.addMarkup?]
      exact rel_bind (h.addCutOffTag? entities depth name attributes) fun _ _ hnext => ih _ hnext
    | endTag name =>
      rw [Builder.addMarkup?, Builder.addMarkup?]
      split
      · exact .none
      · exact rel_bind (h.closeElement? name) fun _ _ hnext => ih _ hnext
    | text written =>
      rw [Builder.addMarkup?, Builder.addMarkup?]
      refine rel_bind_self fun pieces => ?_
      exact rel_bind (h.addPieces? hentity _ _ _ pieces) fun _ _ hnext => ih _ hnext
    | literal written =>
      rw [Builder.addMarkup?, Builder.addMarkup?]
      exact rel_bind (h.addPieces? hentity _ _ _ _) fun _ _ hnext => ih _ hnext
    | ignored =>
      rw [Builder.addMarkup?, Builder.addMarkup?]
      exact ih _ h

theorem entityEmptied_addEntity? (entities : List Entity) (depth : Nat) :
    EntityEmptied (addEntity? entities depth) := by
  induction depth with
  | zero => exact fun _ _ _ _ => .none
  | succ depth ih =>
    intro name left right h
    rw [addEntity?, addEntity?]
    refine rel_bind_self fun value => ?_
    refine rel_bind_self ?_
    rintro ⟨content, rest⟩
    exact h.addMarkup? ih entities depth false content

end Builder

/-- Two texts with the same markup, but that the tag of the document element declares the empty
default namespace in the second one. In the first one it declares no default namespace. -/
def DeclaresEmptyDefault (allowsDoctype : Bool) (text text' : String) : Prop :=
  ∃ entities name before after isEmpty more,
    WrittenDocument.read? allowsDoctype text.toList =
      some ⟨entities, .startTag name (before ++ after) isEmpty :: more⟩ ∧
    WrittenDocument.read? allowsDoctype text'.toList =
      some ⟨entities, .startTag name (before ++ ⟨emptyDefault, []⟩ :: after) isEmpty :: more⟩ ∧
    ∀ written ∈ before ++ after, ¬ written.name.DeclaresDefault

theorem names_of_attributeValues? {entities : List Entity} {depth : Nat}
    {attributes : List WrittenAttribute} {followed : Nat}
    {found : List (WrittenName × String) × Nat}
    (h : attributeValues? entities depth attributes followed = some found) :
    found.1.map Prod.fst = attributes.map WrittenAttribute.name := by
  induction attributes generalizing followed found with
  | nil =>
    obtain rfl := Option.some.inj h
    rfl
  | cons first others ih =>
    rw [attributeValues?] at h
    obtain ⟨value, -, h⟩ := Option.bind_eq_some_iff.mp h
    obtain ⟨values, hvalues, h⟩ := Option.bind_eq_some_iff.mp h
    obtain rfl := Option.some.inj h
    rw [List.map_cons, List.map_cons, ih hvalues]

/-- The values of a tag, without and with the empty default namespace among them. -/
def ValuesInserted (values values' : List (WrittenName × String)) : Prop :=
  (∃ front back, values = front ++ back ∧ values' = front ++ (emptyDefault, "") :: back) ∧
    ∀ value ∈ values, ¬ value.1.DeclaresDefault

theorem attributeValue?_nil (entities : List Entity) (depth followed : Nat) :
    attributeValue? entities depth [] followed = some ("", followed) := by
  simp [attributeValue?, readPieces?, attributePieces?]

theorem attributeValues?_inserted (entities : List Entity) (depth : Nat)
    {before after : List WrittenAttribute} (followed : Nat)
    (h : ∀ written ∈ before ++ after, ¬ written.name.DeclaresDefault) :
    Option.Rel (fun left right => ValuesInserted left.1 right.1 ∧ right.2 = left.2)
      (attributeValues? entities depth (before ++ after) followed)
      (attributeValues? entities depth (before ++ ⟨emptyDefault, []⟩ :: after) followed) := by
  induction before generalizing followed with
  | nil =>
    rw [List.nil_append, List.nil_append, attributeValues?, attributeValue?_nil,
      Option.bind_eq_bind, Option.bind_some]
    dsimp only
    cases hfound : attributeValues? entities depth after followed with
    | none => exact .none
    | some found =>
      refine .some ⟨⟨⟨[], found.1, rfl, rfl⟩, fun value hvalue => ?_⟩, rfl⟩
      have hname : value.1 ∈ after.map WrittenAttribute.name := by
        rw [← names_of_attributeValues? hfound]
        exact List.mem_map_of_mem hvalue
      obtain ⟨written, hwritten, heq⟩ := List.mem_map.mp hname
      exact heq ▸ h written hwritten
  | cons first others ih =>
    obtain ⟨hfirst, hothers⟩ := List.forall_mem_cons.mp h
    rw [List.cons_append, List.cons_append, attributeValues?, attributeValues?]
    refine rel_bind_self ?_
    rintro ⟨value, followed⟩
    refine rel_bind (ih followed hothers) ?_
    rintro ⟨values, followed⟩ ⟨values', _⟩ ⟨⟨⟨front, back, rfl, rfl⟩, hplain⟩, rfl⟩
    exact .some ⟨⟨⟨(first.name, value) :: front, back, rfl, rfl⟩,
      List.forall_mem_cons.mpr ⟨hfirst, hplain⟩⟩, rfl⟩

/-- The document element, before and after which nothing has been read. -/
theorem Builder.addTag?_inserted (entities : List Entity) (depth : Nat) (name : WrittenName)
    {before after : List WrittenAttribute} (isEmpty : Bool)
    (h : ∀ written ∈ before ++ after, ¬ written.name.DeclaresDefault) :
    Option.Rel Builder.Emptied
      (Builder.addTag? entities depth ⟨[], [], [], 0⟩ name (before ++ after) isEmpty)
      (Builder.addTag? entities depth ⟨[], [], [], 0⟩ name (before ++ ⟨emptyDefault, []⟩ :: after)
        isEmpty) := by
  have hattributes : Option.Rel (fun left right => ValuesInserted left.pending right.pending ∧
      left.opened = [] ∧ left.finished = [] ∧ right = { left with pending := right.pending })
      (Builder.addAttributes? entities depth ⟨[], [], [], 0⟩ name (before ++ after))
      (Builder.addAttributes? entities depth ⟨[], [], [], 0⟩ name
        (before ++ ⟨emptyDefault, []⟩ :: after)) := by
    unfold Builder.addAttributes?
    split
    · exact .none
    · refine rel_bind (attributeValues?_inserted entities depth 0 h) ?_
      rintro ⟨values, followed⟩ ⟨values', _⟩ ⟨hinserted, rfl⟩
      exact .some ⟨hinserted, rfl, rfl, rfl⟩
  unfold Builder.addTag?
  refine rel_bind hattributes ?_
  rintro ⟨opened, finished, pending, followed⟩ ⟨_, _, pending', _⟩
    ⟨⟨⟨front, back, rfl, rfl⟩, hplain⟩, rfl, rfl, heq⟩
  obtain ⟨rfl, rfl, -, rfl⟩ := Builder.mk.inj heq
  refine rel_bind (openElement?_alike name (resolveTag?_inserted hplain)) ?_
  intro element element' helement
  dsimp only
  split
  · have hclosed : element.close.Alike (fallbackAt true) element'.close := helement.close
    refine .some (Builder.Alike.addElement hclosed ?_)
    exact ⟨.nil, rfl, rfl, fun _ => ⟨rfl, rfl⟩, by simp⟩
  · exact .some ⟨true, ⟨.cons helement .nil, rfl, rfl, fun _ => ⟨rfl, rfl⟩, by simp⟩, by simp⟩

/-- Both texts are refused, or their document elements differ in the default namespace only. -/
theorem read?_declaresEmptyDefault {allowsDoctype : Bool} {text text' : String}
    (h : DeclaresEmptyDefault allowsDoctype text text') :
    Option.Rel (Element.Alike (some "")) (read? allowsDoctype text)
      (read? allowsDoctype text') := by
  obtain ⟨entities, name, before, after, isEmpty, more, hread, hread', hplain⟩ := h
  unfold read?
  rw [hread, hread', Option.bind_eq_bind, Option.bind_some, Option.bind_eq_bind, Option.bind_some]
  dsimp only
  rw [Builder.addMarkup?, Builder.addMarkup?]
  have hmarkup := rel_bind (Builder.addTag?_inserted entities maxEntityDepth name isEmpty hplain)
    fun built built' hbuilt =>
      hbuilt.addMarkup? (Builder.entityEmptied_addEntity? entities maxEntityDepth) entities
        maxEntityDepth true more
  refine rel_bind hmarkup ?_
  rintro built built' ⟨isInside, halike, hopen⟩
  have hopened := halike.opened
  generalize built.opened = opened at hopened hopen
  generalize built'.opened = opened' at hopened
  cases hopened with
  | cons => exact .none
  | nil =>
    cases isInside with
    | true => exact absurd rfl (hopen rfl)
    | false =>
      obtain ⟨root, root', hroot, hroot', hsame⟩ := halike.outside rfl
      rw [hroot, hroot']
      exact .some hsame

end Xml

end SchemaForms
