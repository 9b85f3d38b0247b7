import SchemaForms.Compile.Members
import SchemaForms.Proofs.Compile.Alike
import SchemaForms.Proofs.Duplicates

/-!
The names that a choice offers, with and without looking back. The names are tidied after every
compositor and group. It is enough to do so once, at the end: what is listed in between only differs
by names that were met before. So the names are told by each construct alone, given the groups that
were opened before it.
-/

namespace SchemaForms

namespace Compile

namespace Scope

/-- The names of one construct, given the groups that were opened before it. -/
def leavesOf (scope : Scope) (here : Address) : Nat → Construct → Opening (List PrefixedName)
  | 0, _ => throw (.nestedTooDeep here)
  | depth + 1, construct =>
    match construct with
    | .element reference _ => do
      return scope.memberNames here (← scope.elementName reference)
    | .compositor _ _ children => openAll (scope.leavesOf here depth) children
    | .group name _ => openOnce name do
      openAll (scope.leavesOf here depth) (← scope.modelGroup here name).children
    | .wildcard _ => return [scope.index.wildcardName]
    | _ => return []

/-- Names that were collected, and the same names with and without those that were met before. -/
structure Tidies (before : List PrefixedName) (leaves : Leaves)
    (found : List PrefixedName × List ExpandedName) : Prop where
  opened : leaves.opened = found.2
  names : leaves.names.eraseDups = (before ++ found.1).eraseDups

variable {scope : Scope} {here : Address} {before : List PrefixedName} {leaves : Leaves}

/-- Looking back drops nothing that was not met before. -/
theorem tidies_tidy {collected : Except CompileError Leaves}
    {found : Except CompileError (List PrefixedName × List ExpandedName)}
    (h : Together (Tidies before) collected found) :
    Together (Tidies before) (do return (← collected).tidy) found := by
  cases h with
  | error error => exact .error error
  | ok htidies =>
    exact .ok ⟨htidies.opened, by rw [Leaves.tidy, eraseDups_eraseDups, htidies.names]⟩

theorem tidies_foldlM {depth : Nat}
    (hstep : ∀ construct before leaves, leaves.names.eraseDups = before.eraseDups →
      Together (Tidies before) (scope.collectLeaf here depth leaves construct)
        ((scope.leavesOf here depth construct).run leaves.opened))
    (constructs : List Construct) (before : List PrefixedName) (leaves : Leaves)
    (hbefore : leaves.names.eraseDups = before.eraseDups) :
    Together (Tidies before) (constructs.foldlM (scope.collectLeaf here depth) leaves)
      ((openAll (scope.leavesOf here depth) constructs).run leaves.opened) := by
  induction constructs generalizing before leaves with
  | nil => exact .ok ⟨rfl, by simpa using hbefore⟩
  | cons construct others ih =>
    rw [List.foldlM_cons, openAll, StateT.run_bind]
    refine (hstep construct before leaves hbefore).bind ?_
    rintro reached ⟨first, opened⟩ ⟨hopened, hnames⟩
    have hothers := ih (before ++ first) reached hnames
    rw [hopened] at hothers
    rw [StateT.run_bind]
    refine bind_pure (others.foldlM (scope.collectLeaf here depth) reached) ▸ hothers.bind ?_
    rintro leaves ⟨rest, opened⟩ ⟨hopened, hnames⟩
    exact .ok ⟨hopened, by rw [hnames, List.append_assoc]⟩

/-- Each construct tells its names alone. -/
theorem tidies_collectLeaf (scope : Scope) (here : Address) (depth : Nat) :
    ∀ construct before leaves, leaves.names.eraseDups = before.eraseDups →
      Together (Tidies before) (scope.collectLeaf here depth leaves construct)
        ((scope.leavesOf here depth construct).run leaves.opened) := by
  induction depth with
  | zero => exact fun _ _ _ _ => .error _
  | succ depth ih =>
    intro construct before leaves hbefore
    have hadd : ∀ names, Tidies before (leaves.add names) (names, leaves.opened) := fun names =>
      ⟨rfl, eraseDups_append_congr hbefore names⟩
    cases construct with
    | element reference occurs =>
      rw [collectLeaf, leavesOf]
      cases scope.elementName reference with
      | error error => exact .error error
      | ok name => exact .ok (hadd _)
    | wildcard occurs => exact .ok (hadd _)
    | compositor kind occurs children =>
      rw [collectLeaf, leavesOf]
      exact tidies_tidy (tidies_foldlM ih children before leaves hbefore)
    | group name occurs =>
      rw [collectLeaf, leavesOf]
      by_cases hopened : name ∈ leaves.opened
      · simp only [openOnce, StateT.run_bind, StateT.run_get, pure_bind, if_pos hopened]
        exact .ok ⟨rfl, by simpa using hbefore⟩
      · simp only [openOnce, StateT.run_bind, StateT.run_get, pure_bind, if_neg hopened]
        cases scope.modelGroup here name with
        | error error => exact .error error
        | ok group =>
          exact tidies_tidy (tidies_foldlM ih group.children before (leaves.opening name) hbefore)
    | _ => exact .ok ⟨rfl, by simpa using hbefore⟩

/-- It is enough to look back at the end. -/
theorem leafNames_eq_map (scope : Scope) (here : Address) (constructs : List Construct) :
    scope.leafNames here constructs =
      ((openAll (scope.leavesOf here (scope.leavesDepth constructs)) constructs).run []).map
        fun found => found.1.eraseDups := by
  have hall : Together (Tidies [])
      (constructs.foldlM (scope.collectLeaf here (scope.leavesDepth constructs)) ⟨[], []⟩)
      ((openAll (scope.leavesOf here (scope.leavesDepth constructs)) constructs).run []) :=
    tidies_foldlM (tidies_collectLeaf scope here (scope.leavesDepth constructs)) constructs []
      ⟨[], []⟩ rfl
  unfold leafNames
  generalize constructs.foldlM (scope.collectLeaf here (scope.leavesDepth constructs)) ⟨[], []⟩ =
    collected at hall ⊢
  generalize (openAll (scope.leavesOf here (scope.leavesDepth constructs)) constructs).run [] =
    found at hall ⊢
  cases hall with
  | error error => rfl
  | ok htidies => exact congrArg Except.ok htidies.names

end Scope

end Compile

end SchemaForms
