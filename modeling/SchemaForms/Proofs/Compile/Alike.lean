import SchemaForms.Compile.Log
import Mathlib.Tactic.Common

/-!
Two runs side by side. Steps are alike when they note the same entries and make values that are
related; attempts are alike when, besides, they fail together and for the same reason. A part that
is skipped by one run is then skipped by the other, with the same warning. The rules follow the
operations of the two monads.
-/

namespace SchemaForms

variable {α β : Type}

/-- Both fail with the same error, or both make something and what they make is related. -/
inductive Together {ε : Type} (R : α → β → Prop) : Except ε α → Except ε β → Prop
  | ok {a b} (h : R a b) : Together R (.ok a) (.ok b)
  | error (error) : Together R (.error error) (.error error)

namespace Together

variable {ε γ δ : Type} {R : α → β → Prop} {S : γ → δ → Prop}

theorem bind {left : Except ε α} {right : Except ε β} {next : α → Except ε γ}
    {next' : β → Except ε δ} (h : Together R left right)
    (hnext : ∀ a b, R a b → Together S (next a) (next' b)) :
    Together S (left >>= next) (right >>= next') := by
  cases h with
  | ok hstep => exact hnext _ _ hstep
  | error error => exact .error error

theorem mapM {left : List α} {right : List β} {step : α → Except ε γ} {step' : β → Except ε δ}
    (h : List.Forall₂ R left right) (hstep : ∀ a b, R a b → Together S (step a) (step' b)) :
    Together (List.Forall₂ S) (left.mapM step) (right.mapM step') := by
  induction h with
  | nil => exact .ok .nil
  | cons hfirst _ ih =>
    rw [List.mapM_cons, List.mapM_cons]
    exact .bind (hstep _ _ hfirst) fun _ _ hmade =>
      .bind ih fun _ _ hothers => .ok (.cons hmade hothers)

theorem of_eq {left right : Except ε α} (h : left = right) : Together Eq left right := by
  rw [h]
  cases right with
  | ok a => exact .ok rfl
  | error error => exact .error error

theorem eq {left right : Except ε α} (h : Together Eq left right) : left = right := by
  cases h with
  | ok h => rw [h]
  | error error => rfl

end Together

namespace Logged

structure Alike (R : α → α → Prop) (left right : Logged α) : Prop where
  value : R left.value right.value
  log : left.log = right.log

theorem Alike.pure {R : α → α → Prop} {a b : α} (h : R a b) :
    Alike R (Pure.pure a : Logged α) (Pure.pure b) :=
  ⟨h, rfl⟩

theorem Alike.bind {left right : Logged α} {next next' : α → Logged β} {R : α → α → Prop}
    {S : β → β → Prop} (hstep : Alike R left right)
    (hnext : ∀ a b, R a b → Alike S (next a) (next' b)) :
    Alike S (left >>= next) (right >>= next') := by
  have hafter := hnext _ _ hstep.value
  refine ⟨hafter.value, ?_⟩
  rw [log_bind, log_bind, hstep.log, hafter.log]

/-- What is alike for each member of a list is alike when it is joined, if joining keeps the
relation. -/
theorem Alike.collect {step step' : α → Logged (List β)} {R : List β → List β → Prop}
    (hnil : R [] [])
    (happend : ∀ left left' right right', R left left' → R right right' →
      R (left ++ right) (left' ++ right'))
    (hstep : ∀ a, Alike R (step a) (step' a)) (as : List α) :
    Alike R (Logged.collect step as) (Logged.collect step' as) := by
  induction as with
  | nil => exact .pure hnil
  | cons a others ih =>
    refine .bind (hstep a) fun first first' hfirst => .bind ih fun rest rest' hrest => .pure ?_
    exact happend _ _ _ _ hfirst hrest

/-- What is noted and made alike for related members of two lists is so for the lists. -/
theorem Alike.collect_forall₂ {γ : Type} {S : α → γ → Prop} {left : List α} {right : List γ}
    {step : α → Logged (List β)} {step' : γ → Logged (List β)} (h : List.Forall₂ S left right)
    (hstep : ∀ a b, S a b → (step a).Alike Eq (step' b)) :
    (Logged.collect step left).Alike Eq (Logged.collect step' right) := by
  induction h with
  | nil => exact .pure rfl
  | cons hfirst _ ih =>
    refine .bind (hstep _ _ hfirst) ?_
    rintro first _ rfl
    refine .bind ih ?_
    rintro rest _ rfl
    exact .pure rfl

end Logged

namespace Attempt

def Alike (R : α → α → Prop) (left right : Attempt α) : Prop :=
  left.run.Alike (Together R) right.run

theorem Alike.pure {R : α → α → Prop} {a b : α} (h : R a b) :
    Alike R (Pure.pure a : Attempt α) (Pure.pure b) :=
  Logged.Alike.pure (.ok h)

theorem Alike.throw {R : α → α → Prop} (error : CompileError) :
    Alike R (MonadExcept.throw error : Attempt α) (MonadExcept.throw error) :=
  Logged.Alike.pure (.error error)

theorem Alike.bind {left right : Attempt α} {next next' : α → Attempt β} {R : α → α → Prop}
    {S : β → β → Prop} (hstep : Alike R left right)
    (hnext : ∀ a b, R a b → Alike S (next a) (next' b)) :
    Alike S (left >>= next) (right >>= next') := by
  refine Logged.Alike.bind hstep fun result result' hresult => ?_
  cases hresult with
  | ok h => exact hnext _ _ h
  | error error => exact .pure (.error error)

/-- First steps that make the same. -/
theorem Alike.bind_eq {left right : Attempt α} {next next' : α → Attempt β} {S : β → β → Prop}
    (hstep : Alike Eq left right) (hnext : ∀ a, Alike S (next a) (next' a)) :
    Alike S (left >>= next) (right >>= next') :=
  .bind hstep fun a _ heq => heq ▸ hnext a

/-- A first step that both runs share. -/
theorem Alike.after {next next' : α → Attempt β} {S : β → β → Prop} (step : Attempt α)
    (hnext : ∀ a, Alike S (next a) (next' a)) : Alike S (step >>= next) (step >>= next') :=
  .bind_eq ⟨.of_eq rfl, rfl⟩ hnext

/-- A step that has no log. -/
theorem Alike.of_together {left right : Except CompileError α} {R : α → α → Prop}
    (h : Together R left right) : Alike R (liftM left : Attempt α) (liftM right) := by
  cases h with
  | ok h => exact .pure h
  | error error => exact .throw error

theorem Alike.lift {left right : Logged α} {R : α → α → Prop} (h : left.Alike R right) :
    Alike R (liftM left : Attempt α) (liftM right) :=
  Logged.Alike.bind h fun _ _ hvalue => .pure (.ok hvalue)

theorem orSkip_alike {here : Address} {left right : Attempt (List α)}
    {R : List α → List α → Prop} (h : left.Alike R right) (hnil : R [] []) :
    (left.orSkip here).Alike R (right.orSkip here) := by
  refine Logged.Alike.bind h fun result result' hresult => ?_
  cases hresult with
  | ok h => exact .pure h
  | error error => exact .bind (R := Eq) ⟨rfl, rfl⟩ fun _ _ _ => .pure hnil

end Attempt

end SchemaForms
