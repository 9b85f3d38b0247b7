import SchemaForms.Compile.Log

/-!
Runs that differ in their bounds. A run is ended when no bound was reached in it, neither among its
entries nor as the failure that stops it. A second run settles the first when it is the same
wherever the first is ended, so of runs that come to a bound nothing is said. The rules follow the
operations of the two monads.
-/

namespace SchemaForms

variable {α β : Type}

namespace Logged

/-- The second run is the same if the first one reaches no bound. -/
def Settles (step other : Logged α) : Prop := step.Ended → other = step

theorem ended_bind {step : Logged α} {next : α → Logged β} :
    (step >>= next).Ended ↔ step.Ended ∧ (next step.value).Ended := by
  simp [Ended, or_imp, forall_and]

theorem bind_congr {step : Logged α} {next next' : α → Logged β}
    (h : next' step.value = next step.value) : step >>= next' = step >>= next := by
  apply ext
  · rw [value_bind, value_bind, h]
  · rw [log_bind, log_bind, h]

theorem Settles.refl (step : Logged α) : step.Settles step := fun _ => rfl

theorem Settles.trans {first second third : Logged α} (h : first.Settles second)
    (h' : second.Settles third) : first.Settles third := by
  intro hended
  have hsecond := h hended
  exact (h' (hsecond.symm ▸ hended)).trans hsecond

theorem Settles.bind {step other : Logged α} {next next' : α → Logged β}
    (hstep : step.Settles other) (hnext : (next step.value).Settles (next' step.value)) :
    (step >>= next).Settles (other >>= next') := by
  intro hended
  obtain ⟨hfirst, hafter⟩ := ended_bind.mp hended
  rw [hstep hfirst]
  exact bind_congr (hnext hafter)

theorem Settles.collect {step step' : α → Logged (List β)} {as : List α}
    (h : ∀ a ∈ as, (step a).Settles (step' a)) :
    (Logged.collect step as).Settles (Logged.collect step' as) := by
  induction as with
  | nil => exact .refl _
  | cons a others ih =>
    have hothers := ih fun b hb => h b (List.mem_cons_of_mem _ hb)
    exact .bind (h a List.mem_cons_self) (.bind hothers (.refl _))

end Logged

namespace Attempt

structure Ended (attempt : Attempt α) : Prop where
  log : attempt.run.Ended
  value : ∀ here, attempt.run.value ≠ .error (.nestedTooDeep here)

def Settles (attempt other : Attempt α) : Prop := attempt.Ended → other = attempt

theorem Settles.refl (attempt : Attempt α) : attempt.Settles attempt := fun _ => rfl

theorem Settles.trans {first second third : Attempt α} (h : first.Settles second)
    (h' : second.Settles third) : first.Settles third := by
  intro hended
  have hsecond := h hended
  exact (h' (hsecond.symm ▸ hended)).trans hsecond

/-- Of a run that is stopped by a bound nothing is said. -/
theorem Settles.exhausted {here : Address} {other : Attempt α} :
    Settles (MonadExcept.throw (.nestedTooDeep here)) other :=
  fun hended => absurd rfl (hended.value here)

theorem Settles.bind {attempt other : Attempt α} {next next' : α → Attempt β}
    (h : attempt.Settles other)
    (hnext : ∀ a, attempt.run.value = .ok a → (next a).Settles (next' a)) :
    (attempt >>= next).Settles (other >>= next') := by
  intro hended
  obtain ⟨hlog, hvalue⟩ := hended
  obtain ⟨hfirst, hafter⟩ := Logged.ended_bind.mp hlog
  change (ExceptT.bindCont next attempt.run.value).Ended at hafter
  change ∀ here, (ExceptT.bindCont next attempt.run.value).value ≠ _ at hvalue
  have hended : attempt.Ended := by
    refine ⟨hfirst, fun here herror => hvalue here ?_⟩
    rw [herror]
    rfl
  rw [h hended]
  refine @Logged.bind_congr _ _ attempt.run (ExceptT.bindCont next) _ ?_
  cases hresult : attempt.run.value with
  | error error => rfl
  | ok a =>
    rw [hresult] at hafter hvalue
    exact hnext a hresult ⟨hafter, hvalue⟩

/-- A first step that both runs share. -/
theorem Settles.after {next next' : α → Attempt β} (step : Attempt α)
    (hnext : ∀ a, step.run.value = .ok a → (next a).Settles (next' a)) :
    (step >>= next).Settles (step >>= next') :=
  .bind (.refl step) hnext

/-- A look-up that both runs share. -/
theorem Settles.lookup {result : Except CompileError α} {next next' : α → Attempt β}
    (hnext : ∀ a, result = .ok a → (next a).Settles (next' a)) :
    (liftM result >>= next : Attempt β).Settles (liftM result >>= next') :=
  .after _ fun a ha => hnext a <| by
    cases result with
    | ok found => exact ha
    | error error => exact ha

theorem Settles.lift {step other : Logged α} (h : step.Settles other) :
    Settles (liftM step : Attempt α) (liftM other) := by
  intro hended
  have hstep : step.Ended := (Logged.ended_bind.mp hended.log).1
  rw [h hstep]

theorem orSkip_settles {attempt other : Attempt (List α)} (h : attempt.Settles other)
    (here : Address) : (attempt.orSkip here).Settles (other.orSkip here) := by
  intro hended
  obtain ⟨hlog, hafter⟩ := Logged.ended_bind.mp hended
  have hattempt : attempt.Ended := by
    refine ⟨hlog, fun there herror => ?_⟩
    rw [herror] at hafter
    exact nomatch hafter ⟨here, .skipped (.nestedTooDeep there)⟩ List.mem_cons_self
  rw [h hattempt]

end Attempt

end SchemaForms
