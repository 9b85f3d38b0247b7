import SchemaForms.Compile.Log

/-!
What can be said of a step that notes entries and of an attempt that may fail: of every value that
it makes, of the error that stops it, and of the errors among the entries. A skipped failure turns
up in the log, so the property of errors is the same for both. An attempt that is known to succeed
is followed without its log. The rules follow the operations of the two monads.
-/

namespace SchemaForms

variable {α β : Type} {failed : CompileError → Prop}

/-- The errors of skipped parts have the property. -/
def NotedBy (failed : CompileError → Prop) (log : List LogEntry) : Prop :=
  ∀ entry ∈ log, ∀ error, entry.note = .skipped error → failed error

theorem notedBy_append {left right : List LogEntry} (hleft : NotedBy failed left)
    (hright : NotedBy failed right) : NotedBy failed (left ++ right) := by
  intro entry hentry
  rcases List.mem_append.mp hentry with h | h
  · exact hleft entry h
  · exact hright entry h

theorem notedBy_singleton {here : Address} {note : Note}
    (h : ∀ error, note = .skipped error → failed error) :
    NotedBy failed [⟨here, note⟩] := by
  intro entry hentry error herror
  rw [List.mem_singleton] at hentry
  subst hentry
  exact h error herror

namespace Logged

structure Yields (failed : CompileError → Prop) (step : Logged α) (made : α → Prop) : Prop where
  value : made step.value
  log : NotedBy failed step.log

theorem Yields.pure {P : α → Prop} {a : α} (h : P a) :
    Yields failed (Pure.pure a : Logged α) P :=
  ⟨h, by simp [NotedBy]⟩

theorem Yields.bind {step : Logged α} {next : α → Logged β} {P : α → Prop}
    {Q : β → Prop} (hstep : step.Yields failed P)
    (hnext : ∀ a, P a → (next a).Yields failed Q) : (step >>= next).Yields failed Q :=
  ⟨(hnext _ hstep.value).value, notedBy_append hstep.log (hnext _ hstep.value).log⟩

theorem Yields.mono {step : Logged α} {P Q : α → Prop} (h : step.Yields failed P)
    (himp : ∀ a, P a → Q a) : step.Yields failed Q :=
  ⟨himp _ h.value, h.log⟩

/-- What is P for the members of a list is joined, so a property that survives joining holds of
the whole. -/
theorem Yields.collect {step : α → Logged (List β)} {as : List α} {P : List β → Prop}
    (hnil : P []) (happend : ∀ left right, P left → P right → P (left ++ right))
    (hstep : ∀ a ∈ as, (step a).Yields failed P) :
    (Logged.collect step as).Yields failed P := by
  induction as with
  | nil => exact .pure hnil
  | cons a others ih =>
    refine .bind (hstep a List.mem_cons_self) fun first hfirst => ?_
    refine .bind (ih fun b hb => hstep b (List.mem_cons_of_mem _ hb)) fun rest hrest => ?_
    exact .pure (happend first rest hfirst hrest)

end Logged

namespace Attempt

/-- What an attempt makes or fails with. -/
def Result (failed : CompileError → Prop) (made : α → Prop) : Except CompileError α → Prop
  | .ok a => made a
  | .error error => failed error

def Yields (failed : CompileError → Prop) (attempt : Attempt α) (made : α → Prop) : Prop :=
  attempt.run.Yields failed (Result failed made)

theorem Yields.pure {P : α → Prop} {a : α} (h : P a) :
    Yields failed (Pure.pure a : Attempt α) P :=
  Logged.Yields.pure (P := Result failed P) h

theorem Yields.throw {P : α → Prop} {error : CompileError} (h : failed error) :
    Yields failed (MonadExcept.throw error : Attempt α) P :=
  Logged.Yields.pure (P := Result failed P) h

theorem Yields.bind {attempt : Attempt α} {next : α → Attempt β} {P : α → Prop}
    {Q : β → Prop} (hattempt : attempt.Yields failed P)
    (hnext : ∀ a, P a → (next a).Yields failed Q) :
    Yields failed (attempt >>= next) Q := by
  refine Logged.Yields.bind hattempt fun result hresult => ?_
  cases result with
  | ok a => exact hnext a hresult
  | error error => exact Logged.Yields.pure (P := Result failed Q) hresult

theorem Yields.mono {attempt : Attempt α} {P Q : α → Prop}
    (h : attempt.Yields failed P) (himp : ∀ a, P a → Q a) :
    attempt.Yields failed Q := by
  refine Logged.Yields.mono h fun result hresult => ?_
  cases result with
  | ok a => exact himp a hresult
  | error error => exact hresult

/-- A step that cannot fail, taken as an attempt. -/
theorem Yields.lift {step : Logged α} {P : α → Prop} (h : step.Yields failed P) :
    Yields failed (liftM step : Attempt α) P :=
  Logged.Yields.bind h fun _ ha => Logged.Yields.pure (P := Result failed P) ha

/-- A look-up, taken as an attempt that notes nothing. -/
theorem Yields.except {result : Except CompileError α} {P : α → Prop}
    (hok : ∀ a, result = .ok a → P a) (herror : ∀ error, result = .error error → failed error) :
    Yields failed (liftM result : Attempt α) P := by
  cases result with
  | ok a => exact Yields.pure (hok a rfl)
  | error error => exact Yields.throw (herror error rfl)

theorem Yields.note {here : Address} {note : Note} {P : Unit → Prop} (hmade : P ())
    (hnote : ∀ error, note = .skipped error → failed error) :
    Yields failed (Attempt.note here note) P :=
  Yields.lift ⟨hmade, notedBy_singleton hnote⟩

/-- A failure becomes an entry of the log, and nothing is P. -/
theorem orSkip_yields {here : Address} {attempt : Attempt (List α)} {P : List α → Prop}
    (hattempt : attempt.Yields failed P) (hnil : P []) :
    (attempt.orSkip here).Yields failed P := by
  refine Logged.Yields.bind hattempt fun result hresult => ?_
  cases result with
  | ok nodes => exact Logged.Yields.pure hresult
  | error error =>
    refine Logged.Yields.bind (P := fun _ => True) ⟨trivial, ?_⟩ fun _ _ => .pure hnil
    refine notedBy_singleton fun noted hnoted => ?_
    obtain rfl := Note.skipped.inj hnoted
    exact hresult

/-- The attempt does not fail, and what it makes has the property. -/
def Makes (attempt : Attempt α) (made : α → Prop) : Prop :=
  ∃ a, attempt.run.value = .ok a ∧ made a

variable {P : α → Prop} {Q : β → Prop}

theorem Makes.pure {a : α} (h : P a) : (Pure.pure a : Attempt α).Makes P :=
  ⟨a, rfl, h⟩

theorem Makes.lift {step : Logged α} (h : P step.value) : (liftM step : Attempt α).Makes P :=
  ⟨step.value, rfl, h⟩

theorem Makes.bind {attempt : Attempt α} {next : α → Attempt β} (hattempt : attempt.Makes P)
    (hnext : ∀ a, P a → (next a).Makes Q) : (attempt >>= next).Makes Q := by
  obtain ⟨a, hvalue, ha⟩ := hattempt
  obtain ⟨b, hresult, hb⟩ := hnext a ha
  refine ⟨b, ?_, hb⟩
  change (ExceptT.bindCont next attempt.run.value).value = .ok b
  rw [hvalue]
  exact hresult

/-- A look-up that finds something. -/
theorem Makes.lookup {result : Except CompileError α} {next : α → Attempt β} {a : α}
    (hfound : result = .ok a) (hnext : (next a).Makes Q) : (liftM result >>= next).Makes Q := by
  subst hfound
  refine Makes.bind (P := (· = a)) (.pure rfl) ?_
  rintro _ rfl
  exact hnext

theorem Makes.mono {R : α → Prop} {attempt : Attempt α} (h : attempt.Makes P)
    (himplies : ∀ a, P a → R a) : attempt.Makes R := by
  obtain ⟨a, hvalue, ha⟩ := h
  exact ⟨a, hvalue, himplies a ha⟩

theorem Makes.orSkip {attempt : Attempt (List α)} {P : List α → Prop} (h : attempt.Makes P)
    (here : Address) : P (attempt.orSkip here).value := by
  obtain ⟨made, hvalue, hmade⟩ := h
  rw [value_orSkip, hvalue]
  exact hmade

end Attempt

end SchemaForms
