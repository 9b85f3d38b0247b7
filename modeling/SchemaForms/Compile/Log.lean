import SchemaForms.Compile.Error
import SchemaForms.Text.Logged

/-!
What is noted while a template is made. Steps that cannot fail answer a value with the entries they
noted, in order; attempts answer an error instead of a value and keep the entries noted before it.
A failed attempt can be skipped, which is noted as a warning.
-/

namespace SchemaForms

inductive Note where
  | classified (name : String)
  | restatedContent
  | skipped (error : CompileError)
  deriving DecidableEq, Repr

namespace Note

def isWarning : Note → Bool
  | skipped _ => true
  | _ => false

def message : Note → String
  | classified name => "classified as " ++ name
  | restatedContent => "complex restriction renders its declared children only"
  | skipped error => "skipping subtree: " ++ error.message

end Note

structure LogEntry where
  address : Address
  note : Note
  deriving DecidableEq, Repr

/-- Where a bound of the walk was reached, if the entry tells of one. -/
def LogEntry.exhausted? (entry : LogEntry) : Option Address :=
  match entry.note with
  | .skipped (.nestedTooDeep here) => some here
  | _ => none

theorem LogEntry.exhausted?_eq_none_iff {entry : LogEntry} :
    entry.exhausted? = none ↔ ∀ here, entry.note ≠ .skipped (.nestedTooDeep here) := by
  unfold exhausted?
  split
  · rename_i here hnote
    simp [hnote]
  · rename_i hnote
    simpa using hnote

/-- The text of an entry in a log, with its address after it. -/
def LogEntry.line (entry : LogEntry) : String :=
  Text.logged entry.note.message ++ " address=" ++ entry.address.text

structure Logged (α : Type) where
  value : α
  log : List LogEntry
  deriving DecidableEq, Repr

namespace Logged

instance : Monad Logged where
  pure value := ⟨value, []⟩
  bind step next := ⟨(next step.value).value, step.log ++ (next step.value).log⟩

@[simp] theorem value_pure (a : α) : (pure a : Logged α).value = a := rfl

@[simp] theorem log_pure (a : α) : (pure a : Logged α).log = [] := rfl

@[simp] theorem value_bind (step : Logged α) (next : α → Logged β) :
    (step >>= next).value = (next step.value).value := rfl

@[simp] theorem log_bind (step : Logged α) (next : α → Logged β) :
    (step >>= next).log = step.log ++ (next step.value).log := rfl

@[simp] theorem value_map (f : α → β) (step : Logged α) : (f <$> step).value = f step.value := rfl

@[simp] theorem log_map (f : α → β) (step : Logged α) : (f <$> step).log = step.log :=
  List.append_nil _

/-- No entry tells of a bound. -/
def Ended (step : Logged α) : Prop := ∀ entry ∈ step.log, entry.exhausted? = none

instance (step : Logged α) : Decidable step.Ended :=
  inferInstanceAs (Decidable (∀ entry ∈ step.log, entry.exhausted? = none))

theorem ext {a b : Logged α} (value_eq : a.value = b.value) (log_eq : a.log = b.log) : a = b := by
  cases a
  cases b
  simp_all

instance : LawfulMonad Logged := LawfulMonad.mk' Logged
  (fun step => ext rfl (List.append_nil _))
  (fun _ _ => ext rfl (List.nil_append _))
  (fun _ _ _ => ext rfl (List.append_assoc ..))

def note (address : Address) (note : Note) : Logged Unit := ⟨(), [⟨address, note⟩]⟩

@[simp] theorem log_note (address : Address) (note : Note) :
    (Logged.note address note).log = [⟨address, note⟩] := rfl

/-- Joins the answers for all members of a list. -/
def collect (step : α → Logged (List β)) : List α → Logged (List β)
  | [] => return []
  | a :: others => do
    let first ← step a
    return first ++ (← collect step others)

@[simp] theorem value_collect (step : α → Logged (List β)) (as : List α) :
    (collect step as).value = as.flatMap fun a => (step a).value := by
  induction as with
  | nil => rfl
  | cons a others ih => simp [collect, ih]

@[simp] theorem log_collect (step : α → Logged (List β)) (as : List α) :
    (collect step as).log = as.flatMap fun a => (step a).log := by
  induction as with
  | nil => rfl
  | cons a others ih => simp [collect, ih]

end Logged

abbrev Attempt := ExceptT CompileError Logged

namespace Attempt

def note (address : Address) (note : Note) : Attempt Unit := Logged.note address note

/-- What an attempt has made, or nothing and a warning. -/
def orSkip (here : Address) (attempt : Attempt (List α)) : Logged (List α) := do
  match ← attempt.run with
  | .ok nodes => return nodes
  | .error error =>
    Logged.note here (.skipped error)
    return []

theorem value_orSkip (here : Address) (attempt : Attempt (List α)) :
    (attempt.orSkip here).value =
      match attempt.run.value with
      | .ok nodes => nodes
      | .error _ => [] := by
  cases h : attempt.run.value <;> simp [orSkip, h]

theorem log_orSkip (here : Address) (attempt : Attempt (List α)) :
    (attempt.orSkip here).log = attempt.run.log ++
      match attempt.run.value with
      | .ok _ => []
      | .error error => [⟨here, .skipped error⟩] := by
  cases h : attempt.run.value <;> simp [orSkip, h]

end Attempt

end SchemaForms
