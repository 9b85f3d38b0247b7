import SchemaForms.Compile.Content
import SchemaForms.Proofs.Compile.Outcome

/-!
A construct among others. Attributes are shown first, and each construct is shown as it would be
alone, so nothing depends on what stands beside it. A construct that fails leaves nothing behind but
the warning about it: on every way through bases, groups and choices, what can fail is looked up
before anything is noted.
-/

namespace SchemaForms

namespace Attempt

variable {α β : Type}

/-- An attempt that fails has noted nothing before. -/
def FailsCleanly (attempt : Attempt α) : Prop :=
  ∀ error, attempt.run.value = .error error → attempt.run.log = []

theorem FailsCleanly.throw (error : CompileError) :
    FailsCleanly (MonadExcept.throw error : Attempt α) :=
  fun _ _ => rfl

theorem FailsCleanly.of_makes {attempt : Attempt α} {P : α → Prop} (h : attempt.Makes P) :
    attempt.FailsCleanly := by
  obtain ⟨a, hvalue, -⟩ := h
  intro error herror
  rw [hvalue] at herror
  cases herror

theorem FailsCleanly.lift (step : Logged α) : FailsCleanly (liftM step : Attempt α) :=
  .of_makes (.lift (P := fun _ => True) trivial)

/-- Nothing is noted while something is looked up. -/
theorem FailsCleanly.after (result : Except CompileError α) {next : α → Attempt β}
    (hnext : ∀ a, (next a).FailsCleanly) : FailsCleanly (liftM result >>= next) := by
  cases result with
  | ok a => exact hnext a
  | error error => exact .throw error

theorem makes_lift_return (step : Logged α) (finish : α → β) :
    (liftM step >>= fun a => pure (finish a) : Attempt β).Makes fun _ => True :=
  .bind (P := fun _ => True) (.lift trivial) fun _ _ => .pure trivial

/-- What follows may note something if it does not fail. -/
theorem FailsCleanly.before {attempt : Attempt α} {next : α → Attempt β}
    (h : attempt.FailsCleanly) (hnext : ∀ a, (next a).Makes fun _ => True) :
    (attempt >>= next).FailsCleanly := by
  cases hvalue : attempt.run.value with
  | ok a =>
    exact .of_makes (.bind (P := fun _ => True) ⟨a, hvalue, trivial⟩ fun a _ => hnext a)
  | error error =>
    intro failure _
    have hlog : (attempt >>= next).run.log =
        attempt.run.log ++ (ExceptT.bindCont next attempt.run.value).log := rfl
    rw [hlog, hvalue, h error hvalue]
    rfl

theorem orSkip_of_ok {here : Address} {attempt : Attempt (List α)} {made : List α}
    (h : attempt.run.value = .ok made) : attempt.orSkip here = ⟨made, attempt.run.log⟩ :=
  Logged.ext (by rw [value_orSkip, h]) (by rw [log_orSkip, h]; exact List.append_nil _)

theorem FailsCleanly.orSkip_of_error {attempt : Attempt (List α)} (h : attempt.FailsCleanly)
    {here : Address} {error : CompileError} (herror : attempt.run.value = .error error) :
    attempt.orSkip here = ⟨[], [⟨here, .skipped error⟩]⟩ :=
  Logged.ext (by rw [value_orSkip, herror]) (by rw [log_orSkip, h error herror, herror]; rfl)

end Attempt

namespace Compile

open Attempt

/-- Alone, a construct is attempted and skipped if it fails. -/
theorem renderAll_singleton (each : ConstructRenderer) (here : Address) (construct : Construct) :
    renderAll each here [construct] = (each construct).orSkip here := by
  have hfirst : attributesFirst [construct] = [construct] := by
    unfold attributesFirst
    cases hattribute : construct.isAttribute <;> simp [hattribute]
  rw [renderAll, hfirst]
  exact Logged.ext (by simp) (by simp)

namespace Scope

variable (scope : Scope) (here : Address)

section Content

variable (each : ConstructRenderer)

theorem failsCleanly_renderText (row : Option Row) (steps : Nat) (derivation : Derivation) :
    (scope.renderText each here row steps derivation).FailsCleanly := by
  have hbox : ∀ {children : List Construct} (text : List TemplateNode), Makes (do
      let others ← renderAll each here children
      return [TemplateNode.group .box (text ++ others)]) fun _ => True :=
    fun _ => makes_lift_return _ _
  induction steps generalizing derivation with
  | zero => exact .throw _
  | succ steps ih =>
    unfold renderText
    split
    · exact .of_makes (makes_lift_return (Logged.note here _) fun _ => [])
    · refine .after _ fun type => .after _ fun node => ?_
      dsimp only
      split
      · exact .before (ih _) hbox
      · exact .before (.lift (pure _)) hbox

/-- A restriction notes something, but it cannot fail. -/
theorem makes_restated (children : List Construct) :
    Makes (do Attempt.note here .restatedContent; renderAll each here children) fun _ => True :=
  .bind (P := fun _ => True) (.lift trivial) fun _ _ => .lift trivial

theorem failsCleanly_renderDerivation (steps : Nat) (derivation : Derivation) :
    (scope.renderDerivation each here steps derivation).FailsCleanly := by
  induction steps generalizing derivation with
  | zero =>
    obtain ⟨_ | _, base, children⟩ := derivation
    · exact .throw _
    · exact .of_makes (makes_restated here each children)
  | succ steps ih =>
    obtain ⟨_ | _, base, children⟩ := derivation
    · unfold renderDerivation
      refine .after _ fun type => ?_
      dsimp only
      have hadd : ∀ inherited : List TemplateNode,
          Makes (do return inherited ++ (← renderAll each here children)) fun _ => True :=
        fun inherited => makes_lift_return _ (inherited ++ ·)
      split
      · split
        · exact .before (.lift _) hadd
        · exact .before (ih _) hadd
        · exact .before (scope.failsCleanly_renderText here each none _ _) hadd
      · exact .before (.lift (pure _)) hadd
    · exact .of_makes (makes_restated here each children)

end Content

variable (render : Renderer)

theorem failsCleanly_renderChoice (occurs : Occurs) (children : List Construct) :
    (scope.renderChoice render here occurs children).FailsCleanly := by
  refine .after _ fun members => ?_
  split
  · exact .of_makes (makes_lift_return _ (· ++ _))
  · exact .of_makes (makes_lift_return _ (· ++ _))

theorem failsCleanly_renderUse (use : AttributeDeclaration) :
    (scope.renderUse render here use).FailsCleanly :=
  .after _ fun _ => .lift _

/-- However deep a construct has been followed when it fails, nothing was noted. -/
theorem failsCleanly_renderConstruct (depth : Nat) (construct : Construct) :
    (scope.renderConstruct render here depth construct).FailsCleanly := by
  -- no induction on the depth: what fails inside is skipped there, so it is no failure out here
  cases depth with
  | zero => exact .throw _
  | succ depth =>
    cases construct with
    | attributeUse use => exact scope.failsCleanly_renderUse here render use
    | attributeGroup name => exact .after _ fun _ => .lift _
    | simpleContent method base children =>
      exact scope.failsCleanly_renderText here _ none _ ⟨method, base, children⟩
    | complexContent method base children =>
      exact scope.failsCleanly_renderDerivation here _ _ ⟨method, base, children⟩
    | compositor kind occurs children =>
      have hnested : (do
          let nodes ← renderAll (scope.renderConstruct render here depth) here children
          return if nodes.isEmpty then [] else [.group .compositor nodes] :
            Attempt (List TemplateNode)).FailsCleanly :=
        .of_makes (makes_lift_return _ _)
      cases kind with
      | choice => exact scope.failsCleanly_renderChoice here render occurs children
      | sequence => exact hnested
      | all => exact hnested
    | group name occurs =>
      refine .after _ fun group => ?_
      split
      · exact scope.failsCleanly_renderChoice here render _ _
      · exact .lift _
    | element reference occurs => exact .after _ fun _ => .lift _
    | wildcard occurs => exact .lift _
    | other tag => exact .throw _

/-- Attributes are shown first, then the others, each as it is shown alone. One that fails is not
shown, and nothing but its failure is noted. -/
theorem renderAll_alone (depth : Nat) (constructs : List Construct) :
    let each := scope.renderConstruct render here depth
    renderAll each here constructs =
        Logged.collect (fun construct => renderAll each here [construct])
          (constructs.filter Construct.isAttribute ++ constructs.filter (!·.isAttribute)) ∧
      ∀ construct,
        (∀ nodes, (each construct).run.value = .ok nodes →
          renderAll each here [construct] = ⟨nodes, (each construct).run.log⟩) ∧
        (∀ error, (each construct).run.value = .error error →
          renderAll each here [construct] = ⟨[], [⟨here, .skipped error⟩]⟩) := by
  intro each
  refine ⟨?_, fun construct => ?_⟩
  · have halone : (fun construct => renderAll each here [construct]) =
        fun construct => (each construct).orSkip here :=
      funext fun construct => renderAll_singleton each here construct
    rw [halone]
    rfl
  · rw [renderAll_singleton]
    exact ⟨fun _ hvalue => orSkip_of_ok hvalue, fun _ herror =>
      (scope.failsCleanly_renderConstruct here render depth construct).orSkip_of_error herror⟩

end Scope

end Compile

end SchemaForms
