import Stepflow.Engine.Control

/-!
# Stepflow.Proofs.Engine.Nudging — relations that small changes keep

Those who wait for executions change an engine by a few small steps: they tell the log, give reasons and send
cancellations.  A relation between engines that each of these steps keeps (`Nudging`) is kept by what a caller, a joiner
or a closer does with its turn, and when the host cancels a joiner.
-/

namespace Stepflow.Engine

/-- A relation that is kept by telling the log, giving reasons and sending cancellations; a joiner may be told of its
cancellation while it waits on. -/
structure Nudging (R : Engine → Engine → Prop) : Prop where
  refl : ∀ e, R e e
  trans : ∀ {e e' e'' : Engine}, R e e' → R e' e'' → R e e''
  report : ∀ e level message, R e (e.report level message)
  give : ∀ e x reason, R e (e.giveReason x reason)
  send : ∀ e t, R e (e.interrupt t)
  flag : ∀ e k, R e (e.flag (.joiner k))

section Nudging

variable {R : Engine → Engine → Prop}

theorem Nudging.foldl {α : Type} (h : Nudging R) (f : Engine → α → Engine) (hf : ∀ e a, R e (f e a)) (as : List α)
    (e : Engine) : R e (as.foldl f e) := by
  induction as generalizing e with
  | nil => exact h.refl e
  | cons a as ih => exact h.trans (hf e a) (ih (f e a))

theorem Nudging.interruptAll (h : Nudging R) (e : Engine) (ts : List TaskId) : R e (e.interruptAll ts) :=
  h.foldl interrupt h.send ts e

theorem Nudging.sweep (h : Nudging R) (e : Engine) : R e e.sweep.1 := by
  have told := h.report e .warning
    ("Shutdown timed out with " ++ toString e.pending.length ++ " pending task(s); canceling")
  exact h.trans (h.trans told (h.foldl _ (fun e x => h.give e x shutdownReason) _ _)) (h.interruptAll _ _)

theorem Nudging.moveCloser (h : Nudging R) (e : Engine) (stage : CloserStage) : R e (e.moveCloser stage).1 := by
  cases stage with
  | flushing deadline =>
    dsimp only [Engine.moveCloser]
    split
    · exact h.refl e
    · split
      · exact h.sweep e
      · exact h.refl e
  | sweeping => exact h.refl e

theorem Nudging.moveJoiner (h : Nudging R) (e : Engine) (stage : JoinerStage) : R e (e.moveJoiner stage).1 := by
  cases stage with
  | watching =>
    dsimp only [Engine.moveJoiner]
    split <;> exact h.refl e

theorem Nudging.cancelCaller (h : Nudging R) (e : Engine) (stage : CallerStage) : R e (e.cancelCaller stage).1 := by
  cases stage with
  | awaiting x =>
    dsimp only [Engine.cancelCaller]
    split
    · exact h.refl e
    · exact h.trans (h.give e x callerReason) (h.send _ _)
  | entering | surrendering => exact h.refl e

theorem Nudging.cancelJoin (h : Nudging R) (e : Engine) (k : Nat) : R e (e.cancelJoin k) := by
  unfold Engine.cancelJoin
  split
  · exact h.send e _
  · exact h.trans (h.interruptAll e _) (h.flag _ k)

end Nudging

end Stepflow.Engine
