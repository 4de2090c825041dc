import Stepflow.Proofs.Engine.Places

/-!
# Stepflow.Proofs.Engine.Waiting — what tasks wait for

* `TaskId.WaitsFor`: the task of an execution and a detached call wait for gates and times, a caller of `run` for its
  execution, a caller of `join` for executions, a caller of `shutdown` for tasks.
* `Happens.waits`: what waits after an act waited before, or it is the task that had the processor.
* `Sound.waiting`: every task of a sound state waits for what it may wait for.
-/

namespace Stepflow

/-- What a task may wait for. -/
def TaskId.WaitsFor : TaskId → Wait → Prop
  | .course _, on | .delivery _, on => (∃ slot, on = .gate slot) ∨ ∃ due, on = .clock due
  | .caller _, on => ∃ x, on = .tasks [.course x] none
  | .joiner _, on => ∃ xs : List Nat, on = .tasks (xs.map .course) none
  | .closer _, on => ∃ ids due, on = .tasks ids due

section Moves

variable {e : Engine} {on : Wait}

/-- The task of an execution waits for the gate of its resolver or for a time. -/
theorem Moved.waitsFor {x : Nat} {c : Course} {eff : Effect} {stage : Stage} (h : Moved e x c eff)
    (waits : eff.move = .wait stage on) : (TaskId.course x).WaitsFor on := by
  cases h with
  | advanced life advance =>
    cases advance <;> cases waits
    · exact .inr ⟨_, rfl⟩
    · exact .inl ⟨_, rfl⟩
  | @diverted stage life =>
    cases stage with
    | refusing event last => cases last <;> cases waits
    | _ => cases waits

/-- A detached call waits for the gate of its resolver or for a time. -/
theorem MovedDelivery.waitsFor {k : Nat} {d : Delivery} {eff : DeliveryEffect} {stage : DeliveryStage}
    (h : MovedDelivery e d eff) (waits : eff.move = .wait stage on) : (TaskId.delivery k).WaitsFor on := by
  cases h with
  | delivered life delivers =>
    cases delivers <;> cases waits
    · exact .inr ⟨_, rfl⟩
    · exact .inl ⟨_, rfl⟩
  | @diverted stage life => cases stage <;> cases waits

end Moves

namespace Engine

/-- Every task waits for what it may wait for. -/
def Waiting (e : Engine) : Prop := ∀ w ∈ e.waits, w.1.WaitsFor w.2

section Waits

variable {e e' : Engine}

/-- From `e` to `e'` no task begins to wait. -/
def NoneWaits (e e' : Engine) : Prop := e'.waits ⊆ e.waits

theorem NoneWaits.of_eq (waits : e'.waits = e.waits) : NoneWaits e e' := by
  rw [NoneWaits, waits]
  exact List.Subset.refl _

theorem interrupt_noneWaits (e : Engine) (t : TaskId) : NoneWaits e (e.interrupt t) := by
  obtain ⟨-, -, waits⟩ := flag_places e t
  unfold interrupt
  split
  · exact .of_eq rfl
  · dsimp only
    split
    · unfold NoneWaits
      rw [waits]
      exact List.filter_subset_self _
    · exact .of_eq waits

theorem noneWaits_nudging : Nudging NoneWaits where
  refl _ := .of_eq rfl
  trans h h' := List.Subset.trans h' h
  report _ _ _ := .of_eq rfl
  give _ _ _ := .of_eq rfl
  send := interrupt_noneWaits
  flag _ _ := .of_eq rfl

theorem wake_noneWaits (e : Engine) : NoneWaits e e.wake := List.filter_subset_self _

theorem sendCancel_noneWaits (e : Engine) (x : Nat) (c : Course) (reason : String) :
    NoneWaits e (e.sendCancel x c reason) := by
  unfold sendCancel
  split
  · exact .of_eq rfl
  · exact noneWaits_nudging.trans (.of_eq rfl) (interrupt_noneWaits _ _)

theorem markCanceled_noneWaits (e : Engine) (x : Nat) (execution : Execution) (reason : String) :
    NoneWaits e (e.markCanceled x execution reason).1 := by
  refine .of_eq ?_
  unfold markCanceled
  dsimp only
  split
  · unfold announce
    split <;> rfl
  · rfl
  · rfl

theorem undergo_noneWaits (e : Engine) (deed : Deed) : NoneWaits e (e.undergo deed) := by
  cases deed with
  | start workflow initial =>
    dsimp only [undergo, start]
    cases State.freeze initial <;> exact .of_eq rfl
  | cancel x id reason =>
    obtain eq | ⟨y, c, -, -, eq | eq⟩ := cancel_cases e x id reason <;> simp only [undergo, eq]
    · exact .of_eq rfl
    · exact sendCancel_noneWaits e y c reason
    · exact noneWaits_nudging.trans (sendCancel_noneWaits e y c reason) (markCanceled_noneWaits _ _ _ _)
  | cancelRun k => exact interrupt_noneWaits e _
  | cancelJoin k => exact noneWaits_nudging.cancelJoin e k
  | release slot =>
    have opened : NoneWaits e { e with openGates := slot :: e.openGates } := .of_eq rfl
    exact noneWaits_nudging.trans opened (wake_noneWaits _)
  | releaseBus =>
    have opened : NoneWaits e { e with busOpen := true } := .of_eq rfl
    exact noneWaits_nudging.trans opened (wake_noneWaits _)
  | register stepType offered =>
    dsimp only [undergo, register]
    split <;> exact .of_eq rfl
  | pass time =>
    dsimp only [undergo]
    split
    · have later : NoneWaits e { e with clock := time } := .of_eq rfl
      exact noneWaits_nudging.trans later (wake_noneWaits _)
    · exact .of_eq rfl
  | run | join | shutdown | unregister => exact .of_eq rfl

theorem mem_handOn_waits {σ : Type} {t : TaskId} {m : Move σ} {w : TaskId × Wait} (mem : w ∈ (e.handOn t m).waits) :
    w ∈ e.waits ∨ ∃ stage on, m = .wait stage on ∧ w = (t, on) := by
  cases m with
  | go | yield => exact .inl mem
  | stop => exact .inl (wake_noneWaits _ mem)
  | wait stage on =>
    rcases List.mem_append.mp mem with old | new
    · exact .inl old
    · exact .inr ⟨stage, on, rfl, List.mem_singleton.mp new⟩

/-! What callers of the host wait for. -/

theorem moveCaller_waitsFor (e : Engine) (k : Nat) (stage : CallerStage) :
    NoneWaits e (e.moveCaller k stage).1 ∧
      ∀ next on, (e.moveCaller k stage).2 = .wait next on → (TaskId.caller k).WaitsFor on := by
  cases stage with
  | entering workflow initial =>
    dsimp only [moveCaller]
    cases State.freeze initial with
    | error f => exact ⟨.of_eq rfl, fun _ _ move => by cases move⟩
    | ok state =>
      refine ⟨.of_eq rfl, fun _ _ move => ?_⟩
      cases move
      exact ⟨_, rfl⟩
  | awaiting | surrendering => exact ⟨.of_eq rfl, fun _ _ move => by cases move⟩

theorem cancelCaller_waitsFor (e : Engine) (k : Nat) {stage next : CallerStage} {on : Wait}
    (move : (e.cancelCaller stage).2 = .wait next on) : (TaskId.caller k).WaitsFor on := by
  cases stage with
  | awaiting x =>
    dsimp only [cancelCaller] at move
    split at move
    · cases move
    · cases move
      exact ⟨_, rfl⟩
  | entering | surrendering => cases move

theorem moveJoiner_waitsFor (e : Engine) (k : Nat) {stage next : JoinerStage} {on : Wait}
    (move : (e.moveJoiner stage).2 = .wait next on) : (TaskId.joiner k).WaitsFor on := by
  cases stage with
  | watching =>
    dsimp only [moveJoiner] at move
    split at move
    · cases move
    · cases move
      exact ⟨_, rfl⟩

theorem moveCloser_waitsFor (e : Engine) (k : Nat) {stage next : CloserStage} {on : Wait}
    (move : (e.moveCloser stage).2 = .wait next on) : (TaskId.closer k).WaitsFor on := by
  cases stage with
  | flushing deadline =>
    dsimp only [moveCloser] at move
    split at move
    · cases move
    · split at move <;> cases move <;> exact ⟨_, _, rfl⟩
  | sweeping => cases move

/-- What waits after an act waited before, or it is the task that had the processor and waits for what it may wait for. -/
theorem Happens.waits {a : Act} (h : Happens e a e') {w : TaskId × Wait} (mem : w ∈ e'.waits) :
    w ∈ e.waits ∨ e.current = some w.1 ∧ w.1.WaitsFor w.2 := by
  have old : NoneWaits e e' → w ∈ e.waits ∨ e.current = some w.1 ∧ w.1.WaitsFor w.2 := fun none => .inl (none mem)
  have handed {σ : Type} {e₁ : Engine} {t : TaskId} {m : Move σ} (mem : w ∈ (e₁.handOn t m).waits)
      (none : NoneWaits e e₁) (current : e.current = some t) (waits : ∀ stage on, m = .wait stage on → t.WaitsFor on) :
      w ∈ e.waits ∨ e.current = some w.1 ∧ w.1.WaitsFor w.2 := by
    rcases mem_handOn_waits mem with before | ⟨stage, on, move, rfl⟩
    · exact .inl (none before)
    · exact .inr ⟨current, waits stage on move⟩
  cases h with
  | still | chosen | vacant => exact old (.of_eq rfl)
  | course current at_x moved => exact handed mem (.of_eq rfl) current (fun _ _ => moved.waitsFor)
  | delivery current at_k moved => exact handed mem (.of_eq rfl) current (fun _ _ => moved.waitsFor)
  | @caller _ k c stage current =>
    obtain ⟨none, waits⟩ := moveCaller_waitsFor e k stage
    exact handed mem none current waits
  | @callerCanceled _ k c stage current =>
    exact handed mem (noneWaits_nudging.cancelCaller e stage) current fun _ _ => cancelCaller_waitsFor e k
  | @joiner _ k stage current =>
    exact handed mem (noneWaits_nudging.moveJoiner e stage) current fun _ _ => moveJoiner_waitsFor e k
  | @closer _ k stage current =>
    exact handed mem (noneWaits_nudging.moveCloser e stage) current fun _ _ => moveCloser_waitsFor e k
  | joinerCanceled current => exact handed mem (.of_eq rfl) current (fun _ _ move => by cases move)
  | closerCanceled current => exact handed mem (.of_eq rfl) current (fun _ _ move => by cases move)
  | host => exact old (undergo_noneWaits e _)

/-- **Waiting**: every task of a sound state waits for what it may wait for. -/
theorem Sound.waiting (h : e.Sound) : e.Waiting := by
  refine h.induction (I := Waiting) ?_ ?_
  · intro settings process bus registry w mem
    cases mem
  · intro e a sound _ _ waiting w mem
    rcases (sound.happens a).waits mem with before | ⟨-, waits⟩
    · exact waiting w before
    · exact waits

/-- Those whom a caller of `join` waits for are executions. -/
theorem Waiting.awaited {k : Nat} (h : e.Waiting) : ∀ t ∈ e.awaited (.joiner k), ∃ x, t = .course x := by
  intro t mem
  unfold Engine.awaited at mem
  split at mem
  · next ids due found =>
    obtain ⟨before, after, waits, -⟩ := List.lookup_eq_some_iff.mp found
    obtain ⟨xs, eq⟩ := h (.joiner k, .tasks ids due) (by rw [waits]; simp)
    obtain ⟨rfl, -⟩ : ids = xs.map .course ∧ due = none := by simpa using eq
    obtain ⟨x, -, rfl⟩ := List.mem_map.mp mem
    exact ⟨x, rfl⟩
  · cases mem

end Waits

end Engine

end Stepflow
