import Stepflow.Proofs.Engine.Fate

/-!
# Stepflow.Proofs.Engine.Announcing — what an act announces

* `Announces`: an act announces what the task that moves announces, the cancellation that the host orders of an execution
  that has not begun or whose task is over, or nothing; and then executions are at most sent a cancellation.
* `Happens.announces`: so it is for every act on an orderly calm engine.
-/

namespace Stepflow.Engine

/-- Executions and detached calls are at most sent a cancellation, executions may be accepted, and nothing is noted or
announced. -/
structure Silent (e e' : Engine) : Prop where
  courses : ∀ (x : Nat) (c : Course), e.courses[x]? = some c → ∃ c', e'.courses[x]? = some c' ∧ Signaled c c'
  deliveries : Pointwise SignaledDelivery e.deliveries e'.deliveries
  calls : e'.calls = e.calls
  events : e'.events = e.events

/-- What an act announces, and what it does to executions, detached calls and notes besides. -/
inductive Announces (e e' : Engine) : Prop
  | course {y : Nat} {c : Course} {eff : Effect} (current : e.current = some (.course y))
      (at_y : e.courses[y]? = some c) (moved : Moved e y c eff) (after : e'.courses[y]? = some (eff.course c))
      (others : ∀ x ≠ y, x < e.courses.length → e'.courses[x]? = e.courses[x]?)
      (deliveries : e'.deliveries = e.deliveries ++ eff.dispatched.toList) (calls : e'.calls = e.calls ++ eff.notes)
      (events : e'.events = e.events ++ if e.bus.isSome then eff.events else [])
  | delivery {k : Nat} {d : Delivery} {eff : DeliveryEffect} (at_k : e.deliveries[k]? = some d)
      (moved : MovedDelivery e d eff) (courses : e'.courses = e.courses)
      (deliveries : e'.deliveries = e.deliveries.set k { d with life := lifeAfter eff.move })
      (calls : e'.calls = e.calls ++ eff.notes) (events : e'.events = e.events ++ if e.bus.isSome then eff.events else [])
  | canceled {y : Nat} {c c' : Course} {names : List String} {reason : String} (at_y : e.courses[y]? = some c)
      (marked : Marked e.clock c c') (names_eq : c.execution.names = .ok names)
      (execution : c'.execution = c.execution.canceledFor e.clock names reason) (courses : e'.courses = e.courses.set y c')
      (deliveries : Pointwise SignaledDelivery e.deliveries e'.deliveries) (calls : e'.calls = e.calls)
      (events : e'.events = e.events ++ if e.bus.isSome then [.canceled y reason] else [])
  | silent (silent : Silent e e')

section Events

variable {e e' : Engine} {a : Act} {x : Nat} {c : Course}

theorem interrupt_events (e : Engine) (t : TaskId) : (e.interrupt t).events = e.events := by
  have flagged : (e.flag t).events = e.events := by cases t <;> rfl
  unfold interrupt
  split
  · rfl
  · dsimp only
    split <;> exact flagged

theorem handOn_events {σ : Type} (e : Engine) (t : TaskId) (m : Move σ) : (e.handOn t m).events = e.events := by
  cases m <;> rfl

theorem sendCancel_events (e : Engine) (x : Nat) (c : Course) (reason : String) :
    (e.sendCancel x c reason).events = e.events := by
  unfold sendCancel
  split
  · rfl
  · exact interrupt_events _ _

/-! ## Acts -/

/-- Signals are silent, and so is the acceptance of executions. -/
theorem Signals.silent {e₁ : Engine} (signals : Signals e e₁) {more : List Course}
    (courses : e'.courses = e₁.courses ++ more) (deliveries : e'.deliveries = e₁.deliveries)
    (calls : e'.calls = e₁.calls) (events : e'.events = e.events) : Silent e e' := by
  refine ⟨fun x c hx => ?_, deliveries ▸ signals.deliveries, calls.trans signals.calls, events⟩
  obtain ⟨c', hx', signaled⟩ := signals.courses.2 x c hx
  refine ⟨c', ?_, signaled⟩
  rw [courses, List.getElem?_append_left (List.getElem?_eq_some_iff.mp hx').1]
  exact hx'

/-- The processor, the queue, the waits and the observers say nothing. -/
theorem Silent.congr {e'' : Engine} (h : Silent e e') (courses : e''.courses = e'.courses)
    (deliveries : e''.deliveries = e'.deliveries) (calls : e''.calls = e'.calls) (events : e''.events = e'.events) :
    Silent e e'' :=
  ⟨by rw [courses]; exact h.courses, deliveries ▸ h.deliveries, calls.trans h.calls, events.trans h.events⟩

theorem Silent.refl (e : Engine) : Silent e e := (Signals.refl e).silent (List.append_nil _).symm rfl rfl rfl

theorem Silent.handOn {σ : Type} (h : Silent e e') (t : TaskId) (m : Move σ) : Silent e (e'.handOn t m) :=
  h.congr (handOn_courses e' t m) (handOn_deliveries e' t m) (handOn_calls e' t m) (handOn_events e' t m)

/-- What caller, joiner or closer does with its turn. -/
theorem silent_nudging : Nudging Silent where
  refl := .refl
  trans {e e' e''} h h' := by
    refine ⟨fun x c hx => ?_, h.deliveries.trans (fun _ _ _ => SignaledDelivery.trans) h'.deliveries,
      h'.calls.trans h.calls, h'.events.trans h.events⟩
    obtain ⟨c', hx', signaled⟩ := h.courses x c hx
    obtain ⟨c'', hx'', signaled'⟩ := h'.courses x c' hx'
    exact ⟨c'', hx'', signaled.trans signaled'⟩
  report e _ _ := (Signals.refl e).silent (List.append_nil _).symm rfl rfl rfl
  give e x reason := (giveReason_signals e x reason).silent (List.append_nil _).symm rfl rfl rfl
  send e t := (interrupt_signals e t).silent (List.append_nil _).symm rfl rfl (interrupt_events e t)
  flag e k := (flag_signals e (.joiner k)).silent (List.append_nil _).symm rfl rfl rfl

theorem cancel_announces (calm : e.Calm) (orderly : e.Orderly) (x : Option Nat) (id reason : String) :
    Announces e (e.cancel x id reason).1 := by
  cases x with
  | none => exact .silent (.refl e)
  | some x =>
    cases hx : e.courses[x]? with
    | none => simpa [cancel, hx] using Announces.silent (.refl e)
    | some c =>
      by_cases finished : c.execution.isFinished = true
      · simpa [cancel, hx, finished] using Announces.silent (.refl e)
      · have unfinished : c.execution.isFinished = false := by simpa using finished
        obtain ⟨names, names_eq⟩ := orderly.names hx
        obtain ⟨c', touched, courses, -⟩ := cancel_touched calm hx names_eq unfinished id reason
        have signals := sendCancel_signals e x c reason
        have sent := cancel_eq hx unfinished id reason
        -- only an execution that is marked at once is announced as canceled here; else its task will announce it
        by_cases marks : c.execution.status = .idle ∨ c.life.isOver = true
        · obtain ⟨c₁, at_x, signaled⟩ := signals.courses.2 x c hx
          have names_eq₁ : c₁.execution.names = .ok names := by rw [signaled.execution]; exact names_eq
          have marking := markCanceled_calm (fun react hr => calm react (signals.bus ▸ hr)) at_x names_eq₁ reason
          rw [if_pos marks, ← signaled.execution, marking] at sent
          have execution : c'.execution = c.execution.canceledFor e.clock names reason := by
            have at_x' := set_getElem? (b := c') hx
            rw [← courses, sent, set_getElem? at_x, signaled.execution, sendCancel_clock] at at_x'
            rw [← Option.some.inj at_x']
          refine .canceled hx ?_ names_eq execution courses ?_ ?_ ?_
          · refine touched.resolve_left fun same => ?_
            have unchanged := same.1.execution
            rw [execution] at unchanged
            have status : Status.canceled = c.execution.status := congrArg Execution.status unchanged
            simp [Execution.isFinished, ← status, Status.isFinished] at unfinished
          · rw [sent]
            exact signals.deliveries
          · rw [sent]
            exact signals.calls
          · rw [sent, signals.bus]
            exact congrArg (· ++ _) (sendCancel_events e x c reason)
        · rw [if_neg marks] at sent
          rw [sent]
          exact .silent (signals.silent (List.append_nil _).symm rfl rfl (sendCancel_events e x c reason))

theorem undergo_announces (calm : e.Calm) (orderly : e.Orderly) (deed : Deed) : Announces e (e.undergo deed) := by
  have same := Silent.refl e
  cases deed with
  | start workflow initial =>
    dsimp only [undergo, start]
    cases State.freeze initial with
    | error f => exact .silent same
    | ok state => exact .silent ((Signals.refl e).silent rfl rfl rfl rfl)
  | cancel x id reason => exact cancel_announces calm orderly x id reason
  | cancelRun k => exact .silent (silent_nudging.send e _)
  | cancelJoin k => exact .silent (silent_nudging.cancelJoin e k)
  | register stepType offered =>
    dsimp only [undergo, register]
    split <;> exact .silent (same.congr rfl rfl rfl rfl)
  | pass time =>
    dsimp only [undergo]
    split <;> exact .silent (same.congr rfl rfl rfl rfl)
  | run | join | shutdown | release | releaseBus | unregister => exact .silent (same.congr rfl rfl rfl rfl)

theorem moveCaller_silent (e : Engine) (k : Nat) (stage : CallerStage) : Silent e (e.moveCaller k stage).1 := by
  cases stage with
  | entering workflow initial =>
    dsimp only [moveCaller]
    cases State.freeze initial with
    | error f => exact .refl e
    | ok state => exact (Signals.refl e).silent rfl rfl rfl rfl
  | awaiting | surrendering => exact .refl e

/-- **What an act announces** on an orderly calm engine. -/
theorem Happens.announces (h : Happens e a e') (calm : e.Calm) (orderly : e.Orderly) : Announces e e' := by
  have same := Silent.refl e
  -- handing the processor on announces nothing
  have settled : ∀ {σ : Type} {e₁ e₂ : Engine} (t : TaskId) (m : Move σ), Silent e e₁ → e₂.courses = e₁.courses →
      e₂.deliveries = e₁.deliveries → e₂.calls = e₁.calls → e₂.events = e₁.events → Announces e (e₂.handOn t m) :=
    fun t m silent courses deliveries calls events => .silent ((silent.congr courses deliveries calls events).handOn t m)
  cases h with
  | still => exact .silent same
  | chosen | vacant => exact .silent (same.congr rfl rfl rfl rfl)
  | @course place y c eff journal log current at_y moved =>
    have lt := (List.getElem?_eq_some_iff.mp at_y).1
    refine .course current at_y moved ?_ (fun x ne hlt => ?_) (handOn_deliveries _ _ _) (handOn_calls _ _ _)
      (handOn_events _ _ _)
    · rw [handOn_courses]
      simp [realize, List.getElem?_append_left, lt]
    · rw [handOn_courses, realize, List.getElem?_append_left (by simpa using hlt), List.getElem?_set_ne (Ne.symm ne)]
  | @delivery place k d eff journal log current at_k moved =>
    exact .delivery at_k moved (handOn_courses _ _ _) (handOn_deliveries _ _ _) (handOn_calls _ _ _)
      (handOn_events _ _ _)
  | @caller place k c stage =>
    exact settled (.caller k) (e.moveCaller k stage).2 (moveCaller_silent e k stage) rfl rfl rfl rfl
  | @callerCanceled place k c stage =>
    exact settled (.caller k) (e.cancelCaller stage).2 (silent_nudging.cancelCaller e stage) rfl rfl rfl rfl
  | @joiner place k stage =>
    exact settled (.joiner k) (e.moveJoiner stage).2 (silent_nudging.moveJoiner e stage) rfl rfl rfl rfl
  | @closer place k stage =>
    exact settled (.closer k) (e.moveCloser stage).2 (silent_nudging.moveCloser e stage) rfl rfl rfl rfl
  | @joinerCanceled place k =>
    exact settled (σ := JoinerStage) (.joiner k) (.stop .canceled) same rfl rfl rfl rfl
  | @closerCanceled place k =>
    exact settled (σ := CloserStage) (.closer k) (.stop .canceled) same rfl rfl rfl rfl
  | host => exact undergo_announces calm orderly _

/-- One execution is marked, and no other. -/
theorem touched_of_set {y : Nat} {c₁ c₂ : Course} (marked : Marked e.clock c₁ c₂) (at_y : e.courses[y]? = some c₁)
    (courses : e'.courses = e.courses.set y c₂) (hx : e.courses[x]? = some c) :
    ∃ c', e'.courses[x]? = some c' ∧ Touched e.clock c c' := by
  by_cases same : y = x
  · subst same
    obtain rfl : c = c₁ := Option.some.inj (hx.symm.trans at_y)
    exact ⟨c₂, by rw [courses]; exact set_getElem? hx, .inr marked⟩
  · exact ⟨c, by rw [courses, List.getElem?_set_ne same]; exact hx, .refl _ c⟩

/-- An execution whose own task does not move is at most touched. -/
theorem Announces.touched (h : Announces e e') (hx : e.courses[x]? = some c) :
    (∃ eff, e.current = some (.course x) ∧ Moved e x c eff ∧ e'.courses[x]? = some (eff.course c)) ∨
      ∃ c', e'.courses[x]? = some c' ∧ Touched e.clock c c' := by
  have lt := (List.getElem?_eq_some_iff.mp hx).1
  cases h with
  | @course y c₁ eff current at_y moved after others =>
    by_cases same : x = y
    · subst same
      obtain rfl : c = c₁ := Option.some.inj (hx.symm.trans at_y)
      exact .inl ⟨eff, current, moved, after⟩
    · exact .inr ⟨c, (others x same lt).trans hx, .refl _ c⟩
  | delivery _ _ courses => exact .inr ⟨c, courses ▸ hx, .refl _ c⟩
  | canceled at_y marked _ _ courses => exact .inr (touched_of_set marked at_y courses hx)
  | silent silent =>
    obtain ⟨c', hx', signaled⟩ := silent.courses x c hx
    exact .inr ⟨c', hx', .inl signaled⟩

theorem Sound.announces (h : e.Sound) (a : Act) : Announces e (e.act a) := (h.happens a).announces h.calm h.orderly

end Events

end Stepflow.Engine
