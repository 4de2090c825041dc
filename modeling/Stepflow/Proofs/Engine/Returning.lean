import Mathlib.Data.Nat.Find
import Stepflow.Proofs.Engine.Dispatching
import Stepflow.Proofs.Engine.Unharmed
import Stepflow.Proofs.Freezing
import Stepflow.Resolver.Rehearsed

/-!
# Stepflow.Proofs.Engine.Returning — a caller of `run` gets an outcome

* `Minds`: a caller of `run` stays where it is and waits on.  `Happens.abides`: it does so in every act but its own turn and
  its cancellation, unless what it waits for has come.
* `exists_turn_of_caller`: it has a turn, and is then where it was.
* `Serene`: what is assumed of an endless run.  `run_returns`: a caller of `run` gets an execution that has completed or failed,
  and once a join returns so has everything below it.
* `numberedRun_raises`: where a name is no text, a run may raise and leave its execution running.
-/

namespace Stepflow.Engine

/-! ## Callers that wait -/

/-- From `e` to `e'` caller number `k` of `run` stays where it is and waits on. -/
structure Minds (k : Nat) (e e' : Engine) : Prop where
  caller : ∀ c, e.callers[k]? = some c → e'.callers[k]? = some c
  waits : ∀ on, (TaskId.caller k, on) ∈ e.waits → (TaskId.caller k, on) ∈ e'.waits

section Minds

variable {e e' e'' : Engine} {k : Nat}

theorem Minds.of_eq (callers : e'.callers = e.callers) (waits : e'.waits = e.waits) : Minds k e e' where
  caller c at_k := by rw [callers]; exact at_k
  waits on mem := by rw [waits]; exact mem

theorem Minds.refl (e : Engine) : Minds k e e := .of_eq rfl rfl

theorem Minds.trans (h : Minds k e e') (h' : Minds k e' e'') : Minds k e e'' where
  caller c at_k := h'.caller c (h.caller c at_k)
  waits on mem := h'.waits on (h.waits on mem)

theorem interrupt_minds (e : Engine) {t : TaskId} (ne : t ≠ .caller k) : Minds k e (e.interrupt t) := by
  obtain ⟨-, -, waits⟩ := flag_places e t
  have flagged : Minds k e (e.flag t) := by
    refine ⟨fun c at_k => ?_, fun on mem => by rw [waits]; exact mem⟩
    cases t with
    | caller j =>
      have other : j ≠ k := fun eq => ne (by rw [eq])
      simpa [flag, other] using at_k
    | course | delivery | joiner | closer => exact at_k
  unfold interrupt
  split
  · exact .refl e
  · dsimp only
    split
    · refine flagged.trans ⟨fun c => id, fun on mem => List.mem_filter.mpr ⟨mem, ?_⟩⟩
      simpa using fun eq : TaskId.caller k = t => ne eq.symm
    · exact flagged

theorem interruptAll_minds {ts : List TaskId} (e : Engine) (others : ∀ t ∈ ts, t ≠ .caller k) :
    Minds k e (e.interruptAll ts) := by
  induction ts generalizing e with
  | nil => exact .refl e
  | cons t ts ih =>
    have first := interrupt_minds e (others t List.mem_cons_self)
    have rest := ih (e.interrupt t) fun s mem => others s (List.mem_cons_of_mem t mem)
    exact first.trans rest

theorem sweep_minds (e : Engine) : Minds k e e.sweep.1 := by
  have given (xs : List Nat) (e : Engine) : Minds k e (xs.foldl (fun e x => e.giveReason x shutdownReason) e) := by
    induction xs generalizing e with
    | nil => exact .refl e
    | cons x xs ih =>
      have first : Minds k e (e.giveReason x shutdownReason) := .of_eq rfl rfl
      exact first.trans (ih _)
  have told : Minds k e (e.report .warning
      ("Shutdown timed out with " ++ toString e.pending.length ++ " pending task(s); canceling")) := .of_eq rfl rfl
  refine (told.trans (given _ _)).trans (interruptAll_minds _ fun t mem => ?_)
  rcases List.mem_append.mp mem with course | delivery
  · obtain ⟨x, -, rfl⟩ := List.mem_map.mp course
    simp
  · obtain ⟨j, -, rfl⟩ := List.mem_map.mp delivery
    simp

theorem moveCloser_minds (e : Engine) (stage : CloserStage) : Minds k e (e.moveCloser stage).1 := by
  rcases moveCloser_cases e stage with eq | eq <;> rw [eq]
  · exact .refl e
  · exact sweep_minds e

theorem cancelCaller_minds (e : Engine) (stage : CallerStage) : Minds k e (e.cancelCaller stage).1 := by
  cases stage with
  | awaiting x =>
    dsimp only [cancelCaller]
    split
    · exact .refl e
    · have given : Minds k e (e.giveReason x callerReason) := .of_eq rfl rfl
      exact given.trans (interrupt_minds _ (by simp))
  | entering | surrendering => exact .refl e

theorem moveJoiner_minds (e : Engine) (stage : JoinerStage) : Minds k e (e.moveJoiner stage).1 := by
  cases stage with
  | watching =>
    dsimp only [moveJoiner]
    split <;> exact .refl e

theorem cancelJoin_minds (e : Engine) (waiting : e.Waiting) (j : Nat) : Minds k e (e.cancelJoin j) := by
  unfold cancelJoin
  split
  · exact interrupt_minds e (by simp)
  · have sent : Minds k e (e.interruptAll ((e.awaited (.joiner j)).filter fun t => !e.isOver t)) := by
      refine interruptAll_minds e fun t mem => ?_
      obtain ⟨x, rfl⟩ := waiting.awaited t (List.mem_filter.mp mem).1
      simp
    exact sent.trans (.of_eq rfl rfl)

theorem cancel_minds (e : Engine) (x : Option Nat) (id reason : String) : Minds k e (e.cancel x id reason).1 := by
  have sent : ∀ y c, Minds k e (e.sendCancel y c reason) := by
    intro y c
    unfold sendCancel
    split
    · exact .refl e
    · have given : Minds k e (e.setReason y reason) := .of_eq rfl rfl
      exact given.trans (interrupt_minds _ (by simp))
  have marked : ∀ (e : Engine) y execution, Minds k e (e.markCanceled y execution reason).1 := by
    intro e y execution
    refine .of_eq (markCanceled_callers e y execution reason) ?_
    unfold markCanceled
    dsimp only
    split
    · unfold announce
      split <;> rfl
    · rfl
    · rfl
  obtain eq | ⟨y, c, -, -, eq | eq⟩ := cancel_cases e x id reason <;> rw [eq]
  · exact .refl e
  · exact sent y c
  · exact (sent y c).trans (marked _ _ _)

/-- Caller number `k` stays where it is; what it waits for goes on or has come. -/
structure Abides (k : Nat) (e e' : Engine) : Prop where
  caller : ∀ c, e.callers[k]? = some c → e'.callers[k]? = some c
  waits : ∀ x, (TaskId.caller k, Wait.tasks [.course x] none) ∈ e.waits →
    (TaskId.caller k, Wait.tasks [.course x] none) ∈ e'.waits ∨ e'.isOver (.course x) = true

theorem Minds.abides (h : Minds k e e') : Abides k e e' := ⟨h.caller, fun _ mem => .inl (h.waits _ mem)⟩

theorem Minds.wake (h : Minds k e e') : Abides k e e'.wake where
  caller := h.caller
  waits x mem := by
    by_cases due : e'.isDue (.tasks [.course x] none) = true
    · refine .inr ?_
      have ceased : e'.isOver (.course x) = true := by simpa [isDue] using due
      exact ceased
    · exact .inl (List.mem_filter.mpr ⟨h.waits _ mem, by simpa using due⟩)

theorem Minds.handOn {σ : Type} (h : Minds k e e') (t : TaskId) (m : Move σ) : Abides k e (e'.handOn t m) := by
  cases m with
  | go => exact h.abides
  | yield stage =>
    have queued : Minds k e' { e' with current := none, ready := e'.ready ++ [t] } := .of_eq rfl rfl
    exact (h.trans queued).abides
  | wait stage on =>
    have waiting : Minds k e' { e' with current := none, waits := e'.waits ++ [(t, on)] } :=
      ⟨fun _ => id, fun _ mem => List.mem_append_left _ mem⟩
    exact (h.trans waiting).abides
  | stop =>
    have gone : Minds k e' { e' with current := none } := .of_eq rfl rfl
    exact (h.trans gone).wake

theorem undergo_abides (e : Engine) (waiting : e.Waiting) {deed : Deed} (ne : deed ≠ .cancelRun k) :
    Abides k e (e.undergo deed) := by
  cases deed with
  | start workflow initial =>
    dsimp only [undergo, start]
    cases State.freeze initial with
    | error f => exact (Minds.refl e).abides
    | ok state => exact Minds.abides (.of_eq rfl rfl)
  | run workflow initial =>
    refine Minds.abides ⟨fun c at_k => ?_, fun _ => id⟩
    have lt := (List.getElem?_eq_some_iff.mp at_k).1
    simpa [undergo, run, List.getElem?_append_left, lt] using at_k
  | cancel x id reason => exact (cancel_minds e x id reason).abides
  | cancelRun j => exact (interrupt_minds e fun eq => ne (by injection eq with eq; rw [eq])).abides
  | cancelJoin j => exact (cancelJoin_minds e waiting j).abides
  | release slot =>
    have opened : Minds k e { e with openGates := slot :: e.openGates } := .of_eq rfl rfl
    exact opened.wake
  | releaseBus =>
    have opened : Minds k e { e with busOpen := true } := .of_eq rfl rfl
    exact opened.wake
  | register stepType offered =>
    dsimp only [undergo, register]
    split <;> exact Minds.abides (.of_eq rfl rfl)
  | pass time =>
    dsimp only [undergo]
    split
    · have later : Minds k e { e with clock := time } := .of_eq rfl rfl
      exact later.wake
    · exact (Minds.refl e).abides
  | join | shutdown | unregister => exact Minds.abides (.of_eq rfl rfl)

/-- **A caller of `run` that does not have the processor** stays where it is, unless it is canceled itself. -/
theorem Happens.abides {a : Act} (h : Happens e a e') (waiting : e.Waiting) (away : e.current ≠ some (.caller k))
    (ne : a ≠ .host (.cancelRun k)) : Abides k e e' := by
  cases h with
  | still => exact (Minds.refl e).abides
  | chosen | vacant => exact Minds.abides (.of_eq rfl rfl)
  | course | delivery => exact Minds.handOn (by exact .of_eq rfl rfl) _ _
  | @caller place j c stage current =>
    have other : j ≠ k := fun eq => away (by rw [current, eq])
    refine Minds.handOn ?_ _ _
    cases stage with
    | entering workflow initial =>
      dsimp only [moveCaller]
      cases State.freeze initial with
      | error f => exact ⟨fun c at_k => by simpa [other] using at_k, fun _ => id⟩
      | ok state => exact ⟨fun c at_k => by simpa [other, submit] using at_k, fun _ => id⟩
    | awaiting | surrendering => exact ⟨fun c at_k => by simpa [moveCaller, other] using at_k, fun _ => id⟩
  | @callerCanceled place j c stage current =>
    have other : j ≠ k := fun eq => away (by rw [current, eq])
    refine Minds.handOn ((cancelCaller_minds e stage).trans ?_) _ _
    exact ⟨fun c at_k => by simpa [other] using at_k, fun _ => id⟩
  -- all others send signals to executions and detached calls only
  | @joiner place j stage => exact Minds.handOn (by exact (moveJoiner_minds e stage).trans (.of_eq rfl rfl)) _ _
  | joinerCanceled | closerCanceled => exact Minds.handOn (by exact .of_eq rfl rfl) _ _
  | @closer place j stage => exact Minds.handOn (by exact (moveCloser_minds e stage).trans (.of_eq rfl rfl)) _ _
  | @host deed => exact undergo_abides e waiting fun eq => ne (by rw [eq])

end Minds

/-! ## The turns of a caller -/

section Caller

variable {e : Engine} {acts : Nat → Act} {k : Nat}

/-- Caller number `k` waits for execution number `x`, or that is over. -/
def Expects (e : Engine) (k x : Nat) : Prop :=
  (TaskId.caller k, Wait.tasks [.course x] none) ∈ e.waits ∨ e.isOver (.course x) = true

variable (fair : e.Fair acts) (sound : ∀ n, (e.after acts n).Sound) (uncanceled : ∀ n, acts n ≠ .host (.cancelRun k))

include fair sound uncanceled

/-- A caller stays where it is until its turn, and does not miss the end of its execution. -/
theorem caller_kept {n m : Nat} (le : n ≤ m) {c : Caller} (at_k : (e.after acts n).callers[k]? = some c)
    (idle : ∀ j, n ≤ j → j < m → ¬ ((e.after acts j).current = some (.caller k) ∧ acts j = .turn 0)) :
    (e.after acts m).callers[k]? = some c ∧ ∀ x, x < (e.after acts n).courses.length → (e.after acts n).Expects k x →
      (e.after acts m).Expects k x := by
  induction m, le using Nat.le_induction with
  | base => exact ⟨at_k, fun x _ => id⟩
  | succ m le ih =>
    obtain ⟨kept, expects⟩ := ih fun j le' lt => idle j le' (by omega)
    have away := idle m le (by omega)
    -- while it has the processor without a turn nothing happens; without it, the caller stays where it is
    by_cases current : (e.after acts m).current = some (.caller k)
    · have still : e.after acts (m + 1) = e.after acts m := by
        have inOrder := fair.inOrder m
        rw [after_succ]
        cases act : acts m with
        | turn place =>
          obtain rfl : place = 0 := by simpa [act, Act.InOrder] using inOrder
          exact absurd ⟨current, act⟩ away
        | host deed => exact act_host_of_current current deed
      rw [still]
      exact ⟨kept, expects⟩
    · have abides := ((sound m).happens (acts m)).abides (sound m).waiting current (uncanceled m)
      refine ⟨abides.caller c kept, fun x known before => ?_⟩
      rcases expects x known before with mem | ceased
      · exact abides.waits x mem
      · have known' := Nat.lt_of_lt_of_le known (length_after_le sound le)
        exact .inr (over_after sound (Nat.le_succ m) known' ceased)

/-- **A caller has a turn**, and what it waited for has come then. -/
theorem exists_turn_of_caller {n : Nat} {c : Caller} {stage : CallerStage}
    (at_k : (e.after acts n).callers[k]? = some c) (life : c.life = .live stage false) :
    ∃ m, n ≤ m ∧ (e.after acts m).current = some (.caller k) ∧ acts m = .turn 0 ∧
      (e.after acts m).callers[k]? = some c ∧
      ∀ x, x < (e.after acts n).courses.length → (e.after acts n).Expects k x →
        (e.after acts m).isOver (.course x) = true := by
  have some_turn : ∃ m, n ≤ m ∧ (e.after acts m).current = some (.caller k) ∧ acts m = .turn 0 := by
    by_contra never
    have idle : ∀ j, n ≤ j → ¬ ((e.after acts j).current = some (.caller k) ∧ acts j = .turn 0) :=
      fun j le turn => never ⟨j, le, turn⟩
    -- were it never to come, what the caller waits for would end, and a fair queue would give it one
    refine never (exists_turn fair sound n (fun m le => ?_) fun m on le mem => ?_)
    · obtain ⟨kept, -⟩ := caller_kept fair sound uncanceled le at_k fun j le' _ => idle j le'
      simp [isOver, kept, life, Life.isOver]
    · obtain ⟨x, rfl⟩ := (sound m).waiting _ mem
      by_cases known : x < (e.after acts m).courses.length
      · obtain ⟨j, le', ceased⟩ := exists_over fair sound m x known
        exact ⟨j, le', by simp [isDue, ceased]⟩
      · have missing : (e.after acts m).courses[x]? = none := List.getElem?_eq_none_iff.mpr (Nat.not_lt.mp known)
        exact ⟨m, le_refl m, by simp [isDue, isOver, missing]⟩
  -- its first turn finds it where it was
  classical
  have first := Nat.find_spec some_turn
  have least := fun j (lt : j < Nat.find some_turn) => Nat.find_min some_turn lt
  obtain ⟨le, current, turn⟩ := first
  obtain ⟨kept, expects⟩ := caller_kept fair sound uncanceled le at_k fun j le' lt had =>
    least j lt ⟨le', had.1, had.2⟩
  refine ⟨_, le, current, turn, kept, fun x known before => ?_⟩
  rcases expects x known before with mem | ceased
  · obtain ⟨-, elsewhere⟩ := (sound (Nat.find some_turn)).placed.away current
    exact absurd (List.mem_map_of_mem (f := Prod.fst) mem) elsewhere
  · exact ceased

end Caller

/-! ## What a caller gets -/

/-- Caller number `k` of `run` has got execution number `x`. -/
def Answered (e : Engine) (k x : Nat) : Prop := e.callers[k]? = some ⟨some x, .over .done⟩

/-- Execution number `x` has completed or failed. -/
def Fulfilled (e : Engine) (x : Nat) : Prop :=
  ∃ c, e.courses[x]? = some c ∧ (c.execution.status = .completed ∨ c.execution.status = .failed)

/-- An endless run in which the queue is served fairly, names can be part of paths, resolvers end by themselves, and of the
executions that it brings none is canceled, nor is caller number `k` of `run` or any caller of `join`, and no shutdown times
out. -/
structure Serene (e : Engine) (acts : Nat → Act) (k : Nat) : Prop where
  fair : e.Fair acts
  named : ∀ n, (e.after acts n).WellNamed
  honest : ∀ n, (e.after acts n).Honest
  executions : ∀ n x, e.courses.length ≤ x → ¬ (e.after acts n).Disturbs x (acts n)
  caller : ∀ n, acts n ≠ .host (.cancelRun k)

section Returns

variable {e : Engine} {k : Nat}

/-- The turn of a caller. -/
theorem turn_of_caller {c : Caller} {stage : CallerStage} (current : e.current = some (.caller k))
    (at_k : e.callers[k]? = some c) (life : c.life = .live stage false) :
    e.act (.turn 0) = settleCaller k (e.moveCaller k stage) := by
  simp only [act, turnAt, current, move, at_k, life]

/-- The first turn of a caller: its workflow is accepted, and it waits for the end of the execution. -/
theorem turn_of_entering {c : Caller} {workflow : Workflow} {initial : Datum} {state : State}
    (current : e.current = some (.caller k)) (at_k : e.callers[k]? = some c)
    (life : c.life = .live (.entering workflow initial) false) (frozen : State.freeze initial = .ok state) :
    (e.act (.turn 0)).courses = e.courses ++ [.fresh (.root e.clock workflow state)] ∧
      (e.act (.turn 0)).callers[k]? = some ⟨some e.courses.length, .live (.awaiting e.courses.length) false⟩ ∧
      (e.act (.turn 0)).Expects k e.courses.length := by
  rw [turn_of_caller current at_k life]
  simp only [moveCaller, frozen]
  refine ⟨rfl, ?_, .inl ?_⟩
  · simp [settleCaller, handOn, submit, at_k, lifeAfter]
  · exact List.mem_append_right _ (List.mem_singleton.mpr rfl)

/-- The last turn of a caller. -/
theorem turn_of_awaiting {c : Caller} {x : Nat} (current : e.current = some (.caller k))
    (at_k : e.callers[k]? = some c) (life : c.life = .live (.awaiting x) false) :
    (e.act (.turn 0)).courses = e.courses ∧
      (e.act (.turn 0)).callers[k]? = some { c with life := .over (e.outcome x) } := by
  rw [turn_of_caller current at_k life]
  refine ⟨rfl, ?_⟩
  simp [settleCaller, moveCaller, handOn, wake, at_k, lifeAfter]

/-- An execution that is over by itself is an outcome. -/
theorem outcome_of_unharmed {x : Nat} {c : Course} (unharmed : Unharmed c) (at_x : e.courses[x]? = some c)
    (ceased : c.life.isOver = true) : e.outcome x = .done := by
  obtain ⟨execution, scheduled, life, reason⟩ := c
  cases life with
  | live stage interrupted => cases ceased
  | ended ending =>
    obtain rfl : ending = .done := unharmed.done rfl
    simp [outcome, at_x]

section Serene

variable {acts : Nat → Act} (sound : ∀ n, (e.after acts n).Sound) (serene : e.Serene acts k)

include sound serene

/-- What is unharmed and over has completed or failed. -/
theorem Serene.fulfilled {n x : Nat} {c : Course} (new : e.courses.length ≤ x)
    (at_x : (e.after acts n).courses[x]? = some c) (ceased : c.life.isOver = true) : (e.after acts n).Fulfilled x :=
  ⟨c, at_x, (unharmed_after sound serene.honest serene.executions n new at_x).outcome ceased⟩

/-- The caller has its first turn, in which its execution is accepted, and its second turn when that is over. -/
theorem Serene.answered {workflow : Workflow} {initial : Datum} {state : State} {c : Caller}
    (at_k : e.callers[k]? = some c) (life : c.life = .live (.entering workflow initial) false)
    (frozen : State.freeze initial = .ok state) :
    ∃ x n d, e.courses.length ≤ x ∧ (e.after acts n).Answered k x ∧ (e.after acts n).courses[x]? = some d ∧
      d.execution.workflow = workflow ∧ d.life.isOver = true := by
  have turn_at {n : Nat} (turn : acts n = .turn 0) : e.after acts (n + 1) = (e.after acts n).act (.turn 0) := by
    rw [after_succ, turn]
  obtain ⟨n, -, current, turn, kept, -⟩ := exists_turn_of_caller serene.fair sound serene.caller (n := 0) at_k life
  obtain ⟨courses, awaits, expects⟩ := turn_of_entering current kept life frozen
  rw [← turn_at turn] at courses awaits expects
  have new : e.courses.length ≤ (e.after acts n).courses.length := length_after_le sound (Nat.zero_le n)
  have accepted : (e.after acts (n + 1)).courses[(e.after acts n).courses.length]? =
      some (.fresh (.root (e.after acts n).clock workflow state)) := by
    simp [courses]
  obtain ⟨m, le, current', turn', kept', ceased⟩ :=
    exists_turn_of_caller serene.fair sound serene.caller (n := n + 1) awaits rfl
  have stopped := ceased _ (List.getElem?_eq_some_iff.mp accepted).1 expects
  obtain ⟨d, at_x, origin⟩ :=
    (after_reaches serene.fair.inOrder le).origin (sound (n + 1)).reachable (sound m) accepted
  have life' : d.life.isOver = true := by simpa [isOver, at_x] using stopped
  have unharmed := unharmed_after sound serene.honest serene.executions m new at_x
  obtain ⟨courses', answers⟩ := turn_of_awaiting current' kept' rfl
  rw [← turn_at turn'] at courses' answers
  have workflow_eq : d.execution.workflow = workflow := Execution.workflow_eq origin
  refine ⟨_, m + 1, d, new, ?_, by rw [courses']; exact at_x, workflow_eq, life'⟩
  rw [Answered, answers, outcome_of_unharmed unharmed at_x life']

end Serene

/-- Caller number `k` of `run` gets execution number `x`, which ran its workflow and has completed or failed, and whenever a
join returns that had not before its acceptance, everything below it has completed or failed. -/
structure Returns (e : Engine) (acts : Nat → Act) (k : Nat) (workflow : Workflow) (x : Nat) : Prop where
  answered : ∃ n c, (e.after acts n).Answered k x ∧ (e.after acts n).courses[x]? = some c ∧
    c.execution.workflow = workflow ∧ (c.execution.status = .completed ∨ c.execution.status = .failed)
  joined : ∀ n m j, n ≤ m → x < (e.after acts n).courses.length → ¬ (e.after acts n).Joined j →
    (e.after acts m).Joined j → ∀ y, (e.after acts m).Below x y → (e.after acts m).Fulfilled y

/-- **Every run ends in an outcome**, whatever the workflow and whatever JSON object the initial state. -/
theorem run_returns {acts : Nat → Act} {workflow : Workflow} {fields : List (String × Json)}
    (reachable : e.ReachableBy inOrder) (calm : e.Calm) (free : e.current = none)
    (serene : (e.run workflow (.ofJson (.object fields))).Serene acts e.callers.length) :
    ∃ x, (e.run workflow (.ofJson (.object fields))).Returns acts e.callers.length workflow x := by
  obtain ⟨state, frozen⟩ := State.freeze_ofJson fields
  have begun : e.act (.host (.run workflow (.ofJson (.object fields)))) = e.run workflow (.ofJson (.object fields)) := by
    simp [act, free, undergo]
  have first : Reaches inOrder e (e.run workflow (.ofJson (.object fields))) := begun ▸ .single trivial
  have at_k : (e.run workflow (.ofJson (.object fields))).callers[e.callers.length]? =
      some ⟨none, .live (.entering workflow (.ofJson (.object fields))) false⟩ := by
    simp [run]
  have sound := sound_after (reachable.trans first).reachable (first.calm_iff.mpr calm) serene.named
  obtain ⟨x, n, c, new, answered, at_x, ran, ceased⟩ := serene.answered sound at_k rfl frozen
  have unharmed := unharmed_after sound serene.honest serene.executions n new at_x
  refine ⟨x, ⟨n, c, answered, at_x, ran, unharmed.outcome ceased⟩, fun n m j le known unjoined joined y below => ?_⟩
  obtain ⟨d, at_y, over_y⟩ := settled_of_joined sound le known unjoined joined below
  exact serene.fulfilled sound (new_of_below sound new below) at_y over_y

/-! ### A run that is waited for, and one that raises -/

/-- Nobody calls `shutdown`, and no caller of `run` is canceled. -/
def Undisturbed (e : Engine) : Prop := e.closers.isEmpty = true ∧ ∀ c ∈ e.callers, (c.life matches .live _ true) = false

instance (e : Engine) : Decidable e.Undisturbed := inferInstanceAs (Decidable (_ ∧ _))

theorem Undisturbed.not_disturbs {x place : Nat} (h : e.Undisturbed) : ¬ e.Disturbs x (.turn place) := by
  intro disturbs
  cases disturbs with
  | abandoned _ at_k life =>
    have other := h.2 _ (List.mem_of_getElem? at_k)
    simp [life] at other
  | timedOut _ at_k =>
    have closers := List.isEmpty_iff.mp h.1
    simp [closers] at at_k

/-- An engine on which the calls for waiting steps wait, and every step schedules a workflow. -/
def patient : Engine :=
  let lingers := Rehearsed.resolver "linger" .propagate false ⟨none, .gated, .returns (.ok none)⟩ []
  let process (state : State) (_ : Step) (_ : Option Value) : Except Raised Transition :=
    .ok ⟨state, [⟨[], .text "gift", none, .empty, .empty⟩]⟩
  fresh .standard process none (Registry.empty.register "linger" ⟨0, lingers⟩)

/-- A workflow of one waiting step. -/
def lingering : Workflow := ⟨[⟨"linger", .null, .empty, by decide⟩], .text "trial", none, .empty, .empty⟩

/-- The tasks have their turns; when they wait, a caller of `join` comes and the gate is opened. -/
def patientActs (n : Nat) : Act := if n = 12 then .host .join else if n = 13 then .host (.release 0) else .turn 0

/-- A caller of `run` on that engine. -/
def patientRun : Engine := patient.run lingering (.ofJson (.object []))

theorem patientActs_cases (n : Nat) :
    patientActs n = .host .join ∨ patientActs n = .host (.release 0) ∨ patientActs n = .turn 0 := by
  unfold patientActs
  split
  · exact .inl rfl
  · split
    · exact .inr (.inl rfl)
    · exact .inr (.inr rfl)

/-- A call for a waiting step answers once its gate is open. -/
theorem patient_honest : patient.Honest := by
  refine ⟨fun stepType handler bound count payload => ?_, fun state step output failed => by cases failed⟩
  simp only [patient, fresh, Registry.find?, Registry.register, Fields.get?_insert] at bound
  split at bound
  · cases bound
    have answers (script : Script) (eq : script = Rehearsed.Act.script "linger" payload ⟨none, .gated, .returns (.ok none)⟩) :
        script.run.2 ≠ .error .canceled := by
      subst eq
      intro canceled
      cases canceled
    cases count with
    | zero => exact answers _ rfl
    | succ count => exact answers _ rfl
  · cases bound

/-- After forty acts no task can move any more. -/
theorem patientRun_serene : patientRun.Serene patientActs 0 := by
  have inOrder (n : Nat) : (patientActs n).InOrder := by
    rcases patientActs_cases n with eq | eq | eq <;> rw [eq] <;> trivial
  have turns : ∀ n, 40 ≤ n → patientActs n = .turn 0 := by
    intro n le
    have late : n ≠ 12 ∧ n ≠ 13 := by omega
    simp [patientActs, late]
  have quiet : (patientRun.after patientActs 40).isQuiet = true := by decide +kernel
  have always := fun P => forall_after_of_quiet (P := P) quiet turns
  have named := always WellNamed (by decide +kernel)
  have honest (n : Nat) : (patientRun.after patientActs n).Honest := by
    have run : Reaches Engine.inOrder patient patientRun :=
      .single (a := .host (.run lingering (.ofJson (.object [])))) trivial
    have sound := sound_after run.of_fresh.reachable (run.calm_iff.mpr (fresh_calm _ _ _)) named
    refine honest_after sound ⟨patient_honest.resolvers, patient_honest.process⟩ (fun n => ?_) n
    rcases patientActs_cases n with eq | eq | eq <;> rw [eq] <;> exact id
  have undisturbed := always Undisturbed (by decide +kernel)
  refine ⟨fair_of_quiet quiet inOrder turns (by decide +kernel), named, honest, fun n x _ disturbs => ?_, fun n eq => ?_⟩
  · rcases patientActs_cases n with eq | eq | eq <;> rw [eq] at disturbs
    · cases disturbs
    · cases disturbs
    · exact (undisturbed n).not_disturbs disturbs
  · rcases patientActs_cases n with eq' | eq' | eq' <;> rw [eq'] at eq <;> cases eq

/-- The run returns, and so does the join. -/
theorem patientRun_returns : (∃ x, patientRun.Returns patientActs 0 lingering x) ∧
    ¬ (patientRun.after patientActs 12).Joined 0 ∧ (patientRun.after patientActs 40).Joined 0 ∧
    (patientRun.after patientActs 40).courses.map (·.execution.status) = [.completed, .completed] := by
  have reachable : patient.ReachableBy inOrder := Reaches.refl.of_fresh
  have calm : patient.Calm := fresh_calm _ _ _
  exact ⟨run_returns reachable calm rfl patientRun_serene, by decide +kernel, by decide +kernel, by decide +kernel⟩

/-- A document of a workflow of one step, with a number for a name. -/
def numberedWire : Datum := .ofJson (.object
  [("steps", .array [.object [("type", .text "x")]]), ("name", .number (.int 5))])

/-- The workflow of that document. -/
def numbered : Workflow := ⟨[⟨"x", .null, .empty, by decide⟩], .int 5, none, .empty, .empty⟩

/-- A caller of `run` on an engine without resolvers. -/
def numberedRun : Engine := (fresh .standard Processing.standard none Registry.empty).run numbered (.ofJson (.object []))

/-- A workflow is accepted whatever its name, and when a step of it is to be told by its path, the run raises and leaves its
execution running. -/
theorem numberedRun_raises : Workflow.ofWire numberedWire = .ok numbered ∧ numberedRun.Calm ∧ numberedRun.Honest ∧
    numberedRun.Fair (fun _ => .turn 0) ∧
    (∀ n x, ¬ (numberedRun.after (fun _ => .turn 0) n).Disturbs x (.turn 0)) ∧
    (∃ c, (numberedRun.after (fun _ => .turn 0) 20).callers[0]? = some c ∧
      c.life = .over (.failed (.pathPart 0 "int"))) ∧
    (numberedRun.after (fun _ => .turn 0) 20).courses.map (·.execution.status) = [.running] ∧
    ¬ ∃ x, numberedRun.Returns (fun _ => .turn 0) 0 numbered x := by
  have started : Reaches anyOrder (fresh .standard Processing.standard none Registry.empty) numberedRun :=
    .single (a := .host (.run numbered (.ofJson (.object [])))) trivial
  have honest : numberedRun.Honest := by
    refine ⟨fun stepType handler bound => ?_, Processing.standard_ne_canceled⟩
    cases bound
  have quiet : (numberedRun.after (fun _ => .turn 0) 20).isQuiet = true := by decide +kernel
  have always := fun P => forall_after_of_quiet (P := P) quiet fun _ _ => rfl
  have undisturbed := always Undisturbed (by decide +kernel)
  have unfulfilled := always (fun e => ∀ c ∈ e.courses, c.execution.status ≠ .completed ∧ c.execution.status ≠ .failed)
    (by decide +kernel)
  refine ⟨by rfl, started.calm_iff.mpr (fresh_calm _ _ _), honest, ?_, fun n x => (undisturbed n).not_disturbs,
    ⟨_, by rfl, by rfl⟩, by decide +kernel, ?_⟩
  · exact fair_of_quiet quiet (fun _ => rfl) (fun _ _ => rfl) (by decide +kernel)
  · rintro ⟨x, returns⟩
    obtain ⟨n, c, -, at_x, -, fulfilled⟩ := returns.answered
    obtain ⟨uncompleted, unfailed⟩ := unfulfilled n c (List.mem_of_getElem? at_x)
    exact fulfilled.elim uncompleted unfailed

end Returns

end Stepflow.Engine
