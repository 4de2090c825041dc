import Stepflow.Processing
import Stepflow.Proofs.Engine.Standing
import Stepflow.Resolver.Rehearsed

/-!
# Stepflow.Proofs.Engine.Threading — state and history, step by step

* `Engine.replay`: the state and the schedule that come of the recorded steps of an execution, from its initial state
  through the processing, with the outputs that the calls of resolvers are known to have ended with.
* `Threads`: an execution is where its replay leads.  `Moved.threads`, `Touched.threads` and `Threads.aside` keep it.
* `Sound.threading`: every execution of a sound state threads its state, and what detached calls are noted to have
  ended with is never taken for the output of a step.
* `account_of_reachable`: what this comes to for history, state, failed steps and the ends of an execution.
-/

namespace Stepflow

/-! ## Replaying a history -/

/-- What the noted calls of a resolver for a step of an execution ended with. -/
def endingsIn (calls : List CallNote) (x index : Nat) : List (Except Raised (Option Value)) :=
  calls.filterMap fun
    | .ended y i result => if y = x ∧ i = index then some result else none
    | .begun .. => none

/-- The state and the schedule once a transition is adopted, if there is one. -/
def adoptInto (process : State → Step → Option Value → Except Raised Transition) (s : State × List Workflow)
    (step : Step) (output : Option Value) : Option (State × List Workflow) :=
  match process s.1 step output with
  | .ok transition => some (transition.newState, s.2 ++ transition.workflows)
  | .error _ => none

/-- The state and the schedule after a recorded step.  A step that succeeded hands the output of its only call to the
processing, one that was recovered or dispatched hands it nothing, and any other leaves everything as it is. -/
def replayRecord (process : State → Step → Option Value → Except Raised Transition)
    (endings : Nat → List (Except Raised (Option Value))) (steps : List Step) (s : State × List Workflow)
    (r : StepRecord) : Option (State × List Workflow) :=
  match r.status with
  | .skipped | .failed => some s
  | .succeeded =>
    match steps[r.index]?, endings r.index with
    | some step, [.ok output] => adoptInto process s step output
    | _, _ => none
  | .recovered | .dispatched => (steps[r.index]?).bind fun step => adoptInto process s step none

namespace Execution

/-- The state and the schedule that come of all records, from the initial state. -/
def replay (process : State → Step → Option Value → Except Raised Transition)
    (endings : Nat → List (Except Raised (Option Value))) (a : Execution) : Option (State × List Workflow) :=
  a.history.foldlM (replayRecord process endings a.workflow.steps) (a.initialState, [])

/-- The records of an execution are about its first steps, in their order. -/
structure Recorded (a : Execution) : Prop where
  indices : a.history.map StepRecord.index = List.range a.history.length
  types : ∀ r ∈ a.history, (a.workflow.steps[r.index]?).map Step.stepType = some r.stepType

end Execution

namespace Engine

/-- What the calls of a resolver for a step of an execution have ended with. -/
def endings (e : Engine) (x index : Nat) : List (Except Raised (Option Value)) := endingsIn e.calls x index

/-- The state and the schedule that come of the records of execution number `x`. -/
def replay (e : Engine) (x : Nat) (a : Execution) : Option (State × List Workflow) :=
  a.replay e.process (e.endings x)

end Engine

section Replay

variable {process : State → Step → Option Value → Except Raised Transition}
  {endings endings' : Nat → List (Except Raised (Option Value))} {a a' : Execution} {r : StepRecord}

theorem endingsIn_append (calls more : List CallNote) (x index : Nat) :
    endingsIn (calls ++ more) x index = endingsIn calls x index ++ endingsIn more x index :=
  List.filterMap_append

theorem endingsIn_eq_nil {calls : List CallNote} {x index : Nat}
    (h : ∀ result, CallNote.ended x index result ∉ calls) : endingsIn calls x index = [] := by
  refine List.filterMap_eq_nil_iff.mpr fun n hn => ?_
  cases n with
  | begun => rfl
  | ended y i result =>
    refine if_neg ?_
    rintro ⟨rfl, rfl⟩
    exact h result hn

theorem Execution.Recorded.index_lt (h : a.Recorded) (hr : r ∈ a.history) : r.index < a.history.length := by
  have mem := List.mem_map_of_mem (f := StepRecord.index) hr
  rw [h.indices] at mem
  exact List.mem_range.mp mem

theorem Execution.Recorded.getElem_index (h : a.Recorded) {i : Nat} (hi : a.history[i]? = some r) : r.index = i := by
  have at_i : (a.history.map StepRecord.index)[i]? = some r.index := by rw [List.getElem?_map, hi]; rfl
  rw [h.indices] at at_i
  obtain ⟨_, eq⟩ := List.getElem?_eq_some_iff.mp at_i
  simpa using eq.symm

/-- There are no more records than steps. -/
theorem Execution.Recorded.length_le (h : a.Recorded) : a.history.length ≤ a.workflow.steps.length := by
  rcases Nat.eq_zero_or_pos a.history.length with h0 | hpos
  · omega
  · have last := List.getElem?_eq_getElem (show a.history.length - 1 < a.history.length by omega)
    have types := h.types _ (List.mem_of_getElem? last)
    rw [h.getElem_index last] at types
    cases at_step : a.workflow.steps[a.history.length - 1]? with
    | none => simp [at_step] at types
    | some step =>
      have := (List.getElem?_eq_some_iff.mp at_step).1
      omega

/-- Records go on with the next step. -/
theorem Execution.Recorded.append (h : a.Recorded) {step : Step} {status : StepStatus} {error : Option String}
    (at_step : a.workflow.steps[a.history.length]? = some step) (workflow : a'.workflow = a.workflow)
    (history : a'.history = a.history ++ [⟨a.history.length, step.stepType, status, error⟩]) : a'.Recorded where
  indices := by
    rw [history, List.map_append, h.indices]
    simp [List.range_succ]
  types := by
    intro r hr
    rw [history] at hr
    rw [workflow]
    rcases List.mem_append.mp hr with hr | hr
    · exact h.types r hr
    · obtain rfl := List.mem_singleton.mp hr
      simp [at_step]

theorem foldlM_congr {α β : Type} {f g : β → α → Option β} {l : List α} (h : ∀ a ∈ l, ∀ b, f b a = g b a) (b : β) :
    l.foldlM f b = l.foldlM g b := by
  induction l generalizing b with
  | nil => rfl
  | cons a l ih =>
    simp only [List.foldlM_cons, h a List.mem_cons_self b]
    congr 1
    funext b'
    exact ih (fun a' ha' => h a' (List.mem_cons_of_mem a ha')) b'

/-- A replay depends on what the calls of the steps that succeeded ended with. -/
theorem Execution.replay_congr (workflow : a'.workflow = a.workflow) (initial : a'.initialState = a.initialState)
    (history : a'.history = a.history)
    (same : ∀ r ∈ a.history, r.status = .succeeded → endings' r.index = endings r.index) :
    a'.replay process endings' = a.replay process endings := by
  simp only [Execution.replay, workflow, initial, history]
  refine foldlM_congr (fun r hr s => ?_) _
  unfold replayRecord
  cases status : r.status with
  | succeeded => simp only [same r hr status]
  | _ => rfl

/-- The replay of one more record. -/
theorem Execution.replay_append {s : State × List Workflow} (workflow : a'.workflow = a.workflow)
    (initial : a'.initialState = a.initialState) (history : a'.history = a.history ++ [r])
    (replayed : a.replay process endings = some s) :
    a'.replay process endings = replayRecord process endings a.workflow.steps s r := by
  unfold Execution.replay at replayed ⊢
  rw [workflow, initial, history, List.foldlM_append, replayed]
  simp

end Replay

/-! ## The thread of an execution -/

/-- The number of the steps for which no call can end any more, or has ended: those before the step at which the task
stands and, once the call for that step is behind it, that step.  There are none if the execution never began. -/
def Course.frontier (c : Course) : Nat :=
  if c.execution.status = .idle then 0
  else match c.life with
    | .live .opening _ | .live .admitted _ | .live (.reaching _) _ | .live (.calling ..) _ | .live (.holding ..) _ =>
      c.execution.history.length
    | _ => c.execution.history.length + 1

/-- An execution is where its replay leads, and no call has ended for a step that it has not come to. -/
structure Threads (process : State → Step → Option Value → Except Raised Transition)
    (endings : Nat → List (Except Raised (Option Value))) (c : Course) : Prop where
  recorded : c.execution.Recorded
  replayed : c.execution.replay process endings = some (c.execution.state, c.scheduled)
  silent : ∀ i, c.frontier ≤ i → endings i = []
  answered : ∀ i output error interrupted, c.life = .live (.handled i output .succeeded error) interrupted →
    endings i = [.ok output]

/-- What a move does to the thread of an execution: nothing, or it leaves a step without a transition, or it adopts
one. -/
inductive Weaves (e : Engine) (c : Course) (eff : Effect) : Prop
  | kept (history : eff.execution.history = c.execution.history) (state : eff.execution.state = c.execution.state)
      (scheduled : eff.scheduled = c.scheduled)
  | passed {step : Step} {status : StepStatus} {error : Option String}
      (at_step : c.execution.workflow.steps[c.execution.history.length]? = some step)
      (idle : status = .skipped ∨ status = .failed)
      (history : eff.execution.history =
        c.execution.history ++ [⟨c.execution.history.length, step.stepType, status, error⟩])
      (state : eff.execution.state = c.execution.state) (scheduled : eff.scheduled = c.scheduled)
  | adopted {step : Step} {output : Option Value} {status : StepStatus} {error : Option String}
      {transition : Transition} (no_reason : c.reason = none)
      (life : c.life = .live (.handled c.execution.history.length output status error) false)
      (result : status = .succeeded ∨ (status = .recovered ∨ status = .dispatched) ∧ output = none)
      (at_step : c.execution.workflow.steps[c.execution.history.length]? = some step)
      (processed : e.process c.execution.state step output = .ok transition)
      (history : eff.execution.history =
        c.execution.history ++ [⟨c.execution.history.length, step.stepType, status, error⟩])
      (state : eff.execution.state = transition.newState)
      (scheduled : eff.scheduled = c.scheduled ++ transition.workflows)

section Weaving

variable {e e' : Engine} {x : Nat} {c c' : Course} {eff : Effect} {maxDepth : Int}

theorem Moved.weaves (h : Moved e x c eff) (stands : Stands maxDepth c.execution c.scheduled c.life) :
    Weaves e c eff := by
  cases h with
  | diverted => exact .kept rfl rfl rfl
  | advanced life advance =>
    rw [life] at stands
    cases advance with
    | unknown names_eq at_step =>
      cases stands with
      | reaching running => cases running.length; exact .passed at_step (.inr rfl) rfl rfl rfl
    | skipped at_step =>
      cases stands with
      | reaching running => cases running.length; exact .passed at_step (.inl rfl) rfl rfl rfl
    | unresolved names_eq at_step =>
      cases stands with
      | calling running => cases running.length; exact .passed at_step (.inr rfl) rfl rfl rfl
    | unprocessed names_eq no_reason at_step =>
      cases stands with
      | handled running | dispatched running =>
        cases running.length; exact .passed at_step (.inr rfl) rfl rfl rfl
    | adopted no_reason at_step processed =>
      cases stands with
      | handled running current result =>
        cases running.length
        exact .adopted no_reason life (result.imp id fun h => ⟨.inl h.1, h.2⟩) at_step processed rfl rfl rfl
      | dispatched running =>
        cases running.length
        exact .adopted no_reason life (.inr ⟨.inr rfl, rfl⟩) at_step processed rfl rfl rfl
    | _ => exact .kept rfl rfl rfl

/-- The frontier only moves on; what is noted is noted at it, and when a call ends it moves. -/
theorem Moved.frontier (h : Moved e x c eff) (stands : Stands maxDepth c.execution c.scheduled c.life) :
    c.frontier ≤ (eff.course c).frontier ∧ ∀ n ∈ eff.notes, n.index = c.frontier ∧
      ∀ y i result, n = .ended y i result → c.frontier < (eff.course c).frontier := by
  by_cases idle : c.execution.status = .idle
  · refine ⟨by simp [Course.frontier, idle], ?_⟩
    cases h with
    | diverted => simp
    | advanced life advance =>
      rw [life] at stands
      obtain ⟨_, opening⟩ := (stands.of_idle idle).2 rfl
      cases opening
      -- the frontier is the length of the history, one more while the answer of a call is being handled
      cases advance
      simp
  cases h with
  | @diverted stage life =>
    rw [life] at stands
    cases stands <;> simp [Course.frontier, Effect.course, Engine.cancelCourse, Engine.lifeAfter, life, idle]
  | advanced life advance =>
    rw [life] at stands
    cases advance
    case called =>
      cases stands with
      | reaching running =>
        simp [Course.frontier, Effect.course, Engine.lifeAfter, life, CallNote.index, running.length, idle]
    case answered | yielded | unresolved | recovered =>
      cases stands with
      | calling running =>
        simp [Course.frontier, Effect.course, Engine.lifeAfter, life, CallNote.index, running.length,
          Execution.failedAt, Execution.record, Execution.endWith, idle] <;> omega
    all_goals
      simp [Course.frontier, Effect.course, Engine.lifeAfter, life, Execution.failedAt, Execution.record,
        Execution.endWith, Execution.canceledFor, idle] <;> omega

theorem Moved.workflow_eq (h : Moved e x c eff) : eff.execution.workflow = c.execution.workflow :=
  Execution.workflow_eq h.origin_eq

theorem Moved.initialState_eq (h : Moved e x c eff) : eff.execution.initialState = c.execution.initialState :=
  Execution.initialState_eq h.origin_eq

/-- A step has succeeded once its call has ended with an output. -/
theorem Moved.succeeded (h : Moved e x c eff) (stands : Stands maxDepth c.execution c.scheduled c.life) {i : Nat}
    {output : Option Value} {error : Option String} {interrupted : Bool}
    (life' : (eff.course c).life = .live (.handled i output .succeeded error) interrupted) :
    c.frontier = i ∧ eff.notes = [.ended x i (.ok output)] := by
  cases h with
  | @diverted stage life =>
    rw [life] at stands
    cases stands <;> simp [Effect.course, Engine.cancelCourse, Engine.lifeAfter] at life'
  | advanced life advance =>
    rw [life] at stands
    cases advance
    case answered =>
      cases stands with
      | calling running =>
        simp only [Effect.course, Engine.lifeAfter, Life.live.injEq, Stage.handled.injEq] at life'
        obtain ⟨⟨rfl, rfl, -⟩, -⟩ := life'
        exact ⟨by simp [Course.frontier, life, running.length, running.status], rfl⟩
    all_goals simp [Effect.course, Engine.lifeAfter] at life'

theorem Moved.threads (h : Moved e x c eff) (stands : Stands maxDepth c.execution c.scheduled c.life)
    (threads : Threads e.process (e.endings x) c) (process : e'.process = e.process)
    (calls : e'.calls = e.calls ++ eff.notes) : Threads e'.process (e'.endings x) (eff.course c) := by
  obtain ⟨frontier_le, notes⟩ := h.frontier stands
  have endings_eq : ∀ i, e'.endings x i = e.endings x i ++ endingsIn eff.notes x i := fun i => by
    rw [Engine.endings, calls, endingsIn_append]
    rfl
  -- what is recorded lies before the frontier, and notes are made only at it
  have elsewhere : ∀ i, i ≠ c.frontier → e'.endings x i = e.endings x i := fun i ne => by
    rw [endings_eq, endingsIn_eq_nil fun result hr => ne (notes _ hr).1, List.append_nil]
  have length_le : c.execution.history.length ≤ c.frontier := by
    unfold Course.frontier
    split
    · next idle => simp [(stands.of_idle idle).1.history_eq]
    · split <;> omega
  have replayed : c.execution.replay e.process (e'.endings x) = some (c.execution.state, c.scheduled) := by
    rw [← threads.replayed]
    refine Execution.replay_congr rfl rfl rfl fun r hr _ => elsewhere _ ?_
    have := threads.recorded.index_lt hr
    omega
  refine ⟨?recorded, ?replayed, fun i hi => ?silent, fun i output error interrupted life' => ?answered⟩
  case recorded =>
    cases h.weaves stands with
    | kept history =>
      exact ⟨by rw [Effect.course, history]; exact threads.recorded.indices,
        by rw [Effect.course, history, h.workflow_eq]; exact threads.recorded.types⟩
    | passed at_step _ history => exact threads.recorded.append at_step h.workflow_eq history
    | adopted _ _ _ at_step _ history => exact threads.recorded.append at_step h.workflow_eq history
  case replayed =>
    rw [process]
    cases h.weaves stands with
    | kept history state scheduled =>
      rw [Effect.course, state, scheduled, ← replayed]
      exact Execution.replay_congr h.workflow_eq h.initialState_eq history fun _ _ _ => rfl
    | passed at_step idle history state scheduled =>
      rw [Effect.course, state, scheduled, Execution.replay_append h.workflow_eq h.initialState_eq history replayed]
      rcases idle with rfl | rfl <;> rfl
    | adopted no_reason life result at_step processed history state scheduled =>
      rw [Effect.course, state, scheduled, Execution.replay_append h.workflow_eq h.initialState_eq history replayed]
      rcases result with rfl | ⟨rfl | rfl, rfl⟩
      -- the output that is adopted is the one that the call has ended with
      · have answered := threads.answered _ _ _ _ life
        have begun : c.execution.status ≠ .idle := fun idle => by
          obtain ⟨_, opening⟩ := (stands.of_idle idle).2 (by rw [life]; rfl)
          simp [opening] at life
        rw [← elsewhere] at answered
        · simp [replayRecord, at_step, answered, adoptInto, processed]
        · simp [Course.frontier, life, begun]
      · simp [replayRecord, at_step, adoptInto, processed]
      · simp [replayRecord, at_step, adoptInto, processed]
  case silent =>
    rw [endings_eq, threads.silent i (by omega), List.nil_append]
    refine endingsIn_eq_nil fun result hr => ?_
    have moves := (notes _ hr).2 x i result rfl
    have at_frontier : i = c.frontier := (notes _ hr).1
    omega
  case answered =>
    obtain ⟨rfl, ended⟩ := h.succeeded stands life'
    rw [endings_eq, threads.silent _ (Nat.le_refl _), ended]
    simp [endingsIn]

/-- What happens to an execution from outside does not concern its thread. -/
theorem Touched.thread_eq {now : Rat} (h : Touched now c c') : c'.execution.history = c.execution.history ∧
    c'.execution.state = c.execution.state ∧ c'.scheduled = c.scheduled := by
  rcases h with signaled | marked
  · rw [signaled.execution, signaled.scheduled]
    exact ⟨rfl, rfl, rfl⟩
  · cases marked <;> exact ⟨rfl, rfl, rfl⟩

theorem Touched.frontier_le {now : Rat} (h : Touched now c c') : c.frontier ≤ c'.frontier := by
  by_cases idle : c.execution.status = .idle
  · simp [Course.frontier, idle]
  · have unmarked : c'.execution.status ≠ .idle := by
      rcases h with signaled | marked
      · rw [signaled.execution]
        exact idle
      · cases marked <;> simp
    simp only [Course.frontier, if_neg idle, if_neg unmarked, h.thread_eq.1]
    rcases h.life_eq with life | life
    · exact Nat.le_of_eq (by rw [life])
    · rw [life]
      cases c.life with
      | live stage interrupted => cases stage <;> exact Nat.le_refl _
      | ended ending => exact Nat.le_refl _

theorem Touched.threads {now : Rat} (h : Touched now c c') (threads : Threads e.process (e.endings x) c)
    (process : e'.process = e.process) (calls : e'.calls = e.calls) : Threads e'.process (e'.endings x) c' := by
  obtain ⟨history, state, scheduled⟩ := h.thread_eq
  have workflow := Execution.workflow_eq h.origin_eq
  have initial := Execution.initialState_eq h.origin_eq
  have endings : e'.endings x = e.endings x := by
    funext i
    rw [Engine.endings, calls]
    rfl
  rw [process, endings]
  refine ⟨⟨?_, ?_⟩, ?_, ?_, fun i output error interrupted life => ?_⟩
  · rw [history]; exact threads.recorded.indices
  · rw [history, workflow]; exact threads.recorded.types
  · rw [state, scheduled, ← threads.replayed]
    exact Execution.replay_congr workflow initial history fun _ _ _ => rfl
  · exact fun i hi => threads.silent i (Nat.le_trans h.frontier_le hi)
  · obtain ⟨b, life'⟩ := h.live life
    exact threads.answered i output error b life'

end Weaving

/-! ## Detached calls -/

/-- A step of an execution that was given to a detached call: the execution is past it or about to record it, and
does not record it as one that succeeded. -/
structure Course.GaveAway (c : Course) (i : Nat) : Prop where
  lt : i < c.frontier
  unrecorded : ∀ r ∈ c.execution.history, r.index = i → r.status ≠ .succeeded
  unhandled : ∀ output error interrupted, c.life ≠ .live (.handled i output .succeeded error) interrupted

section GivenAway

variable {e e' : Engine} {x i : Nat} {c c' : Course} {eff : Effect} {maxDepth : Int}

theorem Moved.gaveAway (h : Moved e x c eff) (stands : Stands maxDepth c.execution c.scheduled c.life)
    (given : c.GaveAway i) : (eff.course c).GaveAway i where
  lt := Nat.lt_of_lt_of_le given.lt (h.frontier stands).1
  unrecorded := by
    intro r hr index_eq
    have appended : ∀ {step : Step} {status : StepStatus} {error : Option String},
        eff.execution.history = c.execution.history ++ [⟨c.execution.history.length, step.stepType, status, error⟩] →
        (c.execution.history.length = i → status ≠ .succeeded) → r.status ≠ .succeeded := by
      intro step status error history ne
      rw [Effect.course, history] at hr
      rcases List.mem_append.mp hr with hr | hr
      · exact given.unrecorded r hr index_eq
      · obtain rfl := List.mem_singleton.mp hr
        exact ne index_eq
    cases h.weaves stands with
    | kept history =>
      rw [Effect.course, history] at hr
      exact given.unrecorded r hr index_eq
    | passed _ idle history => exact appended history fun _ => by rcases idle with rfl | rfl <;> simp
    | adopted _ life result _ _ history =>
      refine appended history fun eq succeeded => ?_
      rw [succeeded, eq] at life
      exact given.unhandled _ _ _ life
  unhandled := by
    intro output error interrupted life
    have := (h.succeeded stands life).1
    have := given.lt
    omega

theorem Touched.gaveAway {now : Rat} (h : Touched now c c') (given : c.GaveAway i) : c'.GaveAway i where
  lt := Nat.lt_of_lt_of_le given.lt h.frontier_le
  unrecorded := by rw [h.thread_eq.1]; exact given.unrecorded
  unhandled := by
    intro output error interrupted life
    obtain ⟨b, life'⟩ := h.live life
    exact given.unhandled _ _ _ life'

/-- An execution that queues a detached call gives its step away. -/
theorem Moved.gives {d : Delivery} (h : Moved e x c eff) (stands : Stands maxDepth c.execution c.scheduled c.life)
    (recorded : c.execution.Recorded) (dispatched : eff.dispatched = some d) : (eff.course c).GaveAway d.index := by
  obtain ⟨index, step, handler, rfl, life, -, -, execution, move⟩ := h.dispatched_eq dispatched
  rw [life] at stands
  cases stands with
  | reaching running =>
    refine ⟨?_, fun r hr index_eq => ?_, ?_⟩
    · simp [Course.frontier, Effect.course, move, Engine.lifeAfter, execution, running.length, running.status]
    · rw [Effect.course, execution] at hr
      change r.index = index at index_eq
      have := recorded.index_lt hr
      have := running.length
      omega
    · simp [Effect.course, move, Engine.lifeAfter]

/-- What only detached calls note about an execution does not concern its thread. -/
theorem Threads.aside (threads : Threads e.process (e.endings x) c) (process : e'.process = e.process)
    (aside : Aside e e' x) (given : ∀ d ∈ e.deliveries, d.execution = x → c.GaveAway d.index) :
    Threads e'.process (e'.endings x) c := by
  obtain ⟨notes, calls, about⟩ := aside
  have elsewhere : ∀ i, ¬ c.GaveAway i → e'.endings x i = e.endings x i := by
    intro i kept
    have silent : endingsIn notes x i = [] := by
      refine endingsIn_eq_nil fun result hr => ?_
      obtain ⟨d, hd, execution_eq, index_eq⟩ := about _ hr rfl
      have given := given d hd execution_eq
      rw [index_eq] at given
      exact kept given
    rw [Engine.endings, calls, endingsIn_append, silent, List.append_nil]
    rfl
  rw [process]
  refine ⟨threads.recorded, ?_, fun i hi => ?_, fun i output error interrupted life => ?_⟩
  · rw [← threads.replayed]
    exact Execution.replay_congr rfl rfl rfl fun r hr succeeded =>
      elsewhere _ fun given => given.unrecorded r hr rfl succeeded
  · rw [elsewhere i fun given => by have := given.lt; omega]
    exact threads.silent i hi
  · rw [elsewhere i fun given => given.unhandled _ _ _ life]
    exact threads.answered i output error interrupted life

end GivenAway

/-! ## Every sound state -/

namespace Engine

/-- Every execution threads its state, and nothing is noted that could be taken for the output of a step and is not. -/
structure Threading (e : Engine) : Prop where
  threads : ∀ (x : Nat) (c : Course), e.courses[x]? = some c → Threads e.process (e.endings x) c
  given : ∀ (d : Delivery) (c : Course), d ∈ e.deliveries → e.courses[d.execution]? = some c → c.GaveAway d.index
  unborn : ∀ (x : Nat), e.courses.length ≤ x → ∀ i, e.endings x i = []

section Threading

variable {e e' : Engine}

theorem Outline.unborn (h : Outline e e') (orderly : e.Orderly) (threading : e.Threading) {x : Nat}
    (hx : e.courses.length ≤ x) (i : Nat) : e'.endings x i = [] := by
  obtain ⟨notes, calls, executions⟩ := h.calls_append orderly
  have before : endingsIn e.calls x i = [] := threading.unborn x hx i
  rw [Engine.endings, calls, endingsIn_append, before, List.nil_append]
  refine endingsIn_eq_nil fun result hr => ?_
  have lt : x < e.courses.length := executions _ hr
  omega

theorem Outline.threading (h : Outline e e') (orderly : e.Orderly) (standing : e.Standing)
    (threading : e.Threading) : e'.Threading := by
  have process := h.frame.2.1
  refine ⟨fun x c' hx' => ?threads, fun d' c' hd' hx' => ?given, fun x hx' i => ?unborn⟩
  case threads =>
    cases hx : e.courses[x]? with
    | none =>
      have unborn := h.unborn orderly threading (List.getElem?_eq_none_iff.mp hx)
      obtain ⟨-, execution, rfl, created⟩ := h.newborn hx' hx
      have unbegun := h.newborn_unbegun hx' hx
      refine ⟨⟨?_, ?_⟩, ?_, fun i _ => unborn i, by simp [Course.fresh]⟩
      · simp [Course.fresh, unbegun.history_eq]
      · simp [Course.fresh, unbegun.history_eq]
      · rw [Execution.replay, Course.fresh, unbegun.history_eq, unbegun.state_eq]
        rfl
    | some c =>
      obtain ⟨d, hd, fate⟩ := h.fate hx
      obtain rfl : c' = d := by simpa [hx'] using hd
      have stands := standing.stands x c hx
      have threads := threading.threads x c hx
      cases fate with
      | kept away aside =>
        exact threads.aside process aside fun d hd execution_eq => threading.given d _ hd (execution_eq ▸ hx)
      | moved current moved after calls => exact moved.threads stands threads process calls
      | touched touched away calls => exact touched.threads threads process calls
  case given =>
    obtain ⟨k, hk'⟩ := List.mem_iff_getElem?.mp hd'
    -- a detached call was there before, or is queued by the execution whose step it takes over
    rcases h.delivery_fate hk' with ⟨d, hk, same⟩ | ⟨x, c, eff, -, hx, moved, dispatched, after⟩
    · have hd := List.mem_of_getElem? hk
      obtain ⟨execution_eq, index_eq⟩ : d'.execution = d.execution ∧ d'.index = d.index := by
        rcases same with (rfl | rfl) | ⟨eff, -, -, rfl⟩ <;> exact ⟨rfl, rfl⟩
      rw [execution_eq] at hx'
      rw [index_eq]
      have hx := List.getElem?_eq_getElem (orderly.delivery_for d hd)
      have given := threading.given d _ hd hx
      obtain ⟨c'', hc'', fate⟩ := h.fate hx
      obtain rfl : c' = c'' := by simpa [hx'] using hc''
      cases fate with
      | kept => exact given
      | moved current moved => exact moved.gaveAway (standing.stands _ _ hx) given
      | touched touched => exact touched.gaveAway given
    · have gives := moved.gives (standing.stands x c hx) (threading.threads x c hx).recorded dispatched
      obtain ⟨index, step, handler, rfl, -⟩ := moved.dispatched_eq dispatched
      obtain rfl : eff.course c = c' := by simpa [after] using hx'
      exact gives
  case unborn => exact h.unborn orderly threading (Nat.le_trans h.length_le hx') i

/-- **Threading**: in every sound state each execution is where its replay leads. -/
theorem Sound.threading (h : e.Sound) : e.Threading := by
  refine h.induction (fun settings process bus registry => ⟨?_, ?_, ?_⟩) fun e a sound _ outline threading =>
    outline.threading sound.orderly sound.standing threading
  · intro x c hx
    simp [fresh] at hx
  · intro d c hd
    simp [fresh] at hd
  · intro x _ i
    rfl

end Threading

end Engine

/-! ## The account of an execution -/

namespace Execution

/-- The execution failed, and its error is that of a step. -/
def FailedAtStep (a : Execution) : Prop :=
  a.status = .failed ∧ ∃ message names i stepType cause,
    a.error = some (.execution false message names (some i) stepType cause)

/-- The execution failed since it lies too deep. -/
def FailedAtDepth (a : Execution) (maxDepth : Int) : Prop :=
  a.status = .failed ∧ maxDepth < a.depth ∧
    ∃ names, a.path = names.map .text ∧ a.error = some (depthError maxDepth names)

end Execution

/-- What history, state and error of execution number `x` say about its steps. -/
structure Account (e : Engine) (x : Nat) (a : Execution) : Prop where
  indices : a.history.map StepRecord.index = List.range a.history.length
  within : a.history.length ≤ a.workflow.steps.length
  types : ∀ r ∈ a.history, (a.workflow.steps[r.index]?).map Step.stepType = some r.stepType
  state : (e.replay x a).map Prod.fst = some a.state
  /-- Only the last step can have failed; its record says why, and nothing is spawned. -/
  failed : ∀ r ∈ a.history, r.status = .failed → r.index + 1 = a.history.length ∧ a.children = [] ∧
    ∃ message names cause, a.path = names.map .text ∧ r.error = some cause.message ∧
      a.error = some (.execution false message names (some (r.index : Int)) (some r.stepType) (some cause))
  failed_iff : (∃ r ∈ a.history, r.status = .failed) ↔ a.FailedAtStep
  failure : a.status = .failed → a.FailedAtStep ∨ a.FailedAtDepth e.settings.maxDepth
  completed : a.status = .completed → a.history.length = a.workflow.steps.length ∧ a.Clean
  tooDeep : a.FailedAtDepth e.settings.maxDepth → a.history = [] ∧ a.state = a.initialState

section Account

variable {a : Execution} {maxDepth : Int}

theorem Execution.Unbegun.clean (h : a.Unbegun) : a.Clean := by simp [Execution.Clean, h.history_eq]

/-- How the steps of an execution can have turned out. -/
inductive Verdict (maxDepth : Int) (a : Execution) : Prop
  | clean (clean : a.Clean) (status : a.status ≠ .failed)
      (length : a.status = .completed → a.history.length = a.workflow.steps.length)
  | step {before : List StepRecord} {r : StepRecord} {message : String} {names : List String} {cause : Failure}
      (history : a.history = before ++ [r]) (clean : ∀ s ∈ before, s.status ≠ .failed) (failed : r.status = .failed)
      (status : a.status = .failed) (children : a.children = []) (path : a.path = names.map .text)
      (told : r.error = some cause.message) (error : a.error =
        some (.execution false message names (some (r.index : Int)) (some r.stepType) (some cause)))
  | depth {names : List String} (history : a.history = []) (status : a.status = .failed) (deep : maxDepth < a.depth)
      (path : a.path = names.map .text) (error : a.error = some (Execution.depthError maxDepth names))

theorem Ended.verdict (h : Ended maxDepth a) : Verdict maxDepth a := by
  cases h with
  | completed status error length clean => exact .clean clean (by simp [status]) fun _ => length
  | failedAt running at_step names_eq eq =>
    rw [eq]
    exact .step rfl running.clean rfl rfl running.children (Engine.path_of_pathTexts names_eq) rfl rfl
  | tooDeep running deep names_eq eq =>
    rw [eq]
    exact .depth (List.length_eq_zero_iff.mp running.length) rfl deep (Engine.path_of_pathTexts names_eq) rfl
  | canceled running names_eq eq =>
    rw [eq]
    exact .clean running.clean (by simp)
      (by simp)
  | stillborn unbegun names_eq eq =>
    rw [eq]
    exact .clean unbegun.clean (by simp)
      (by simp)

theorem Stands.verdict {scheduled : List Workflow} {life : Life Stage} (h : Stands maxDepth a scheduled life) :
    Verdict maxDepth a := by
  have of_unfinished : a.isFinished = false → a.Clean → Verdict maxDepth a := by
    intro unfinished clean
    refine .clean clean ?_ ?_ <;> intro status <;> simp [Execution.isFinished, status, Status.isFinished] at unfinished
  cases h with
  | unbegun unbegun | dropped unbegun =>
    exact of_unfinished (by simp [Execution.isFinished, unbegun.status_eq, Status.isFinished]) unbegun.clean
  | stillborn unbegun names_eq eq => exact (Ended.stillborn unbegun names_eq eq).verdict
  | admitted running | reaching running | calling running | holding running | handled running
  | dispatched running | finishing running | canceling running => exact of_unfinished running.unfinished running.clean
  | spawning spent | completing spent => exact of_unfinished spent.unfinished spent.clean
  | closing ended | settled ended => exact ended.verdict
  | leaving canceled ended => exact ended.verdict

/-- What an execution tells of its steps follows from how they turned out. -/
theorem Verdict.account {e : Engine} {x : Nat} (h : Verdict e.settings.maxDepth a) (recorded : a.Recorded)
    (state : (e.replay x a).map Prod.fst = some a.state) : Account e x a := by
  refine ⟨recorded.indices, recorded.length_le, recorded.types, state, ?_, ?_, ?_, ?_, ?_⟩
  · intro r hr failed
    cases h with
    | clean clean => exact absurd failed (clean r hr)
    | depth history => simp [history] at hr
    | @step before last message names cause history clean _ status children path told error =>
      obtain rfl : r = last := by
        rw [history] at hr
        rcases List.mem_append.mp hr with hr | hr
        · exact absurd failed (clean r hr)
        · exact List.mem_singleton.mp hr
      have at_last : a.history[before.length]? = some r := by simp [history]
      refine ⟨?_, children, message, names, cause, path, told, error⟩
      rw [recorded.getElem_index at_last, history]
      simp
  -- a step has failed exactly if the execution has, with an error that names a step
  · constructor
    · rintro ⟨r, hr, failed⟩
      cases h with
      | clean clean => exact absurd failed (clean r hr)
      | depth history => simp [history] at hr
      | step history clean _ status children path told error => exact ⟨status, _, _, _, _, _, error⟩
    · rintro ⟨status, message, names, i, stepType, cause, error⟩
      cases h with
      | clean _ ne => exact absurd status ne
      | @step before last _ _ _ history clean failed => exact ⟨last, by simp [history], failed⟩
      | depth _ _ _ _ error' => simp [error', Execution.depthError] at error
  · intro status
    cases h with
    | clean _ ne => exact absurd status ne
    | step _ _ _ status _ _ _ error => exact .inl ⟨status, _, _, _, _, _, error⟩
    | depth history status deep path error => exact .inr ⟨status, deep, _, path, error⟩
  · intro completed
    cases h with
    | clean clean _ length => exact ⟨length completed, clean⟩
    | step _ _ _ status => simp [completed] at status
    | depth _ status => simp [completed] at status
  · rintro ⟨status, deep, names, path, error⟩
    cases h with
    | clean _ ne => exact absurd status ne
    | step _ _ _ _ _ _ _ error' => simp [error', Execution.depthError] at error
    | depth history =>
      refine ⟨history, ?_⟩
      simpa [Engine.replay, Execution.replay, history] using state.symm

end Account

namespace Engine

/-- **State threading**: in every state that an engine with a calm bus and writable names can be in, each execution
has one record for each of its first steps, in order; its state is what the processing made of its initial state step
by step; only its last record can be that of a failed step, and then its error names that step. -/
theorem account_of_reachable {e : Engine} (reachable : e.Reachable) (calm : e.Calm) (named : e.WellNamed) {x : Nat}
    {c : Course} (hx : e.courses[x]? = some c) : Account e x c.execution := by
  have sound := reachable.sound calm named
  have threads := sound.threading.threads x c hx
  refine (sound.standing.stands x c hx).verdict.account threads.recorded ?_
  rw [replay, threads.replayed]
  rfl

/-- A run in which the first of two steps answers and the second raises. -/
def brokenRun : Engine :=
  let answers := Rehearsed.resolver "mend" .propagate false ⟨none, .ungated, .returns (.ok (some (.bool "$" true)))⟩ []
  let raises := Rehearsed.resolver "break" .propagate false ⟨none, .ungated, .raises (.failure .tooLarge)⟩ []
  let registry := (Registry.empty.register "mend" ⟨0, answers⟩).register "break" ⟨1, raises⟩
  let steps := [⟨"mend", .null, .empty, by decide⟩, ⟨"break", .null, .empty, by decide⟩]
  (fresh .standard Processing.standard none registry).rehearse 20
    [.start ⟨steps, .text "trial", none, .empty, .empty⟩ .null]

theorem brokenRun_account : ∃ c, brokenRun.courses[0]? = some c ∧
    c.execution.history.map StepRecord.status = [.succeeded, .failed] ∧ Account brokenRun 0 c.execution := by
  have run : Reaches inOrder _ brokenRun := rehearse_reaches _ _ _
  have history : brokenRun.courses[0]?.map (·.execution.history.map StepRecord.status) =
      some [.succeeded, .failed] := by decide +kernel
  obtain ⟨c, hx, history⟩ := Option.map_eq_some_iff.mp history
  exact ⟨c, hx, history, account_of_reachable run.of_fresh.reachable (run.calm_iff.mpr (fresh_calm _ _ _))
    (by decide +kernel) hx⟩

end Engine

end Stepflow
