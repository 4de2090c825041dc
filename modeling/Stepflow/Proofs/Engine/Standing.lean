import Stepflow.Proofs.Engine.Fate

/-!
# Stepflow.Proofs.Engine.Standing — where an execution is when its task stands at a stage

* `Execution.Running`, `Execution.Spent`, `Ended`: an execution in the middle of its steps, behind its last step, and
  at one of its ends.
* `Stands`: what is known of an execution from the stage of its task.  `Moved.stands` and `Touched.stands` keep it.
* `Resting`: the stages at which a task can be without the processor.  A cancellation only ever finds a task there,
  since whoever sends it has the processor.
* `Sound.standing`: all of it holds in every sound state.
-/

namespace Stepflow

namespace Execution

/-- No step of the execution has failed. -/
def Clean (a : Execution) : Prop := ∀ r ∈ a.history, r.status ≠ .failed

/-- The execution has not begun. -/
def Unbegun (a : Execution) : Prop := a = a.origin

/-- The execution runs; the steps before `index` have been dealt with. -/
structure Running (a : Execution) (index : Nat) : Prop where
  status : a.status = .running
  error : a.error = none
  children : a.children = []
  length : a.history.length = index
  clean : a.Clean

/-- All steps of the execution have been dealt with. -/
structure Spent (a : Execution) : Prop where
  unfinished : a.isFinished = false
  begun : a.status ≠ .idle
  error : a.error = none
  length : a.history.length = a.workflow.steps.length
  clean : a.Clean

end Execution

/-- The ends of an execution. -/
inductive Ended (maxDepth : Int) (a : Execution) : Prop
  | completed (status : a.status = .completed) (error : a.error = none)
      (length : a.history.length = a.workflow.steps.length) (clean : a.Clean)
  | failedAt {b : Execution} {now : Rat} {index : Nat} {step : Step} {message : String} {cause : Failure}
      {names : List String} (running : b.Running index) (at_step : b.workflow.steps[index]? = some step)
      (names_eq : b.names = .ok names) (eq : a = b.failedAt now names index step message cause)
  | tooDeep {b : Execution} {now : Rat} {names : List String} (running : b.Running 0) (deep : maxDepth < b.depth)
      (names_eq : b.names = .ok names) (eq : a = b.endWith now .failed (Execution.depthError maxDepth names))
  | canceled {b : Execution} {now : Rat} {index : Nat} {names : List String} {reason : String} (running : b.Running index)
      (names_eq : b.names = .ok names) (eq : a = b.canceledFor now names reason)
  | stillborn {b : Execution} {now : Rat} {names : List String} {reason : String} (unbegun : b.Unbegun)
      (names_eq : b.names = .ok names) (eq : a = b.canceledFor now names reason)

/-- What is known of an execution and its schedule from the life of its task. -/
inductive Stands (maxDepth : Int) (a : Execution) (scheduled : List Workflow) : Life Stage → Prop
  | unbegun {interrupted : Bool} (unbegun : a.Unbegun) (nothing : scheduled = []) :
      Stands maxDepth a scheduled (.live .opening interrupted)
  /-- Canceled before it began; the cancellation is still on its way to the task. -/
  | stillborn {b : Execution} {now : Rat} {names : List String} {reason : String} (unbegun : b.Unbegun)
      (names_eq : b.names = .ok names) (eq : a = b.canceledFor now names reason) :
      Stands maxDepth a scheduled (.live .opening true)
  | admitted (running : a.Running 0) : Stands maxDepth a scheduled (.live .admitted false)
  | reaching {index : Nat} (running : a.Running index) (le : index ≤ a.workflow.steps.length) :
      Stands maxDepth a scheduled (.live (.reaching index) false)
  | calling {index : Nat} {handler : Handler} {script : Script} (running : a.Running index)
      (current : a.currentStep = some index) : Stands maxDepth a scheduled (.live (.calling index handler script) false)
  | holding {index : Nat} {handler : Handler} {next canceled : Script} {interrupted : Bool}
      (running : a.Running index) (current : a.currentStep = some index) :
      Stands maxDepth a scheduled (.live (.holding index handler next canceled) interrupted)
  | handled {index : Nat} {output : Option Value} {status : StepStatus} {error : Option String}
      (running : a.Running index) (current : a.currentStep = some index)
      (result : status = .succeeded ∨ status = .recovered ∧ output = none) :
      Stands maxDepth a scheduled (.live (.handled index output status error) false)
  | dispatched {index : Nat} {interrupted : Bool} (running : a.Running index) (current : a.currentStep = some index) :
      Stands maxDepth a scheduled (.live (.handled index none .dispatched none) interrupted)
  | finishing (running : a.Running a.workflow.steps.length) : Stands maxDepth a scheduled (.live .finishing false)
  | spawning {position : Nat} {rest spawned : List Workflow} (spent : a.Spent) (status : a.status = .spawning)
      (split : scheduled = spawned ++ rest) (length : spawned.length = position) :
      Stands maxDepth a scheduled (.live (.spawning position rest) false)
  | completing (spent : a.Spent) : Stands maxDepth a scheduled (.live .completing false)
  | closing (ended : Ended maxDepth a) : Stands maxDepth a scheduled (.live .closing false)
  | canceling {index : Nat} (running : a.Running index) (current : a.currentStep = some index) :
      Stands maxDepth a scheduled (.live .canceling false)
  | leaving {passOn : Bool} (canceled : a.status = .canceled) (ended : Ended maxDepth a) :
      Stands maxDepth a scheduled (.live (.leaving passOn) false)
  | settled {ending : Ending} (ended : Ended maxDepth a) : Stands maxDepth a scheduled (.over ending)
  /-- Canceled before it began, and nothing told so. -/
  | dropped {ending : Ending} (unbegun : a.Unbegun) : Stands maxDepth a scheduled (.over ending)

/-- The lives of a task that does not have the processor. -/
inductive Resting : Life Stage → Prop
  | opening {interrupted : Bool} : Resting (.live .opening interrupted)
  | holding {index : Nat} {handler : Handler} {next canceled : Script} {interrupted : Bool} :
      Resting (.live (.holding index handler next canceled) interrupted)
  | dispatched {index : Nat} {interrupted : Bool} :
      Resting (.live (.handled index none .dispatched none) interrupted)
  | settled {ending : Ending} : Resting (.over ending)

/-! ## Executions -/

section Executions

variable {a : Execution} {index : Nat} {maxDepth : Int}

theorem Execution.Running.unfinished (h : a.Running index) : a.isFinished = false := by
  simp [Execution.isFinished, h.status, Status.isFinished]

theorem Execution.Running.turnTo (h : a.Running index) (now : Rat) (step : Nat) : (a.turnTo now step).Running index :=
  ⟨h.status, h.error, h.children, h.length, h.clean⟩

theorem Execution.Running.withState (h : a.Running index) (state : State) :
    Execution.Running { a with state := state } index :=
  ⟨h.status, h.error, h.children, h.length, h.clean⟩

theorem Execution.Running.record (h : a.Running index) (now : Rat) (step : Step) {status : StepStatus}
    (error : Option String) (ne : status ≠ .failed) : (a.record now index step status error).Running (index + 1) where
  status := h.status
  error := h.error
  children := h.children
  length := by simp [Execution.record, h.length]
  clean := by
    intro r hr
    rcases List.mem_append.mp hr with hr | hr
    · exact h.clean r hr
    · obtain rfl := List.mem_singleton.mp hr
      exact ne

theorem Execution.Unbegun.status_eq (h : a.Unbegun) : a.status = .idle := by rw [h]; rfl

theorem Execution.Unbegun.state_eq (h : a.Unbegun) : a.state = a.initialState := by rw [h]; rfl

theorem Execution.Unbegun.history_eq (h : a.Unbegun) : a.history = [] := by rw [h]; rfl

theorem Execution.Unbegun.children_eq (h : a.Unbegun) : a.children = [] := by rw [h]; rfl

theorem Execution.Unbegun.error_eq (h : a.Unbegun) : a.error = none := by rw [h]; rfl

theorem Ended.finished (h : Ended maxDepth a) : a.isFinished = true := by
  cases h with
  | completed status => simp [Execution.isFinished, status, Status.isFinished]
  | failedAt _ _ _ eq | tooDeep _ _ _ eq | canceled _ _ eq | stillborn _ _ eq => rw [eq]; rfl

/-- An execution that is idle has not begun, and neither has its task if it is live. -/
theorem Stands.of_idle {scheduled : List Workflow} {life : Life Stage} (h : Stands maxDepth a scheduled life)
    (idle : a.status = .idle) : a.Unbegun ∧ (life.isOver = false → ∃ interrupted, life = .live .opening interrupted) := by
  have unended : ¬ Ended maxDepth a := by
    intro ended
    have finished := ended.finished
    simp [Execution.isFinished, idle, Status.isFinished] at finished
  cases h with
  | unbegun unbegun => exact ⟨unbegun, fun _ => ⟨_, rfl⟩⟩
  | stillborn unbegun names_eq eq => exact absurd (.stillborn unbegun names_eq eq) unended
  | admitted running | reaching running | calling running | holding running | handled running | dispatched running
  | finishing running | canceling running => simp [running.status] at idle
  | spawning spent | completing spent => exact absurd idle spent.begun
  | closing ended | leaving _ ended | settled ended => exact absurd ended unended
  | dropped unbegun => exact ⟨unbegun, fun h => absurd h (by simp [Life.isOver])⟩

/-- An unfinished execution whose task is over has not begun: it was dropped. -/
theorem Stands.unbegun_of_over {scheduled : List Workflow} {life : Life Stage} (h : Stands maxDepth a scheduled life)
    (stopped : life.isOver = true) (unfinished : a.isFinished = false) : a.Unbegun := by
  cases h with
  | settled ended => simp [ended.finished] at unfinished
  | dropped unbegun => exact unbegun
  | _ => cases stopped

/-- The task of an execution that runs is live. -/
theorem Stands.live_of_running {scheduled : List Workflow} {life : Life Stage} (h : Stands maxDepth a scheduled life)
    (running : a.status = .running) : life.isOver = false := by
  cases h with
  | settled ended =>
    have finished := ended.finished
    simp [Execution.isFinished, running, Status.isFinished] at finished
  | dropped unbegun => simp [unbegun.status_eq] at running
  | _ => rfl

/-- A live task that rests has not begun unless its execution runs. -/
theorem Stands.opening_of_rests {scheduled : List Workflow} {life : Life Stage} (h : Stands maxDepth a scheduled life)
    (rests : Resting life) (still : a.status ≠ .running) (live : life.isOver = false) :
    ∃ interrupted, life = .live .opening interrupted := by
  cases rests with
  | opening => exact ⟨_, rfl⟩
  | holding =>
    cases h with
    | holding running => exact absurd running.status still
  | dispatched =>
    cases h with
    | handled running | dispatched running => exact absurd running.status still
  | settled => simp [Life.isOver] at live

end Executions

/-! ## Moves -/

section Moves

variable {e : Engine} {x : Nat} {c c' : Course} {eff : Effect}

/-- An execution that turns to its next step is at that step, behind it or at one of its ends. -/
theorem Advance.stands_reaching {index : Nat} (h : Advance e x c (.reaching index) eff)
    (running : c.execution.Running index) (le : index ≤ c.execution.workflow.steps.length) :
    Stands e.settings.maxDepth eff.execution eff.scheduled (Engine.lifeAfter eff.move) := by
  cases h with
  | exhausted past =>
    have eq := Nat.le_antisymm le (List.getElem?_eq_none_iff.mp past)
    exact .finishing (eq ▸ running)
  | unknown names_eq at_step =>
    refine .closing (.failedAt (running.turnTo _ _) ?_ ?_ rfl)
    · exact at_step
    · exact names_eq
  | skipped at_step =>
    have lt := (List.getElem?_eq_some_iff.mp at_step).1
    exact .reaching ((running.turnTo _ _).record _ _ _ (by simp)) lt
  | dispatched at_step => exact .dispatched (running.turnTo _ _) rfl
  | called at_step => exact .calling (running.turnTo _ _) rfl

/-- An execution stays at its step until the call has ended. -/
theorem Advance.stands_calling {index : Nat} {handler : Handler} {script : Script}
    (h : Advance e x c (.calling index handler script) eff) (running : c.execution.Running index)
    (current : c.execution.currentStep = some index) :
    Stands e.settings.maxDepth eff.execution eff.scheduled (Engine.lifeAfter eff.move) := by
  cases h with
  | remarked | passed => exact .calling running current
  | slept | gaveWay | barred => exact .holding running current
  | answered => exact .handled running current (.inl rfl)
  | yielded => exact .canceling running current
  | unresolved names_eq at_step => exact .closing (.failedAt running at_step names_eq rfl)
  | recovered => exact .handled running current (.inr ⟨rfl, rfl⟩)

/-- An execution is behind its step once the transition is adopted. -/
theorem Advance.stands_handled {index : Nat} {output : Option Value} {status : StepStatus} {error : Option String}
    (h : Advance e x c (.handled index output status error) eff) (running : c.execution.Running index)
    (current : c.execution.currentStep = some index) (ne : status ≠ .failed) :
    Stands e.settings.maxDepth eff.execution eff.scheduled (Engine.lifeAfter eff.move) := by
  cases h with
  | preempted | abandoned => exact .canceling running current
  | unprocessed names_eq no_reason at_step => exact .closing (.failedAt running at_step names_eq rfl)
  | adopted no_reason at_step =>
    have lt := (List.getElem?_eq_some_iff.mp at_step).1
    exact .reaching ((running.withState _).record _ _ error ne) lt

/-- A move of the task of an execution takes it to where the task stands then. -/
theorem Advance.stands {stage : Stage} (h : Advance e x c stage eff)
    (stands : Stands e.settings.maxDepth c.execution c.scheduled (.live stage false)) :
    Stands e.settings.maxDepth eff.execution eff.scheduled (Engine.lifeAfter eff.move) := by
  -- one case for each stage: the moves from there, and where they lead
  cases stands with
  | unbegun unbegun nothing =>
    cases h with
    | begun =>
      exact .admitted ⟨rfl, unbegun.error_eq, unbegun.children_eq, by simp [unbegun.history_eq],
        by simp [Execution.Clean, unbegun.history_eq]⟩
  | admitted running =>
    cases h with
    | tooDeep names_eq deep => exact .closing (.tooDeep running deep names_eq rfl)
    | shallow => exact .reaching running (Nat.zero_le _)
  | reaching running le => exact h.stands_reaching running le
  | calling running current => exact h.stands_calling running current
  | holding running current =>
    cases h with
    | resumed => exact .calling running current
  | handled running current result =>
    exact h.stands_handled running current (by rcases result with rfl | ⟨rfl, -⟩ <;> simp)
  | dispatched running current => exact h.stands_handled running current (by simp)
  | finishing running =>
    cases h with
    | unscheduled nothing =>
      exact .completing ⟨running.unfinished, by simp [running.status], running.error, running.length, running.clean⟩
    | scheduled something =>
      have split : c.scheduled = [] ++ c.scheduled := rfl
      exact .spawning ⟨rfl, by simp, running.error, running.length, running.clean⟩ rfl split rfl
  | @spawning _ _ spawned spent status split length =>
    cases h with
    | spawnedAll => exact .completing spent
    | @spawned position workflow rest =>
      have split' : c.scheduled = (spawned ++ [workflow]) ++ rest := by simp [split]
      exact .spawning ⟨spent.unfinished, spent.begun, spent.error, spent.length, spent.clean⟩ status split'
        (by simp [length])
    | @rejected position workflow rest =>
      have split' : c.scheduled = (spawned ++ [workflow]) ++ rest := by simp [split]
      exact .spawning spent status split' (by simp [length])
  | completing spent =>
    cases h with
    | completed => exact .closing (.completed rfl spent.error spent.length spent.clean)
  | closing ended =>
    cases h with
    | closed => exact .settled ended
  | canceling running current =>
    cases h with
    | passedOver finished => exact absurd finished (by simp [running.unfinished])
    | acknowledged names_eq => exact .leaving rfl (.canceled running names_eq rfl)
  | leaving canceled ended =>
    cases h with
    | left => exact .settled ended

/-- A cancellation meets a task where it rests. -/
theorem Moved.stands (h : Moved e x c eff)
    (stands : Stands e.settings.maxDepth c.execution c.scheduled c.life) :
    Stands e.settings.maxDepth eff.execution eff.scheduled (Engine.lifeAfter eff.move) := by
  cases h with
  | advanced life advance =>
    rw [life] at stands
    exact advance.stands stands
  | diverted life =>
    rw [life] at stands
    cases stands with
    | unbegun unbegun => exact .dropped unbegun
    | stillborn unbegun names_eq eq => exact .settled (.stillborn unbegun names_eq eq)
    | holding running current => exact .calling running current
    | dispatched running current => exact .canceling running current

/-- A task that gives the processor away rests. -/
theorem Moved.rests (h : Moved e x c eff) (gives : ∀ stage, eff.move ≠ .go stage) :
    Resting (Engine.lifeAfter eff.move) := by
  cases h with
  | advanced life advance =>
    cases advance
    case dispatched => exact .dispatched
    case slept | gaveWay | barred => exact .holding
    case closed | left => exact .settled
    all_goals exact absurd rfl (gives _)
  | @diverted stage life =>
    cases stage
    case opening | leaving => exact .settled
    case refusing event last =>
      cases last with
      | true => exact .settled
      | false => exact absurd rfl (gives _)
    all_goals exact absurd rfl (gives _)

theorem Resting.interrupt {life : Life Stage} (h : Resting life) : Resting life.interrupt := by
  cases h <;> constructor

theorem Stands.interrupt {maxDepth : Int} {a : Execution} {scheduled : List Workflow} {life : Life Stage}
    (h : Stands maxDepth a scheduled life) (rests : Resting life) : Stands maxDepth a scheduled life.interrupt := by
  cases rests with
  | opening =>
    cases h with
    | unbegun unbegun nothing => exact .unbegun unbegun nothing
    | stillborn unbegun names_eq eq => exact .stillborn unbegun names_eq eq
  | holding =>
    cases h with
    | holding running current => exact .holding running current
  | dispatched =>
    cases h with
    | handled running current result => simp at result
    | dispatched running current => exact .dispatched running current
  | settled => exact h

/-- Only an execution that has not begun is marked as canceled. -/
theorem Marked.unbegun {maxDepth : Int} {now : Rat} (marked : Marked now c c')
    (stands : Stands maxDepth c.execution c.scheduled c.life) : c.execution.Unbegun := by
  cases marked with
  | waiting _ idle => exact (stands.of_idle idle).1
  | stranded _ unfinished life => exact stands.unbegun_of_over (by rw [life]; rfl) unfinished

/-- What happens to a resting task from outside leaves it where it is, at the most marked as canceled. -/
theorem Touched.stands {maxDepth : Int} {now : Rat} (h : Touched now c c') (rests : Resting c.life)
    (stands : Stands maxDepth c.execution c.scheduled c.life) :
    Stands maxDepth c'.execution c'.scheduled c'.life ∧ Resting c'.life := by
  rcases h with signaled | marked
  · rw [signaled.execution, signaled.scheduled]
    rcases signaled.life with life | life
    · rw [life]
      exact ⟨stands, rests⟩
    · rw [life]
      exact ⟨stands.interrupt rests, rests.interrupt⟩
  · cases marked with
    | waiting names_eq idle life =>
      rw [life] at stands rests
      cases rests with
      | opening =>
        cases stands with
        | unbegun unbegun => exact ⟨.stillborn unbegun names_eq rfl, .opening⟩
        | stillborn unbegun names_eq eq => simp [eq] at idle
      | holding =>
        cases stands with
        | holding running => simp [running.status] at idle
      | dispatched =>
        cases stands with
        | handled running current result => simp at result
        | dispatched running => simp [running.status] at idle
    | stranded names_eq unfinished life =>
      have unbegun := stands.unbegun_of_over (by rw [life]; rfl) unfinished
      exact ⟨.settled (.stillborn unbegun names_eq rfl), .settled⟩

end Moves

/-! ## Every sound state -/

namespace Engine

/-- Every execution is where its task stands, and every task without the processor rests. -/
structure Standing (e : Engine) : Prop where
  stands : ∀ (x : Nat) (c : Course), e.courses[x]? = some c →
    Stands e.settings.maxDepth c.execution c.scheduled c.life
  rests : ∀ (x : Nat) (c : Course), e.courses[x]? = some c → e.current ≠ some (.course x) → Resting c.life

section Standing

variable {e e' : Engine}

/-- A task that is over or does not have the processor rests. -/
theorem Standing.rests_of (h : e.Standing) {x : Nat} {c : Course} (hx : e.courses[x]? = some c)
    (away : e.current = some (.course x) → c.life.isOver = true) : Resting c.life := by
  by_cases current : e.current = some (.course x)
  · have stopped := away current
    cases life : c.life with
    | live stage interrupted => simp [life, Life.isOver] at stopped
    | ended ending => exact .settled
  · exact h.rests x c hx current

/-- An execution that an act brings has not begun. -/
theorem Outline.newborn_unbegun (h : Outline e e') {x : Nat} {execution : Execution}
    (hx' : e'.courses[x]? = some (.fresh execution)) (hx : e.courses[x]? = none) : execution.Unbegun := by
  obtain ⟨-, born, eq, ⟨workflow, state, rfl⟩ | ⟨p, c, eff, -, -, moved, born⟩⟩ := h.newborn hx' hx
  · obtain rfl : execution = _ := congrArg Course.execution eq
    rfl
  · obtain ⟨position, workflow, rest, -, -, rfl⟩ := moved.born_eq born
    obtain rfl : execution = _ := congrArg Course.execution eq
    rfl

theorem Outline.stands (h : Outline e e') (standing : e.Standing) {x : Nat} {c' : Course}
    (hx' : e'.courses[x]? = some c') : Stands e'.settings.maxDepth c'.execution c'.scheduled c'.life := by
  rw [h.frame.1]
  cases hx : e.courses[x]? with
  | none =>
    obtain ⟨-, execution, rfl, -⟩ := h.newborn hx' hx
    exact .unbegun (h.newborn_unbegun hx' hx) rfl
  | some c =>
    obtain ⟨d, hd, fate⟩ := h.fate hx
    obtain rfl : c' = d := by simpa [hx'] using hd
    have stands := standing.stands x c hx
    cases fate with
    | kept => exact stands
    | moved current moved => exact moved.stands stands
    | touched touched away => exact (touched.stands (standing.rests_of hx away) stands).1

theorem Outline.rests (h : Outline e e') (standing : e.Standing) {x : Nat} {c' : Course}
    (hx' : e'.courses[x]? = some c') (away : e'.current ≠ some (.course x)) : Resting c'.life := by
  cases hx : e.courses[x]? with
  | none =>
    obtain ⟨-, execution, rfl, -⟩ := h.newborn hx' hx
    exact .opening
  | some c =>
    obtain ⟨d, hd, fate⟩ := h.fate hx
    obtain rfl : c' = d := by simpa [hx'] using hd
    cases fate with
    | touched touched away => exact (touched.stands (standing.rests_of hx away) (standing.stands x c hx)).2
    | moved current moved after => exact moved.rests fun stage go => away (after ⟨stage, go⟩)
    | kept still =>
      by_cases current : e.current = some (.course x)
      · rw [still current] at away
        exact absurd current away
      · exact standing.rests x _ hx current

theorem Outline.standing (h : Outline e e') (standing : e.Standing) : e'.Standing :=
  ⟨fun _ _ hx' => h.stands standing hx', fun _ _ hx' away => h.rests standing hx' away⟩

/-- **Standing**: in every sound state each execution is where its task stands. -/
theorem Sound.standing (h : e.Sound) : e.Standing := by
  refine h.induction (fun settings process bus registry => ⟨?_, ?_⟩) fun e a _ _ outline standing =>
    outline.standing standing
  · intro x c hx
    simp [fresh] at hx
  · intro x c hx
    simp [fresh] at hx

end Standing

end Engine

end Stepflow
