import Stepflow.Proofs.Engine.Interpreter

/-!
# Stepflow.Proofs.Engine.Tracking — an execution keeps step with the interpreter

* `Engine.conduct`: what the executions of an engine go by.  `Conduct.Answers`: the resolvers that are waited for answer as
  it says, however long they take.
* `Conduct.due`: what the interpreter makes of the steps of an execution.  `Conduct.rest`: the same from one step on, with
  what the execution has come to.  One equation for each way to deal with a step says how the rest gets shorter.
* `Tracks`: at each stage of its task an execution has come to where the interpreter still gives what is due.
  `Advance.tracks`: a move of its task keeps this.  `Tracks.concluded`: at its end it has what is due.
-/

namespace Stepflow

/-- What the executions of an engine go by. -/
def Engine.conduct (e : Engine) (answer : String → Value → Except Raised (Option Value)) : Conduct :=
  ⟨e.settings, e.process, e.registry, answer⟩

namespace Conduct

/-- Whatever they wait for, the resolvers that are waited for end their calls with the answers. -/
def Answers (k : Conduct) : Prop :=
  ∀ stepType handler, k.registry.find? stepType = some handler → handler.resolver.detached = false →
    ∀ n payload, (handler.resolver.respond n payload).run.2 = k.answer stepType payload

/-- What the interpreter makes of the steps of an execution. -/
def due (k : Conduct) (a : Execution) : Walked := k.outcome a.workflow a.path a.depth a.initialState

/-- What the interpreter makes of an execution and all that comes of it. -/
def tree (k : Conduct) (a : Execution) : Tree := k.interpret a.workflow a.path a.depth a.initialState

/-- What the interpreter makes of the steps from `index` on, with what an execution has come to. -/
def rest (k : Conduct) (a : Execution) (scheduled : List Workflow) (index : Nat) : Walked :=
  k.walk (pathNames a.path) index (a.workflow.steps.drop index) a.state a.history scheduled

section Rest

variable {k : Conduct} {a b : Execution} {scheduled : List Workflow} {index : Nat} {step : Step}

theorem due_congr (h : b.origin = a.origin) : k.due b = k.due a := by
  unfold due
  rw [Execution.workflow_eq h, Execution.path_eq h, Execution.depth_eq h, Execution.initialState_eq h]

theorem tree_congr (h : b.origin = a.origin) : k.tree b = k.tree a := by
  unfold tree
  rw [Execution.workflow_eq h, Execution.path_eq h, Execution.depth_eq h, Execution.initialState_eq h]

theorem due_of_deep (deep : k.settings.maxDepth < a.depth) (state : a.state = a.initialState)
    (history : a.history = []) :
    k.due a = ⟨a.state, a.history, [], some (.failed, Execution.depthError k.settings.maxDepth (pathNames a.path))⟩ := by
  unfold due outcome
  rw [if_pos deep, state, history]

theorem due_of_shallow (shallow : ¬ k.settings.maxDepth < a.depth) (state : a.state = a.initialState)
    (history : a.history = []) : k.due a = k.rest a [] 0 := by
  unfold due outcome rest
  rw [if_neg shallow, state, history]
  rfl

theorem drop_of_step (at_step : a.workflow.steps[index]? = some step) :
    a.workflow.steps.drop index = step :: a.workflow.steps.drop (index + 1) := by
  obtain ⟨lt, eq⟩ := List.getElem?_eq_some_iff.mp at_step
  rw [List.drop_eq_getElem_cons lt, eq]

theorem rest_past (past : a.workflow.steps[index]? = none) :
    k.rest a scheduled index = ⟨a.state, a.history, scheduled, none⟩ := by
  unfold rest
  rw [List.drop_eq_nil_of_le (List.getElem?_eq_none_iff.mp past)]
  rfl

theorem rest_skipped (now : Rat) {error : String} (at_step : a.workflow.steps[index]? = some step)
    (resolved : k.resolve step = .skipped error) :
    k.rest a scheduled index = k.rest (a.record now index step .skipped (some error)) scheduled (index + 1) := by
  unfold rest
  rw [drop_of_step at_step, walk, resolved]
  rfl

theorem rest_failed {message : String} {cause : Failure} (at_step : a.workflow.steps[index]? = some step)
    (resolved : k.resolve step = .failed message cause) :
    k.rest a scheduled index = ⟨a.state, a.history ++ [⟨index, step.stepType, .failed, some cause.message⟩], scheduled,
      some (.failed, Execution.errorAt (pathNames a.path) index step message cause)⟩ := by
  unfold rest
  rw [drop_of_step at_step, walk, resolved]

theorem rest_canceled (at_step : a.workflow.steps[index]? = some step) (resolved : k.resolve step = .canceled)
    (current : a.currentStep = some index) :
    k.rest a scheduled index = ⟨a.state, a.history, scheduled,
      some (.canceled, a.cancelError (pathNames a.path) Engine.callerReason)⟩ := by
  unfold rest Execution.cancelError
  rw [drop_of_step at_step, walk, resolved, current]
  rfl

section Given

variable {output : Option Value} {status : StepStatus} {error : Option String}

theorem rest_adopted (now : Rat) {transition : Transition} (at_step : a.workflow.steps[index]? = some step)
    (resolved : k.resolve step = .given output status error)
    (processed : k.process a.state step output = .ok transition) :
    k.rest a scheduled index = k.rest ({ a with state := transition.newState }.record now index step status error)
      (scheduled ++ transition.workflows) (index + 1) := by
  unfold rest
  rw [drop_of_step at_step, walk, resolved]
  dsimp only
  rw [processed]
  rfl

theorem rest_unprocessed {f : Failure} (at_step : a.workflow.steps[index]? = some step)
    (resolved : k.resolve step = .given output status error)
    (processed : k.process a.state step output = .error (.failure f)) :
    k.rest a scheduled index = ⟨a.state, a.history ++ [⟨index, step.stepType, .failed, some f.message⟩], scheduled,
      some (.failed, Execution.errorAt (pathNames a.path) index step "state processing failed" f)⟩ := by
  unfold rest
  rw [drop_of_step at_step, walk, resolved]
  dsimp only
  rw [processed]

theorem rest_abandoned (at_step : a.workflow.steps[index]? = some step)
    (resolved : k.resolve step = .given output status error)
    (processed : k.process a.state step output = .error .canceled) (current : a.currentStep = some index) :
    k.rest a scheduled index = ⟨a.state, a.history, scheduled,
      some (.canceled, a.cancelError (pathNames a.path) Engine.callerReason)⟩ := by
  unfold rest Execution.cancelError
  rw [drop_of_step at_step, walk, resolved, current]
  dsimp only
  rw [processed]
  rfl

end Given

end Rest

end Conduct

/-! ## The stages -/

/-- An execution has ended as the interpreter does. -/
inductive Concluded (k : Conduct) (a : Execution) (scheduled : List Workflow) : Prop
  | completed (status : a.status = .completed) (error_eq : a.error = none)
      (due : k.due a = ⟨a.state, a.history, scheduled, none⟩)
  | ended {error : Failure} (status : a.status = .failed ∨ a.status = .canceled) (error_eq : a.error = some error)
      (due : k.due a = ⟨a.state, a.history, scheduled, some (a.status, error)⟩)

/-- Where an execution has come to what the interpreter has, by the stage of its task. -/
inductive Tracks (k : Conduct) (a : Execution) (scheduled : List Workflow) : Life Stage → Prop
  | opening (unbegun : a.Unbegun) (nothing : scheduled = []) : Tracks k a scheduled (.live .opening false)
  | admitted (state : a.state = a.initialState) (history : a.history = []) (nothing : scheduled = []) :
      Tracks k a scheduled (.live .admitted false)
  | reaching {index : Nat} (due : k.due a = k.rest a scheduled index) :
      Tracks k a scheduled (.live (.reaching index) false)
  | calling {index : Nat} {step : Step} {handler : Handler} {script : Script} (due : k.due a = k.rest a scheduled index)
      (at_step : a.workflow.steps[index]? = some step) (bound : k.registry.find? step.stepType = some handler)
      (attached : handler.resolver.detached = false) (answer : script.run.2 = k.answer step.stepType step.payload) :
      Tracks k a scheduled (.live (.calling index handler script) false)
  | holding {index : Nat} {step : Step} {handler : Handler} {next canceled : Script}
      (due : k.due a = k.rest a scheduled index) (at_step : a.workflow.steps[index]? = some step)
      (bound : k.registry.find? step.stepType = some handler) (attached : handler.resolver.detached = false)
      (answer : next.run.2 = k.answer step.stepType step.payload) :
      Tracks k a scheduled (.live (.holding index handler next canceled) false)
  | handled {index : Nat} {step : Step} {output : Option Value} {status : StepStatus} {error : Option String}
      (due : k.due a = k.rest a scheduled index) (at_step : a.workflow.steps[index]? = some step)
      (resolved : k.resolve step = .given output status error) :
      Tracks k a scheduled (.live (.handled index output status error) false)
  | finishing (due : k.due a = ⟨a.state, a.history, scheduled, none⟩) : Tracks k a scheduled (.live .finishing false)
  | spawning {position : Nat} {rest : List Workflow} (due : k.due a = ⟨a.state, a.history, scheduled, none⟩) :
      Tracks k a scheduled (.live (.spawning position rest) false)
  | completing (due : k.due a = ⟨a.state, a.history, scheduled, none⟩) : Tracks k a scheduled (.live .completing false)
  | closing (concluded : Concluded k a scheduled) : Tracks k a scheduled (.live .closing false)
  | canceling (due : k.due a = ⟨a.state, a.history, scheduled,
      some (.canceled, a.cancelError (pathNames a.path) Engine.callerReason)⟩) :
      Tracks k a scheduled (.live .canceling false)
  | leaving {passOn : Bool} (concluded : Concluded k a scheduled) : Tracks k a scheduled (.live (.leaving passOn) false)
  | settled {ending : Ending} (concluded : Concluded k a scheduled) : Tracks k a scheduled (.over ending)

section Tracks

variable {k : Conduct} {a : Execution} {scheduled : List Workflow}

theorem pathNames_of_pathTexts {i : Nat} {path : List Datum} {names : List String}
    (h : Execution.pathTexts i path = .ok names) : pathNames path = names := by
  rw [Engine.path_of_pathTexts h]
  simp [pathNames, List.filterMap_map]

/-- The answer to a payload decides what comes of a step that is waited for. -/
theorem Conduct.resolve_attached {step : Step} {handler : Handler}
    (bound : k.registry.find? step.stepType = some handler) (attached : handler.resolver.detached = false) :
    k.resolve step =
      match k.answer step.stepType step.payload with
      | .ok output => .given output .succeeded none
      | .error .canceled => .canceled
      | .error (.failure f) =>
        match handler.resolver.policy with
        | .propagate => .failed "step resolution failed" f
        | .swallow => .given none .recovered (some f.message) := by
  unfold resolve
  rw [bound]
  dsimp only
  rw [attached]
  rfl

/-- An execution that a step ends has ended as the interpreter does if that is what the interpreter makes of the step. -/
theorem Concluded.failedAt (now : Rat) {index : Nat} {step : Step} {message : String} {cause : Failure} {names : List String}
    (names_eq : a.names = .ok names) (due : k.due a =
      ⟨a.state, a.history ++ [⟨index, step.stepType, .failed, some cause.message⟩], scheduled,
        some (.failed, Execution.errorAt (pathNames a.path) index step message cause)⟩) :
    Concluded k (a.failedAt now names index step message cause) scheduled := by
  rw [pathNames_of_pathTexts names_eq] at due
  exact .ended (.inl rfl) rfl due

/-- What has ended has what is due. -/
theorem Tracks.concluded {maxDepth : Int} {life : Life Stage} (h : Tracks k a scheduled life)
    (stands : Stands maxDepth a scheduled life) (finished : a.isFinished = true) : Concluded k a scheduled := by
  have running {index : Nat} : ¬ a.Running index := fun running => by simp [running.unfinished] at finished
  have spent : ¬ a.Spent := fun spent => by simp [spent.unfinished] at finished
  cases h with
  | closing concluded | leaving concluded | settled concluded => exact concluded
  | opening unbegun => simp [Execution.isFinished, unbegun.status_eq, Status.isFinished] at finished
  | admitted | reaching | calling | holding | handled | finishing | canceling =>
    cases stands
    all_goals exact absurd ‹_› running
  | spawning | completing =>
    cases stands
    all_goals exact absurd ‹_› spent

end Tracks

/-! ## Moves -/

section Moves

variable {e : Engine} {x : Nat} {c : Course} {eff : Effect} {answer : String → Value → Except Raised (Option Value)}

/-- The next step is turned to as the interpreter does. -/
theorem Advance.tracks_reaching {index : Nat} (h : Advance e x c (.reaching index) eff)
    (answers : (e.conduct answer).Answers)
    (due : (e.conduct answer).due c.execution = (e.conduct answer).rest c.execution c.scheduled index) :
    Tracks (e.conduct answer) eff.execution eff.scheduled (Engine.lifeAfter eff.move) := by
  have due_eq := Conduct.due_congr (k := e.conduct answer) h.origin_eq
  cases h with
  | exhausted past => exact .finishing (due.trans (Conduct.rest_past past))
  | @unknown _ step names names_eq at_step unbound strict =>
    have resolved : (e.conduct answer).resolve step =
        .failed "unknown step type" (.unknownStepType step.stepType) := by
      simp [Conduct.resolve, Engine.conduct, unbound, strict]
    have failed := due.trans (Conduct.rest_failed at_step resolved)
    exact .closing (Concluded.failedAt _ names_eq (by exact failed))
  | @skipped _ step at_step unbound lenient =>
    have resolved : (e.conduct answer).resolve step = .skipped (Failure.unknownStepType step.stepType).message := by
      simp [Conduct.resolve, Engine.conduct, unbound, lenient]
    have skipped := due.trans (Conduct.rest_skipped e.clock at_step resolved)
    exact .reaching (due_eq.trans skipped)
  | @dispatched _ step handler at_step bound detached =>
    have resolved : (e.conduct answer).resolve step = .given none .dispatched none := by
      simp [Conduct.resolve, Engine.conduct, bound, detached]
    exact .handled (due_eq.trans due) at_step resolved
  | called at_step bound attached =>
    exact .calling (due_eq.trans due) at_step bound attached (answers _ _ bound attached _ _)

/-- A call goes on to its answer, and the answer decides as it does for the interpreter. -/
theorem Advance.tracks_calling {index : Nat} {handler : Handler} {script : Script}
    (h : Advance e x c (.calling index handler script) eff)
    (stands : Stands e.settings.maxDepth c.execution c.scheduled (.live (.calling index handler script) false))
    (tracks : Tracks (e.conduct answer) c.execution c.scheduled (.live (.calling index handler script) false)) :
    Tracks (e.conduct answer) eff.execution eff.scheduled (Engine.lifeAfter eff.move) := by
  cases tracks with
  | @calling _ step _ _ due at_step bound attached answer_eq =>
    have resolved := Conduct.resolve_attached bound attached
    rw [← answer_eq] at resolved
    cases h with
    | remarked | passed => exact .calling due at_step bound attached answer_eq
    | slept | gaveWay | barred => exact .holding due at_step bound attached answer_eq
    | answered => exact .handled due at_step resolved
    | yielded =>
      cases stands with
      | calling running current => exact .canceling (due.trans (Conduct.rest_canceled at_step resolved current))
    | unresolved names_eq here propagate =>
      obtain rfl := Option.some.inj (here.symm.trans at_step)
      rw [propagate] at resolved
      exact .closing (Concluded.failedAt _ names_eq (due.trans (Conduct.rest_failed at_step resolved)))
    | recovered here swallow =>
      rw [swallow] at resolved
      exact .handled due at_step resolved

/-- The processing goes by the state, the step and the output alone. -/
theorem Advance.tracks_handled {index : Nat} {output : Option Value} {status : StepStatus} {error : Option String}
    (h : Advance e x c (.handled index output status error) eff) (still : c.reason = none)
    (stands : Stands e.settings.maxDepth c.execution c.scheduled (.live (.handled index output status error) false))
    (tracks : Tracks (e.conduct answer) c.execution c.scheduled (.live (.handled index output status error) false)) :
    Tracks (e.conduct answer) eff.execution eff.scheduled (Engine.lifeAfter eff.move) := by
  have due_eq := Conduct.due_congr (k := e.conduct answer) h.origin_eq
  cases tracks with
  | handled due at_step resolved =>
    cases h with
    | preempted reason => simp [still] at reason
    | abandoned no_reason here processed =>
      obtain rfl := Option.some.inj (here.symm.trans at_step)
      cases stands with
      | handled running current | dispatched running current =>
        exact .canceling (due.trans (Conduct.rest_abandoned at_step resolved processed current))
    | unprocessed names_eq no_reason here processed =>
      obtain rfl := Option.some.inj (here.symm.trans at_step)
      exact .closing (Concluded.failedAt _ names_eq (due.trans (Conduct.rest_unprocessed at_step resolved processed)))
    | adopted no_reason here processed =>
      obtain rfl := Option.some.inj (here.symm.trans at_step)
      exact .reaching (due_eq.trans (due.trans (Conduct.rest_adopted _ at_step resolved processed)))

/-- A move of a task that nobody cancels keeps step with the interpreter. -/
theorem Advance.tracks {stage : Stage} (h : Advance e x c stage eff) (answers : (e.conduct answer).Answers)
    (stands : Stands e.settings.maxDepth c.execution c.scheduled (.live stage false)) (still : c.reason = none)
    (tracks : Tracks (e.conduct answer) c.execution c.scheduled (.live stage false)) :
    Tracks (e.conduct answer) eff.execution eff.scheduled (Engine.lifeAfter eff.move) := by
  have due_eq := Conduct.due_congr (k := e.conduct answer) h.origin_eq
  cases tracks with
  | opening unbegun nothing =>
    cases h with
    | begun => exact .admitted unbegun.state_eq unbegun.history_eq nothing
  | admitted state history nothing =>
    cases h with
    | tooDeep names_eq deep =>
      have due := Conduct.due_of_deep (k := e.conduct answer) deep state history
      rw [pathNames_of_pathTexts names_eq] at due
      rw [nothing]
      exact .closing (.ended (.inl rfl) rfl (due_eq.trans due))
    | shallow shallow =>
      rw [nothing]
      exact .reaching (Conduct.due_of_shallow shallow state history)
  | reaching due => exact h.tracks_reaching answers due
  | calling due at_step bound attached answer_eq =>
    exact h.tracks_calling stands (.calling due at_step bound attached answer_eq)
  | holding due at_step bound attached answer_eq =>
    cases h with
    | resumed => exact .calling due at_step bound attached answer_eq
  | handled due at_step resolved => exact h.tracks_handled still stands (.handled due at_step resolved)
  | finishing due =>
    cases h with
    | unscheduled => exact .completing (due_eq.trans due)
    | scheduled => exact .spawning (due_eq.trans due)
  | spawning due =>
    cases h with
    | spawnedAll => exact .completing due
    | spawned | rejected => exact .spawning (due_eq.trans due)
  | completing due =>
    cases h with
    | completed =>
      cases stands with
      | completing spent => exact .closing (.completed rfl spent.error (due_eq.trans due))
  | closing concluded =>
    cases h with
    | closed => exact .settled concluded
  -- without a cancellation the task got here because its resolver raised one of its own
  | canceling due =>
    cases h with
    | passedOver finished =>
      cases stands with
      | canceling running => simp [running.unfinished] at finished
    | acknowledged names_eq =>
      rw [pathNames_of_pathTexts names_eq] at due
      have reason : givenReason c.reason = Engine.callerReason := by rw [still]; rfl
      rw [reason]
      exact .leaving (.ended (.inr rfl) rfl (due_eq.trans due))
  | leaving concluded =>
    cases h with
    | left => exact .settled concluded

end Moves

end Stepflow
