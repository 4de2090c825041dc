import Stepflow.Proofs.Engine.Acts

/-!
# Stepflow.Proofs.Engine.Advance — what one move of a task can do

In a calm engine whose paths are texts a move of the task of an execution does one of the things that `Advance`
lists, and nothing else: it changes that execution and its task, may accept a child or queue a detached call, and
notes the calls it makes and the events it announces (`Effect`, `Engine.realize`).  A move of a detached call only
changes that call and its notes (`Delivers`).  The two lists are what later proofs reason by; that they are complete is
shown where the moves are opened.
-/

namespace Stepflow

/-! ## Effects -/

namespace CallNote

/-- The execution for which a resolver is called. -/
def execution : CallNote → Nat
  | .begun x _ _ _ | .ended x _ _ => x

/-- The index of the step for which a resolver is called. -/
def index : CallNote → Nat
  | .begun _ i _ _ | .ended _ i _ => i

end CallNote

/-- What a move of the task of an execution does. -/
structure Effect where
  execution : Execution
  scheduled : List Workflow
  move : Move Stage
  /-- A child that is accepted. -/
  born : Option Execution
  /-- A detached call that is queued. -/
  dispatched : Option Delivery
  notes : List CallNote
  events : List Lifecycle

/-- A move that goes on with an execution as it is, or as it becomes, and does nothing else. -/
abbrev Effect.quiet (execution : Execution) (scheduled : List Workflow) (move : Move Stage) : Effect :=
  ⟨execution, scheduled, move, none, none, [], []⟩

/-- The execution and its task after a move; the end of the task takes the reason of a cancellation with it. -/
def Effect.course (eff : Effect) (c : Course) : Course where
  execution := eff.execution
  scheduled := eff.scheduled
  life := Engine.lifeAfter eff.move
  reason := match eff.move with
    | .stop _ => none
    | _ => c.reason

/-- An execution that has just been accepted, with its task. -/
def Course.fresh (execution : Execution) : Course := ⟨execution, [], .live .opening false, none⟩

namespace Execution

/-- The error of an execution that a step ends. -/
def errorAt (names : List String) (index : Nat) (step : Step) (message : String) (cause : Failure) : Failure :=
  .execution false message names (some (index : Int)) (some step.stepType) (some cause)

/-- An execution that a step ends. -/
def failedAt (x : Execution) (now : Rat) (names : List String) (index : Nat) (step : Step) (message : String)
    (cause : Failure) : Execution :=
  (x.record now index step .failed (some cause.message)).endWith now .failed (errorAt names index step message cause)

/-- The error of an execution that lies too deep. -/
def depthError (maxDepth : Int) (names : List String) : Failure :=
  .execution false ("maximum spawn depth " ++ toString maxDepth ++ " exceeded") names none none none

/-- The error of an execution that is canceled for a reason. -/
def cancelError (x : Execution) (names : List String) (reason : String) : Failure :=
  .execution true ("canceled: " ++ reason) names (x.currentStep.map (fun (i : Nat) => (i : Int))) none none

/-- An execution that is canceled for a reason. -/
def canceledFor (x : Execution) (now : Rat) (names : List String) (reason : String) : Execution :=
  x.endWith now .canceled (x.cancelError names reason)

section Turns

variable (x : Execution) (now : Rat) (index : Nat)

@[simp] theorem turnTo_workflow : (x.turnTo now index).workflow = x.workflow := rfl

@[simp] theorem turnTo_status : (x.turnTo now index).status = x.status := rfl

@[simp] theorem turnTo_state : (x.turnTo now index).state = x.state := rfl

@[simp] theorem turnTo_history : (x.turnTo now index).history = x.history := rfl

@[simp] theorem turnTo_children : (x.turnTo now index).children = x.children := rfl

@[simp] theorem complete_status : (x.complete now).status = .completed := rfl

@[simp] theorem complete_state : (x.complete now).state = x.state := rfl

@[simp] theorem complete_history : (x.complete now).history = x.history := rfl

@[simp] theorem complete_children : (x.complete now).children = x.children := rfl

end Turns

section Ends

variable (x : Execution) (now : Rat) (names : List String) (reason : String) (index : Nat) (step : Step)
  (message : String) (cause : Failure)

@[simp] theorem canceledFor_status : (x.canceledFor now names reason).status = .canceled := rfl

@[simp] theorem canceledFor_state : (x.canceledFor now names reason).state = x.state := rfl

@[simp] theorem canceledFor_history : (x.canceledFor now names reason).history = x.history := rfl

@[simp] theorem canceledFor_children : (x.canceledFor now names reason).children = x.children := rfl

@[simp] theorem failedAt_status : (x.failedAt now names index step message cause).status = .failed := rfl

@[simp] theorem failedAt_state : (x.failedAt now names index step message cause).state = x.state := rfl

@[simp] theorem failedAt_history : (x.failedAt now names index step message cause).history =
    x.history ++ [⟨index, step.stepType, .failed, some cause.message⟩] := rfl

@[simp] theorem failedAt_children : (x.failedAt now names index step message cause).children = x.children := rfl

end Ends

end Execution

/-- The reason that the error of a canceled execution gives. -/
def givenReason (reason : Option String) : String :=
  let given := reason.getD Engine.callerReason
  if given.isEmpty then Engine.callerReason else given

/-- What the move of the task of execution number `x` at a stage can do in a calm engine. -/
inductive Advance (e : Engine) (x : Nat) (c : Course) : Stage → Effect → Prop
  | begun : Advance e x c .opening
      ⟨{ c.execution with status := .running }, c.scheduled, .go .admitted, none, none, [],
        [.started x c.execution.path]⟩
  | tooDeep {names : List String} (names_eq : c.execution.names = .ok names)
      (deep : e.settings.maxDepth < c.execution.depth) : Advance e x c .admitted
      ⟨c.execution.endWith e.clock .failed (Execution.depthError e.settings.maxDepth names), c.scheduled, .go .closing,
        none, none, [],
        [.failed x c.execution.path (Execution.depthError e.settings.maxDepth names).message]⟩
  | shallow (shallow : ¬ e.settings.maxDepth < c.execution.depth) : Advance e x c .admitted
      (.quiet c.execution c.scheduled (.go (.reaching 0)))
  | exhausted {index : Nat} (past : c.execution.workflow.steps[index]? = none) : Advance e x c (.reaching index)
      (.quiet c.execution c.scheduled (.go .finishing))
  | unknown {index : Nat} {step : Step} {names : List String} (names_eq : c.execution.names = .ok names)
      (at_step : c.execution.workflow.steps[index]? = some step)
      (unbound : e.registry.find? step.stepType = none) (strict : e.settings.strict = true) :
      Advance e x c (.reaching index)
      ⟨(c.execution.turnTo e.clock index).failedAt e.clock names index step "unknown step type"
          (.unknownStepType step.stepType), c.scheduled, .go .closing, none, none, [],
        [.failed x c.execution.path (Execution.errorAt names index step "unknown step type"
          (.unknownStepType step.stepType)).message]⟩
  | skipped {index : Nat} {step : Step} (at_step : c.execution.workflow.steps[index]? = some step)
      (unbound : e.registry.find? step.stepType = none) (lenient : e.settings.strict = false) :
      Advance e x c (.reaching index)
      ⟨(c.execution.turnTo e.clock index).record e.clock index step .skipped
          (some (Failure.unknownStepType step.stepType).message), c.scheduled, .go (.reaching (index + 1)),
        none, none, [], [.stepSkipped x index step.stepType]⟩
  | dispatched {index : Nat} {step : Step} {handler : Handler}
      (at_step : c.execution.workflow.steps[index]? = some step)
      (bound : e.registry.find? step.stepType = some handler) (detached : handler.resolver.detached = true) :
      Advance e x c (.reaching index)
      ⟨c.execution.turnTo e.clock index, c.scheduled, .yield (.handled index none .dispatched none),
        none, some ⟨x, index, step, handler, .live .entering false⟩, [], []⟩
  | called {index : Nat} {step : Step} {handler : Handler}
      (at_step : c.execution.workflow.steps[index]? = some step)
      (bound : e.registry.find? step.stepType = some handler) (attached : handler.resolver.detached = false) :
      Advance e x c (.reaching index)
      ⟨c.execution.turnTo e.clock index, c.scheduled,
        .go (.calling index handler (handler.resolver.respond (e.callCount handler.slot) step.payload)),
        none, none, [.begun x index handler.slot step.payload], []⟩
  | remarked {index : Nat} {handler : Handler} {r : Remark} {next : Script} :
      Advance e x c (.calling index handler (.remark r next))
      (.quiet c.execution c.scheduled (.go (.calling index handler next)))
  | slept {index : Nat} {handler : Handler} {seconds : Rat} {next canceled : Script} (later : 0 < seconds) :
      Advance e x c (.calling index handler (.sleep seconds next canceled))
      (.quiet c.execution c.scheduled
        (.wait (.holding index handler next canceled) (.clock (e.clock + seconds))))
  | gaveWay {index : Nat} {handler : Handler} {seconds : Rat} {next canceled : Script} (now : ¬ 0 < seconds) :
      Advance e x c (.calling index handler (.sleep seconds next canceled))
      (.quiet c.execution c.scheduled (.yield (.holding index handler next canceled)))
  | passed {index : Nat} {handler : Handler} {next canceled : Script}
      (due : e.isDue (.gate handler.slot) = true) :
      Advance e x c (.calling index handler (.gate next canceled))
      (.quiet c.execution c.scheduled (.go (.calling index handler next)))
  | barred {index : Nat} {handler : Handler} {next canceled : Script}
      (shut : ¬ e.isDue (.gate handler.slot) = true) :
      Advance e x c (.calling index handler (.gate next canceled))
      (.quiet c.execution c.scheduled (.wait (.holding index handler next canceled) (.gate handler.slot)))
  | answered {index : Nat} {handler : Handler} {output : Option Value} :
      Advance e x c (.calling index handler (.answer output))
      ⟨c.execution, c.scheduled, .go (.handled index output .succeeded none), none, none,
        [.ended x index (.ok output)], []⟩
  | yielded {index : Nat} {handler : Handler} : Advance e x c (.calling index handler (.raise .canceled))
      ⟨c.execution, c.scheduled, .go .canceling, none, none, [.ended x index (.error .canceled)], []⟩
  | unresolved {index : Nat} {step : Step} {handler : Handler} {f : Failure} {names : List String}
      (names_eq : c.execution.names = .ok names) (at_step : c.execution.workflow.steps[index]? = some step)
      (propagate : handler.resolver.policy = .propagate) :
      Advance e x c (.calling index handler (.raise (.failure f)))
      ⟨c.execution.failedAt e.clock names index step "step resolution failed" f, c.scheduled, .go .closing, none, none,
        [.ended x index (.error (.failure f))],
        [.failed x c.execution.path (Execution.errorAt names index step "step resolution failed" f).message]⟩
  | recovered {index : Nat} {step : Step} {handler : Handler} {f : Failure}
      (at_step : c.execution.workflow.steps[index]? = some step) (swallow : handler.resolver.policy = .swallow) :
      Advance e x c (.calling index handler (.raise (.failure f)))
      ⟨c.execution, c.scheduled, .go (.handled index none .recovered (some f.message)), none, none,
        [.ended x index (.error (.failure f))], [.stepRecovered x index step.stepType f.message]⟩
  | resumed {index : Nat} {handler : Handler} {next canceled : Script} :
      Advance e x c (.holding index handler next canceled)
      (.quiet c.execution c.scheduled (.go (.calling index handler next)))
  | preempted {index : Nat} {output : Option Value} {status : StepStatus} {error : Option String}
      (reason : c.reason.isSome = true) : Advance e x c (.handled index output status error)
      (.quiet c.execution c.scheduled (.go .canceling))
  | abandoned {index : Nat} {step : Step} {output : Option Value} {status : StepStatus} {error : Option String}
      (no_reason : c.reason = none) (at_step : c.execution.workflow.steps[index]? = some step)
      (processed : e.process c.execution.state step output = .error .canceled) :
      Advance e x c (.handled index output status error)
      (.quiet c.execution c.scheduled (.go .canceling))
  | unprocessed {index : Nat} {step : Step} {output : Option Value} {status : StepStatus}
      {error : Option String} {f : Failure} {names : List String} (names_eq : c.execution.names = .ok names)
      (no_reason : c.reason = none) (at_step : c.execution.workflow.steps[index]? = some step)
      (processed : e.process c.execution.state step output = .error (.failure f)) :
      Advance e x c (.handled index output status error)
      ⟨c.execution.failedAt e.clock names index step "state processing failed" f, c.scheduled, .go .closing, none, none,
        [], [.failed x c.execution.path (Execution.errorAt names index step "state processing failed" f).message]⟩
  | adopted {index : Nat} {step : Step} {output : Option Value} {status : StepStatus} {error : Option String}
      {transition : Transition} (no_reason : c.reason = none)
      (at_step : c.execution.workflow.steps[index]? = some step)
      (processed : e.process c.execution.state step output = .ok transition) :
      Advance e x c (.handled index output status error)
      (.quiet ({ c.execution with state := transition.newState }.record e.clock index step status error)
        (c.scheduled ++ transition.workflows) (.go (.reaching (index + 1))))
  | unscheduled (nothing : c.scheduled = []) : Advance e x c .finishing
      (.quiet { c.execution with currentStep := none } c.scheduled (.go .completing))
  | scheduled (something : c.scheduled ≠ []) : Advance e x c .finishing
      ⟨{ c.execution with currentStep := none, status := .spawning }, c.scheduled, .go (.spawning 0 c.scheduled),
        none, none, [], [.spawning x c.scheduled.length]⟩
  | spawnedAll {position : Nat} : Advance e x c (.spawning position [])
      (.quiet c.execution c.scheduled (.go .completing))
  | spawned {position : Nat} {workflow : Workflow} {rest : List Workflow}
      (wanted : workflow.shouldRun c.execution.state = true) : Advance e x c (.spawning position (workflow :: rest))
      ⟨{ c.execution with children := c.execution.children ++ [e.courses.length] }, c.scheduled,
        .go (.spawning (position + 1) rest), some (c.execution.child e.clock x workflow position), none, [], []⟩
  | rejected {position : Nat} {workflow : Workflow} {rest : List Workflow}
      (unwanted : workflow.shouldRun c.execution.state = false) :
      Advance e x c (.spawning position (workflow :: rest))
      ⟨c.execution, c.scheduled, .go (.spawning (position + 1) rest), none, none, [],
        [.childSkipped x workflow.name position]⟩
  | completed : Advance e x c .completing
      ⟨c.execution.complete e.clock, c.scheduled, .go .closing, none, none, [],
        [.completed x c.execution.path]⟩
  | closed : Advance e x c .closing (.quiet c.execution c.scheduled (.stop .done))
  | passedOver (finished : c.execution.isFinished = true) : Advance e x c .canceling
      (.quiet c.execution c.scheduled (.go (.leaving c.reason.isNone)))
  | acknowledged {names : List String} (names_eq : c.execution.names = .ok names)
      (unfinished : c.execution.isFinished = false) : Advance e x c .canceling
      ⟨c.execution.canceledFor e.clock names (givenReason c.reason), c.scheduled, .go (.leaving c.reason.isNone),
        none, none, [], [.canceled x (givenReason c.reason)]⟩
  | left {passOn : Bool} : Advance e x c (.leaving passOn)
      (.quiet c.execution c.scheduled (.stop (if passOn then .canceled else .done)))

/-- The stages at which a step of the workflow is in progress are about a step that the workflow has, and the bus
holds no event. -/
def Stage.Fits (steps : List Step) : Stage → Prop
  | .calling index _ _ | .holding index _ _ _ | .handled index _ _ _ => index < steps.length
  | .refusing _ _ | .unrecovered _ _ => False
  | _ => True

namespace Engine

/-- The engine after a move with an effect, up to what is written to the journal and the log. -/
def realize (e : Engine) (x : Nat) (c : Course) (eff : Effect) (journal : List Note) (log : List LogEntry) :
    Engine :=
  { e with
    courses := e.courses.set x c ++ (eff.born.map Course.fresh).toList
    deliveries := e.deliveries ++ eff.dispatched.toList
    ready := e.ready ++ (eff.born.map fun _ => TaskId.course e.courses.length).toList ++
      (eff.dispatched.map fun _ => TaskId.delivery e.deliveries.length).toList
    calls := e.calls ++ eff.notes
    events := e.events ++ if e.bus.isSome then eff.events else []
    journal := journal
    log := log }

end Engine

/-! ## Detached calls -/

/-- What a move of a detached call does. -/
structure DeliveryEffect where
  move : Move DeliveryStage
  notes : List CallNote
  events : List Lifecycle

/-- What the move of a detached call at a stage can do in a calm engine. -/
inductive Delivers (e : Engine) (d : Delivery) : DeliveryStage → DeliveryEffect → Prop
  | begun : Delivers e d .entering
      ⟨.go (.calling (d.handler.resolver.respond (e.callCount d.handler.slot) d.step.payload)),
        [.begun d.execution d.index d.handler.slot d.step.payload], []⟩
  | remarked {r : Remark} {next : Script} : Delivers e d (.calling (.remark r next)) ⟨.go (.calling next), [], []⟩
  | slept {seconds : Rat} {next canceled : Script} (later : 0 < seconds) :
      Delivers e d (.calling (.sleep seconds next canceled))
      ⟨.wait (.holding next canceled) (.clock (e.clock + seconds)), [], []⟩
  | gaveWay {seconds : Rat} {next canceled : Script} (now : ¬ 0 < seconds) :
      Delivers e d (.calling (.sleep seconds next canceled)) ⟨.yield (.holding next canceled), [], []⟩
  | passed {next canceled : Script} (due : e.isDue (.gate d.handler.slot) = true) :
      Delivers e d (.calling (.gate next canceled)) ⟨.go (.calling next), [], []⟩
  | barred {next canceled : Script} (shut : ¬ e.isDue (.gate d.handler.slot) = true) :
      Delivers e d (.calling (.gate next canceled))
      ⟨.wait (.holding next canceled) (.gate d.handler.slot), [], []⟩
  | answered {output : Option Value} : Delivers e d (.calling (.answer output))
      ⟨.stop .done, [.ended d.execution d.index (.ok output)], []⟩
  | yielded : Delivers e d (.calling (.raise .canceled))
      ⟨.stop .canceled, [.ended d.execution d.index (.error .canceled)], []⟩
  | recovered {f : Failure} (swallow : d.handler.resolver.policy = .swallow) :
      Delivers e d (.calling (.raise (.failure f)))
      ⟨.go .closing, [.ended d.execution d.index (.error (.failure f))],
        [.stepRecovered d.execution d.index d.step.stepType f.message]⟩
  | reported {f : Failure} (propagate : d.handler.resolver.policy = .propagate) :
      Delivers e d (.calling (.raise (.failure f)))
      ⟨.stop .done, [.ended d.execution d.index (.error (.failure f))], []⟩
  | resumed {next canceled : Script} : Delivers e d (.holding next canceled) ⟨.go (.calling next), [], []⟩
  | closed : Delivers e d .closing ⟨.stop .done, [], []⟩

/-- The bus holds no event. -/
def DeliveryStage.Fits : DeliveryStage → Prop
  | .refusing _ => False
  | _ => True

/-- The engine after a move of a detached call, up to what is written to the journal and the log. -/
def Engine.realizeDelivery (e : Engine) (k : Nat) (d : Delivery) (eff : DeliveryEffect) (journal : List Note)
    (log : List LogEntry) : Engine :=
  { e with
    deliveries := e.deliveries.set k d
    calls := e.calls ++ eff.notes
    events := e.events ++ if e.bus.isSome then eff.events else []
    journal := journal
    log := log }

end Stepflow
