import Stepflow.Engine.Call

/-!
# Stepflow.Engine.Course — the moves of the task of an execution

Each move changes the engine and says how the task goes on.  An ordinary failure of a resolver or
of the processing ends the execution; a failure of the event bus, or a path that cannot be written,
ends the task and leaves the execution as it is.  A cancellation leads to the stage `canceling`
from wherever it arrives, unless a resolver in a call handles it.
-/

namespace Stepflow.Engine

/-! ### Ends -/

/-- End an execution by an error. -/
def fail (e : Engine) (x : Nat) (execution : Execution) (error : Failure) : Engine × Move Stage :=
  let event := Lifecycle.failed x execution.path error.message
  let e := (e.update x (·.endWith e.clock .failed error)).report .error error.message
  let (e, reaction) := e.announce event
  (e, reaction.move event .closing (.refusing event false))

/-- Record that a step failed and end the execution. -/
def failStep (e : Engine) (x : Nat) (execution : Execution) (index : Nat) (step : Step)
    (message : String) (cause : Failure) : Engine × Move Stage :=
  let e := e.update x (·.record e.clock index step .failed (some cause.message))
  match execution.failure false message (some index) (some step.stepType) (some cause) with
  | .ok error => e.fail x execution error
  | .error f => (e, .stop (.failed f))

/-- The reason that is given for a cancellation for which nobody gave one. -/
def callerReason : String := "canceled by caller"

/-- Mark an execution that has not ended as canceled, and announce it. -/
def markCanceled (e : Engine) (x : Nat) (execution : Execution) (reason : String) :
    Engine × Except Failure (Lifecycle × Reaction) :=
  let e := e.update x ({ · with status := .canceled })
  match execution.place,
    execution.failure true ("canceled: " ++ reason) execution.currentStep none none with
  | .ok place, .ok error =>
    let event := Lifecycle.canceled x reason
    let e := (e.update x (·.endWith e.clock .canceled error)).report .info
      ("Workflow " ++ place ++ " canceled: " ++ reason)
    let (e, reaction) := e.announce event
    (e, .ok (event, reaction))
  | .error f, _ => (e, .error f)
  | .ok _, .error f => (e, .error f)

/-! ### Steps -/

/-- A step of unknown type: it is skipped, or ends the execution. -/
def meetUnknown (e : Engine) (x : Nat) (execution : Execution) (index : Nat) (step : Step) :
    Engine × Move Stage :=
  let unknown := Failure.unknownStepType step.stepType
  if e.settings.strict then e.failStep x execution index step "unknown step type" unknown
  else
    match execution.place with
    | .error f => (e, .stop (.failed f))
    | .ok place =>
      let event := Lifecycle.stepSkipped x index step.stepType
      let e := e.report .warning
        ("Skipping step " ++ place ++ "[" ++ toString index ++ "]: " ++ unknown.message)
      let e := e.update x (·.record e.clock index step .skipped (some unknown.message))
      let (e, reaction) := e.announce event
      (e, reaction.move event (.reaching (index + 1)) (.refusing event false))

/-- Queue a detached call; the execution goes to the end of the queue, so the call begins first. -/
def dispatch (e : Engine) (x index : Nat) (step : Step) (handler : Handler) :
    Engine × Move Stage :=
  ({ e with
      deliveries := e.deliveries ++ [⟨x, index, step, handler, .live .entering false⟩]
      ready := e.ready ++ [.delivery e.deliveries.length] },
    .yield (.handled index none .dispatched none))

/-- Turn to the step at an index. -/
def meet (e : Engine) (x : Nat) (execution : Execution) (index : Nat) : Engine × Move Stage :=
  match execution.workflow.steps[index]? with
  | none => (e, .go .finishing)
  | some step =>
    let e := e.update x (·.turnTo e.clock index)
    match e.registry.find? step.stepType with
    | none => e.meetUnknown x execution index step
    | some handler =>
      if handler.resolver.detached then e.dispatch x index step handler
      else
        let (e, script) := e.beginCall x index handler step.payload
        (e, .go (.calling index handler script))

/-- The end of a call for which the execution has waited. -/
def concludeCall (e : Engine) (x : Nat) (execution : Execution) (index : Nat) (step : Step)
    (policy : Policy) : Except Raised (Option Value) → Engine × Move Stage
  | .ok output => (e, .go (.handled index output .succeeded none))
  | .error .canceled => (e, .go .canceling)
  | .error (.failure f) =>
    match policy with
    | .propagate => e.failStep x execution index step "step resolution failed" f
    | .swallow =>
      let next := Stage.handled index none .recovered (some f.message)
      match e.recover x execution index step.stepType f with
      | (e, .error g) => e.failStep x execution index step "step resolution failed" g
      | (e, .ok (event, .reject)) =>
        e.failStep x execution index step "step resolution failed" (.busRejected event.name)
      | (e, .ok (event, reaction)) => (e, reaction.move event next (.unrecovered index event))

/-- One move in a call for which the execution waits. -/
def attend (e : Engine) (x : Nat) (execution : Execution) (index : Nat) (step : Step)
    (handler : Handler) (script : Script) : Engine × Move Stage :=
  match e.play x index handler.slot script with
  | (e, .go next) => (e, .go (.calling index handler next))
  | (e, .yield next canceled) => (e, .yield (.holding index handler next canceled))
  | (e, .wait next canceled on) => (e, .wait (.holding index handler next canceled) on)
  | (e, .done result) => e.concludeCall x execution index step handler.resolver.policy result

/-- Adopt the transition of a step, unless the execution is being canceled. -/
def adopt (e : Engine) (x : Nat) (execution : Execution) (index : Nat) (step : Step)
    (output : Option Value) (status : StepStatus) (error : Option String) : Engine × Move Stage :=
  if (e.reason? x).isSome then (e, .go .canceling)
  else
    match e.process execution.state step output with
    | .error .canceled => (e, .go .canceling)
    | .error (.failure f) => e.failStep x execution index step "state processing failed" f
    | .ok transition =>
      let e := e.updateCourse x (fun c => { c with
        execution := { c.execution with state := transition.newState }.record e.clock index step
          status error
        scheduled := c.scheduled ++ transition.workflows })
      (e, .go (.reaching (index + 1)))

/-! ### Spawning -/

/-- All steps are done: spawn what was scheduled, if anything was. -/
def finish (e : Engine) (x : Nat) (scheduled : List Workflow) : Engine × Move Stage :=
  let e := e.update x ({ · with currentStep := none })
  match scheduled with
  | [] => (e, .go .completing)
  | workflow :: rest =>
    let event := Lifecycle.spawning x (rest.length + 1)
    let e := e.update x ({ · with status := .spawning })
    let (e, reaction) := e.announce event
    (e, reaction.move event (.spawning 0 (workflow :: rest)) (.refusing event false))

/-- Spawn the workflow at a position, or skip it if its guard does not hold. -/
def spawn (e : Engine) (x : Nat) (execution : Execution) (position : Nat) (workflow : Workflow)
    (rest : List Workflow) : Engine × Move Stage :=
  let next := Stage.spawning (position + 1) rest
  if workflow.shouldRun execution.state then
    let number := e.courses.length
    let e := e.submit (execution.child e.clock x workflow position)
    (e.update x (fun p => { p with children := p.children ++ [number] }), .go next)
  else
    match execution.place with
    | .error f => (e, .stop (.failed f))
    | .ok place =>
      let event := Lifecycle.childSkipped x workflow.name position
      let e := e.report .info ("Skipping child workflow " ++ (workflow.childName position).shown ++
        " of " ++ place ++ ": condition not met")
      let (e, reaction) := e.announce event
      (e, reaction.move event next (.refusing event false))

/-- Complete an execution. -/
def complete (e : Engine) (x : Nat) (execution : Execution) : Engine × Move Stage :=
  let e := e.update x (·.complete e.clock)
  match execution.place with
  | .error f => (e, .stop (.failed f))
  | .ok place =>
    let event := Lifecycle.completed x execution.path
    let (e, reaction) := (e.report .debug ("Workflow " ++ place ++ " completed")).announce event
    (e, reaction.move event .closing (.refusing event false))

/-! ### Moves -/

/-- Begin an execution. -/
def begin (e : Engine) (x : Nat) (execution : Execution) : Engine × Move Stage :=
  let event := Lifecycle.started x execution.path
  let (e, reaction) := (e.update x ({ · with status := .running })).announce event
  (e, reaction.move event .admitted (.refusing event false))

/-- Check the depth of an execution. -/
def checkDepth (e : Engine) (x : Nat) (execution : Execution) : Engine × Move Stage :=
  if e.settings.maxDepth < execution.depth then
    match execution.failure false
        ("maximum spawn depth " ++ toString e.settings.maxDepth ++ " exceeded") none none none with
    | .ok error => e.fail x execution error
    | .error f => (e, .stop (.failed f))
  else (e, .go (.reaching 0))

/-- Deal with a cancellation that has come through: an execution that has not ended is marked.
The cancellation is passed on if nobody gave a reason for it. -/
def acknowledge (e : Engine) (x : Nat) (execution : Execution) : Engine × Move Stage :=
  let passOn := (e.reason? x).isNone
  if execution.isFinished then (e, .go (.leaving passOn))
  else
    -- an empty reason is told as that of the caller, and yet counts as given
    let given := (e.reason? x).getD callerReason
    match e.markCanceled x execution (if given.isEmpty then callerReason else given) with
    | (e, .error f) => (e, .stop (.failed f))
    | (e, .ok (event, reaction)) =>
      (e, reaction.move event (.leaving passOn) (.refusing event true))

/-- Go on with a step that the workflow has. -/
def withStep (e : Engine) (execution : Execution) (index : Nat)
    (f : Step → Engine × Move Stage) : Engine × Move Stage :=
  match execution.workflow.steps[index]? with
  | some step => f step
  | none => (e, .go .finishing)

/-- The move of the task of an execution at a stage. -/
def moveCourse (e : Engine) (x : Nat) (c : Course) : Stage → Engine × Move Stage
  | .opening => e.begin x c.execution
  | .admitted => e.checkDepth x c.execution
  | .reaching index => e.meet x c.execution index
  | .calling index handler script =>
    e.withStep c.execution index (fun step => e.attend x c.execution index step handler script)
  | .holding index handler next _ => (e, .go (.calling index handler next))
  | .handled index output status error =>
    e.withStep c.execution index (fun step => e.adopt x c.execution index step output status error)
  | .finishing => e.finish x c.scheduled
  | .spawning _ [] => (e, .go .completing)
  | .spawning position (workflow :: rest) => e.spawn x c.execution position workflow rest
  | .completing => e.complete x c.execution
  | .closing => (e, .stop .done)
  | .canceling => e.acknowledge x c.execution
  | .leaving passOn => (e, .stop (if passOn then .canceled else .done))
  | .refusing event _ => (e, .stop (.failed (.busRejected event.name)))
  | .unrecovered index event =>
    e.withStep c.execution index (fun step =>
      e.failStep x c.execution index step "step resolution failed" (.busRejected event.name))

/-- Where a cancellation that arrives at a stage leads.  A task that has not begun never runs; a
resolver in a call handles the cancellation itself. -/
def cancelCourse : Stage → Move Stage
  | .opening | .leaving _ | .refusing _ true => .stop .canceled
  | .holding index handler _ canceled => .go (.calling index handler canceled)
  | _ => .go .canceling

end Stepflow.Engine
