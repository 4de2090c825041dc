import Stepflow.Engine.Turn

/-!
# Stepflow.Engine.Control — what the host does with an engine

The host submits workflows, cancels executions, waits for them and shuts the engine down.  Its acts
take effect between the turns of the tasks; none of them runs a task.
-/

namespace Stepflow.Engine

/-! ### Executions -/

/-- The execution of a number, which goes by the name `id`. -/
def getExecution (e : Engine) (x : Option Nat) (id : String) : Except Failure Execution :=
  match x.bind e.execution? with
  | some execution => .ok execution
  | none => .error (.unknownExecution id)

/-- The numbers of the executions with a status, or of all. -/
def list (e : Engine) (status : Option Status) : List Nat :=
  (List.range e.courses.length).filter (fun x =>
    match e.execution? x, status with
    | some execution, some s => execution.status == s
    | _, _ => true)

/-- Submit a workflow without waiting for it; the answer is the number of the execution. -/
def start (e : Engine) (workflow : Workflow) (initial : Datum) : Except Failure (Engine × Nat) :=
  match State.freeze initial with
  | .error f => .error f
  | .ok state => .ok (e.submit (.root e.clock workflow state), e.courses.length)

/-- Queue a caller that submits a workflow and waits for its end. -/
def run (e : Engine) (workflow : Workflow) (initial : Datum) : Engine :=
  { e with
    callers := e.callers ++ [⟨none, .live (.entering workflow initial) false⟩]
    ready := e.ready ++ [.caller e.callers.length] }

/-- Cancel an execution that has not ended.  One that has not begun is marked at once, and so is
one whose task failed. -/
def cancel (e : Engine) (x : Option Nat) (id reason : String) : Engine × Except Failure Unit :=
  match x.bind (fun x => (e.courses[x]?).map (fun c => (x, c))) with
  | none => (e, .error (.unknownExecution id))
  | some (x, c) =>
    if c.execution.isFinished then (e, .ok ())
    else
      let live := !c.life.isOver
      let e := if live then (e.setReason x reason).interrupt (.course x) else e
      if c.execution.status = .idle ∨ live = false then
        match e.markCanceled x c.execution reason with
        | (e, .error f) => (e, .error f)
        | (e, .ok (event, .reject)) => (e, .error (.busRejected event.name))
        | (e, .ok _) => (e, .ok ())
      else (e, .ok ())

/-! ### Callers -/

/-- Cancel a caller of `run`. -/
def cancelRun (e : Engine) (k : Nat) : Engine := e.interrupt (.caller k)

/-- Queue a caller that waits until no execution is running. -/
def join (e : Engine) : Engine :=
  { e with
    joiners := e.joiners ++ [.live .watching false]
    ready := e.ready ++ [.joiner e.joiners.length] }

/-- The tasks that a task waits for. -/
def awaited (e : Engine) (t : TaskId) : List TaskId :=
  match e.waits.lookup t with
  | some (.tasks ids _) => ids
  | _ => []

/-- Cancel a caller of `join`: the cancellation goes to the executions that it waits for, and ends
the caller when they have ended. -/
def cancelJoin (e : Engine) (k : Nat) : Engine :=
  match (e.awaited (.joiner k)).filter (fun t => !e.isOver t) with
  | [] => e.interrupt (.joiner k)
  | ids => (e.interruptAll ids).flag (.joiner k)

/-- Begin a shutdown with a number of seconds to wait, by default those of the settings.  Its
caller has the processor, so it looks around before any other task moves. -/
def beginShutdown (e : Engine) (timeout : Option Rat) : Engine :=
  { e with
    closers := e.closers ++
      [.live (.flushing (e.clock + timeout.getD e.settings.flushTimeout)) false]
    current := some (.closer e.closers.length) }

/-- Shut down: begin, and let everything run until the shutdown has ended. -/
def shutdown (e : Engine) (timeout : Option Rat) : Engine :=
  turnsUntil (.closer e.closers.length) turnLimit (e.beginShutdown timeout)

/-! ### Surroundings -/

/-- Open the gate of a resolver. -/
def release (e : Engine) (slot : Nat) : Engine :=
  { e with openGates := slot :: e.openGates }.wake

/-- Let the event bus stop holding. -/
def releaseBus (e : Engine) : Engine := { e with busOpen := true }.wake

/-- Offer a handler for a step type; what is no resolver is refused. -/
def register (e : Engine) (stepType : String) (offered : Offer Handler) :
    Engine × Except Failure Unit :=
  match e.registry.offer stepType offered with
  | .ok (registry, entries) => ({ e with registry := registry, log := e.log ++ entries }, .ok ())
  | .error f => (e, .error f)

/-- Drop the handler of a step type. -/
def unregister (e : Engine) (stepType : String) : Engine :=
  { e with registry := e.registry.unregister stepType }

end Stepflow.Engine
