import Stepflow.Workflow

/-!
# Stepflow.Execution — the record of one workflow that runs

An execution begins idle, runs through the steps of its workflow, may spawn, and ends completed,
failed or canceled.  It keeps one record for each step it has dealt with, and the error that ended
it, if one did.
-/

namespace Stepflow

/-- Where an execution stands. -/
inductive Status where
  | idle
  | running
  | spawning
  | completed
  | failed
  | canceled
deriving DecidableEq

namespace Status

/-- The name of a status. -/
def name : Status → String
  | .idle => "idle"
  | .running => "running"
  | .spawning => "spawning"
  | .completed => "completed"
  | .failed => "failed"
  | .canceled => "canceled"

/-- Whether nothing follows. -/
def isFinished : Status → Bool
  | .completed | .failed | .canceled => true
  | .idle | .running | .spawning => false

/-- All statuses. -/
def all : List Status := [.idle, .running, .spawning, .completed, .failed, .canceled]

end Status

/-- How a step was dealt with. -/
inductive StepStatus where
  /-- The resolver answered. -/
  | succeeded
  /-- The resolver was started and not waited for. -/
  | dispatched
  /-- The resolver failed and its failures are swallowed. -/
  | recovered
  /-- No resolver is registered for the step type. -/
  | skipped
  /-- The step ended the workflow. -/
  | failed
deriving DecidableEq

/-- The name of a step status. -/
def StepStatus.name : StepStatus → String
  | .succeeded => "succeeded"
  | .dispatched => "dispatched"
  | .recovered => "recovered"
  | .skipped => "skipped"
  | .failed => "failed"

/-- The record of one step. -/
structure StepRecord where
  index : Nat
  stepType : String
  status : StepStatus
  error : Option String
deriving DecidableEq

/-- When something began and when it was done. -/
structure Span where
  startedAt : Rat
  completedAt : Rat
deriving DecidableEq

/-- The record of one workflow that runs.  Executions are named by their number, and times are read off the clock of the
engine. -/
structure Execution where
  workflow : Workflow
  /-- The names from the root of the tree of executions to this one. -/
  path : List Datum
  parent : Option Nat
  depth : Nat
  initialState : State
  state : State
  status : Status
  /-- When it was accepted. -/
  startedAt : Rat
  currentStep : Option Nat
  /-- When the step in progress was turned to. -/
  turnedAt : Rat
  /-- When it ended. -/
  completedAt : Option Rat
  error : Option Failure
  history : List StepRecord
  /-- The times of the records in the history, one by one. -/
  spans : List Span
  children : List Nat

namespace Execution

/-- An execution that is accepted and has not begun. -/
def idle (now : Rat) (workflow : Workflow) (path : List Datum) (parent : Option Nat) (depth : Nat)
    (state : State) : Execution where
  workflow := workflow
  path := path
  parent := parent
  depth := depth
  initialState := state
  state := state
  status := .idle
  startedAt := now
  currentStep := none
  turnedAt := now
  completedAt := none
  error := none
  history := []
  spans := []
  children := []

/-- The execution of a workflow that the host submits. -/
def root (now : Rat) (workflow : Workflow) (state : State) : Execution :=
  idle now workflow [workflow.rootName] none 0 state

/-- The execution of a workflow that number `x` spawns at a position of its schedule. -/
def child (parent : Execution) (now : Rat) (x : Nat) (workflow : Workflow) (position : Nat) :
    Execution :=
  idle now workflow (parent.path ++ [workflow.childName position]) (some x) (parent.depth + 1)
    parent.state

/-! ### Paths -/

/-- The texts of a path from position `i` on; only texts can be joined. -/
def pathTexts (i : Nat) : List Datum → Except Failure (List String)
  | [] => .ok []
  | .text s :: rest => (pathTexts (i + 1) rest).map (s :: ·)
  | d :: _ => .error (.pathPart i d.typeName)

/-- The names from the root, as texts. -/
def names (x : Execution) : Except Failure (List String) := pathTexts 0 x.path

/-- The path as messages show it. -/
def place (x : Execution) : Except Failure String := x.names.map ("/".intercalate ·)

/-! ### Results -/

/-- Whether the execution has ended. -/
def isFinished (x : Execution) : Bool := x.status.isFinished

/-- An error of the execution as a whole, at a step if one is given. -/
def failure (x : Execution) (canceled : Bool) (message : String) (index : Option Nat)
    (stepType : Option String) (cause : Option Failure) : Except Failure Failure :=
  x.names.map (fun names =>
    .execution canceled message names (index.map (fun (i : Nat) => (i : Int))) stepType cause)

/-- The final state, or what ended the execution; an execution that has not ended has no result. -/
def result (x : Execution) : Except Failure State :=
  match x.error with
  | some f => .error f
  | none =>
    if x.isFinished then .ok x.state
    else
      match x.failure false ("execution is " ++ x.status.name) none none none with
      | .ok f => .error f
      | .error f => .error f

/-! ### Changes -/

/-- Turn to the step at an index. -/
def turnTo (x : Execution) (now : Rat) (index : Nat) : Execution :=
  { x with currentStep := some index, turnedAt := now }

/-- Append the record of the step in progress. -/
def record (x : Execution) (now : Rat) (index : Nat) (step : Step) (status : StepStatus)
    (error : Option String) : Execution :=
  { x with
    history := x.history ++ [⟨index, step.stepType, status, error⟩]
    spans := x.spans ++ [⟨x.turnedAt, now⟩] }

/-- End by an error. -/
def endWith (x : Execution) (now : Rat) (status : Status) (error : Failure) : Execution :=
  { x with status := status, error := some error, completedAt := some now }

/-- End with all steps done. -/
def complete (x : Execution) (now : Rat) : Execution :=
  { x with status := .completed, completedAt := some now }

end Execution

end Stepflow
