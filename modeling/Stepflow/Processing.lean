import Stepflow.Transition

/-!
# Stepflow.Processing — from a resolved step to a transition

An object output with a new state replaces the state.  Any other output that is not null is stored
under the payload's state key, the step type by default, or merged field by field where the payload
asks for it and the output is an object.  Workflows to run are read from an object output and then
from an object payload.
-/

namespace Stepflow.Processing

/-- Decode the workflows of a field: none where it is missing or null. -/
def workflowsOf : Option Value → Except Failure (List Workflow)
  | none => .ok []
  | some v =>
    if v.isNull then .ok []
    else do
      let items ← v.asArray
      Transition.workflowsOfWire (items.map .value)

/-- Whether a value is an object. -/
def isObject (v : Value) : Bool := v.kind == .object

/-- Whether the payload asks for the output to be merged. -/
def mergeRequested (payload : Value) : Except Failure Bool :=
  if isObject payload then do
    match ← FieldName.find? payload "merge_state" with
    | some flag => flag.asBool
    | none => return false
  else .ok false

/-- The key under which an output is stored. -/
def stateKey (step : Step) : Except Failure String :=
  if isObject step.payload then do
    match ← FieldName.find? step.payload "state_key" with
    | some key => key.asText
    | none => return step.stepType
  else .ok step.stepType

/-- The state after an object output. -/
def adoptObject (state : State) (step : Step) (output : Value) : Except Failure State := do
  match ← FieldName.find? output "new_state" with
  | some replacement => replacement.asObject
  | none =>
    if ← mergeRequested step.payload then
      return state.update (← output.asObject)
    else
      return state.insert (← stateKey step) output

/-- The state after an output and the workflows that the output schedules. -/
def adopt (state : State) (step : Step) (output : Option Value) :
    Except Failure (State × List Workflow) :=
  match output with
  | none => .ok (state, [])
  | some output =>
    if isObject output then do
      let newState ← adoptObject state step output
      let workflows ← workflowsOf (← FieldName.find? output "workflows_to_run")
      return (newState, workflows)
    else if output.isNull then .ok (state, [])
    else do return (state.insert (← stateKey step) output, [])

/-- The workflows that a payload schedules. -/
def scheduledByPayload (payload : Value) : Except Failure (List Workflow) :=
  if isObject payload then do
    workflowsOf (← FieldName.find? payload "workflows_to_run")
  else .ok []

/-- The transition of a step with an output, in a state. -/
def process (state : State) (step : Step) (output : Option Value) : Except Failure Transition := do
  let (newState, fromOutput) ← adopt state step output
  let fromPayload ← scheduledByPayload step.payload
  return ⟨newState, fromOutput ++ fromPayload⟩

/-- The processing that an engine uses unless it is given another: its failures are ordinary. -/
def standard (state : State) (step : Step) (output : Option Value) : Except Raised Transition :=
  (process state step output).mapError Raised.failure

end Stepflow.Processing
