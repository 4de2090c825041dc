import Stepflow.Datum.Items
import Stepflow.Workflow

/-!
# Stepflow.Transition — the new state after a step, and the workflows it schedules

A transition replaces the state entirely.  It can be decoded from a document of its own; the
workflows of such a document are taken from whatever can be gone through item by item.
-/

namespace Stepflow

/-- The state that replaces the previous one, and the workflows to spawn at the end. -/
structure Transition where
  newState : State
  workflows : List Workflow

namespace Transition

/-- Whether nothing is scheduled. -/
def isTerminal (t : Transition) : Bool := t.workflows.isEmpty

/-- Decode workflows one after another. -/
def workflowsOfWire : List Datum → Except Failure (List Workflow)
  | [] => .ok []
  | d :: rest =>
    match Workflow.ofWire d with
    | .error f => .error f
    | .ok w => match workflowsOfWire rest with
      | .error f => .error f
      | .ok ws => .ok (w :: ws)

/-- Decode the workflows of a document; data that counts as nothing gives none. -/
def scheduledOfWire (d : Datum) : Except Failure (List Workflow) :=
  if d.isVacant then .ok []
  else do
    let (items, trouble) ← d.itemsOf
    let workflows ← workflowsOfWire items
    match trouble with
    | some f => throw f
    | none => return workflows

/-- Decode a transition: the kind of the state, then the workflows, then the state. -/
def ofWire (d : Datum) : Except Failure Transition := do
  let fields ← FieldName.ofRecord "state processor response" d
  let field := fun name => (fields.get? name).getD .null
  let state := field "new_state"
  match state.isVacant, state with
  | true, _ => return ⟨Fields.empty, ← scheduledOfWire (field "workflows_to_run")⟩
  | false, .table entries =>
    let workflows ← scheduledOfWire (field "workflows_to_run")
    return ⟨← State.freezeEntries Fields.empty entries, workflows⟩
  | false, d =>
    throw (.decode "object field 'new_state'" (some d.typeName) "$.new_state")

/-- A transition as a document. -/
def toWire (t : Transition) : Datum :=
  .table [(.text "new_state", State.thaw t.newState),
    (.text "workflows_to_run", .list (t.workflows.map Workflow.toWire))]

/-- Equality of the new states and of the workflows. -/
def same (s t : Transition) : Bool :=
  s.newState.same t.newState && s.workflows.length == t.workflows.length &&
    (s.workflows.zip t.workflows).all (fun p => p.1.same p.2)

end Transition

end Stepflow
