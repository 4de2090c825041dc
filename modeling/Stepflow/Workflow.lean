import Stepflow.Step
import Stepflow.Condition

/-!
# Stepflow.Workflow — an ordered list of steps that runs as one

A workflow has steps, and optionally a name, a guard and metadata.  The name is passed through as
it came; only a text can be part of a workflow path.  Fields of the document that are not
understood are kept and written back.
-/

namespace Stepflow

/-- A workflow as the backend declares it; a missing name is null. -/
structure Workflow where
  steps : List Step
  name : Datum
  condition : Option Condition
  metadata : State
  extra : Fields Datum

namespace Workflow

/-- Whether the guard holds, if there is one. -/
def shouldRun (w : Workflow) (state : State) : Bool :=
  match w.condition with
  | some c => c.holds state
  | none => true

/-- Decode steps one after another. -/
def stepsOfWire : List Datum → Except Failure (List Step)
  | [] => .ok []
  | d :: rest =>
    match Step.ofWire d with
    | .error f => .error f
    | .ok step => match stepsOfWire rest with
      | .error f => .error f
      | .ok steps => .ok (step :: steps)

/-- Decode a guard where the document has one. -/
def conditionOfWire : Datum → Except Failure (Option Condition)
  | .null => .ok none
  | d => (Condition.ofWire d).map some

/-- The fields of a document that a workflow understands. -/
def knownFields : List String := ["steps", "name", "condition", "metadata"]

/-- Decode a workflow: the steps, then the guard, then the metadata. -/
def ofWire (d : Datum) : Except Failure Workflow := do
  let fields ← FieldName.ofRecord "workflow object" d
  let field := fun name => (fields.get? name).getD .null
  match field "steps" with
  | .list items =>
    let steps ← stepsOfWire items
    let condition ← conditionOfWire (field "condition")
    let metadata ← State.freeze (field "metadata")
    return ⟨steps, field "name", condition, metadata, knownFields.foldl Fields.erase fields⟩
  | d => throw (.decode "array field 'steps'" (some d.typeName) "$.workflow")

/-- The fields of a workflow as a document: what was not understood, the steps, and of the other
parts those that are there. -/
def wireFields (w : Workflow) : Fields Datum :=
  let fields := w.extra.insert "steps" (.list (w.steps.map Step.toWire))
  let fields := match w.name with
    | .null => fields
    | name => fields.insert "name" name
  let fields := match w.condition with
    | some c => fields.insert "condition" c.toWire
    | none => fields
  if w.metadata.isEmpty then fields else fields.insert "metadata" (State.thaw w.metadata)

/-- A workflow as a document. -/
def toWire (w : Workflow) : Datum := Datum.ofTextFields w.wireFields

/-- The name of the root of a tree of executions: the workflow's own unless it counts as
nothing. -/
def rootName (w : Workflow) : Datum := if w.name.isVacant then .text "root" else w.name

/-- The name of a spawned workflow: its own unless it counts as nothing, else its position. -/
def childName (w : Workflow) (position : Nat) : Datum :=
  if w.name.isVacant then .text (toString position) else w.name

/-- Equality of steps, name, guard and metadata. -/
def same (a b : Workflow) : Bool :=
  a.steps.length == b.steps.length && (a.steps.zip b.steps).all (fun p => p.1.same p.2) &&
    a.name == b.name &&
    (match a.condition, b.condition with
      | some c, some d => c.same d
      | none, none => true
      | _, _ => false) &&
    a.metadata.same b.metadata

end Workflow

end Stepflow
