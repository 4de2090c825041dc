import Stepflow.Execution

/-!
# Stepflow.Lifecycle — what an engine announces about its executions

Every announcement names the execution it is about; `Lifecycle.name` is the type under which it
goes over the event bus.
-/

namespace Stepflow

/-- An announcement about an execution, which is named by its number. -/
inductive Lifecycle where
  | started (execution : Nat) (path : List Datum)
  | stepSkipped (execution : Nat) (index : Nat) (stepType : String)
  | stepRecovered (execution : Nat) (index : Nat) (stepType : String) (error : String)
  | spawning (execution : Nat) (count : Nat)
  /-- A scheduled workflow is not spawned, since its guard does not hold. -/
  | childSkipped (parent : Nat) (name : Datum) (position : Nat)
  | completed (execution : Nat) (path : List Datum)
  | failed (execution : Nat) (path : List Datum) (error : String)
  | canceled (execution : Nat) (reason : String)

namespace Lifecycle

/-- The type of an announcement. -/
def name : Lifecycle → String
  | .started .. => "workflow.started"
  | .stepSkipped .. => "step.skipped"
  | .stepRecovered .. => "step.error_recovered"
  | .spawning .. => "workflow.spawning"
  | .childSkipped .. => "workflow.skipped"
  | .completed .. => "workflow.completed"
  | .failed .. => "workflow.failed"
  | .canceled .. => "workflow.canceled"

/-- The execution an announcement is about. -/
def execution : Lifecycle → Nat
  | .started x _ | .stepSkipped x _ _ | .stepRecovered x _ _ _ | .spawning x _
  | .childSkipped x _ _ | .completed x _ | .failed x _ _ | .canceled x _ => x

end Lifecycle

end Stepflow
