import Stepflow.Script

/-!
# Stepflow.Engine.Task — what the engine runs, and how a task gives way

A task holds the processor until it waits, yields or ends.  Between its turns it stands at a stage;
a cancellation that has reached it is delivered when it next gets its turn.
-/

namespace Stepflow

/-- The tasks of an engine, each kind numbered in the order of creation. -/
inductive TaskId where
  /-- Runs an execution. -/
  | course (x : Nat)
  /-- Runs a detached resolver. -/
  | delivery (k : Nat)
  /-- A caller of `run`. -/
  | caller (k : Nat)
  /-- A caller of `join`. -/
  | joiner (k : Nat)
  /-- A caller of `shutdown`. -/
  | closer (k : Nat)
deriving DecidableEq

/-- How a task ended. -/
inductive Ending where
  | done
  | failed (f : Failure)
  | canceled

/-- A task that is live at a stage, perhaps with a cancellation on its way, or over. -/
inductive Life (σ : Type) where
  | live (stage : σ) (interrupted : Bool)
  | over (ending : Ending)

namespace Life

variable {σ : Type}

/-- Whether the task has ended. -/
def isOver : Life σ → Bool
  | .live _ _ => false
  | .over _ => true

/-- Send a cancellation; a task that is over takes no notice. -/
def interrupt : Life σ → Life σ
  | .live stage _ => .live stage true
  | .over ending => .over ending

end Life

/-- What a task waits for. -/
inductive Wait where
  /-- The gate of a resolver is open. -/
  | gate (slot : Nat)
  /-- The event bus takes events again. -/
  | bus
  /-- The clock has reached a time. -/
  | clock (due : Rat)
  /-- All of some tasks are over or, if a time is given, the clock has reached it. -/
  | tasks (ids : List TaskId) (due : Option Rat)

/-- The time at which a wait is over whatever else happens. -/
def Wait.due? : Wait → Option Rat
  | .clock due => some due
  | .tasks _ due => due
  | .gate _ | .bus => none

/-- How a task goes on after one move. -/
inductive Move (σ : Type) where
  /-- It keeps the processor. -/
  | go (stage : σ)
  /-- It goes to the end of the queue. -/
  | yield (stage : σ)
  | wait (stage : σ) (on : Wait)
  | stop (ending : Ending)

end Stepflow
