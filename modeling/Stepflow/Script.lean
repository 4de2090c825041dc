import Stepflow.Interaction.Basic
import Stepflow.Analytics.Basic
import Stepflow.Log

/-!
# Stepflow.Script — what one call of a resolver does

A call is a finite course of remarks and waits that ends in an answer or by raising.  Each wait
says how the call goes on when it is over, and how when a cancellation arrives instead; so a
script also tells whether a resolver lets a cancellation through, swallows it, waits on, or turns
it into something else.
-/

namespace Stepflow

/-- What a resolver or its collaborators note in the journal. -/
inductive Note where
  | called (name : String)
  | answered (name : String)
  | interrupted (name : String)
  | event (e : Analytics.Event)
  | request (r : Interaction.Request)

/-- A remark: a note in the journal or a record of the log. -/
inductive Remark where
  | note (n : Note)
  | log (entry : LogEntry)

/-- The course of one call. -/
inductive Script where
  /-- The call returns an output, or nothing. -/
  | answer (output : Option Value)
  /-- The call raises. -/
  | raise (r : Raised)
  /-- The call makes a remark and goes on. -/
  | remark (r : Remark) (next : Script)
  /-- The call waits for some seconds; with no time to wait for it gives way once. -/
  | sleep (seconds : Rat) (next canceled : Script)
  /-- The call waits until the gate of its resolver is open. -/
  | gate (next canceled : Script)

namespace Script

/-- Make remarks and go on. -/
def remarks (rs : List Remark) (next : Script) : Script := rs.foldr Script.remark next

/-- End with what a computation gives. -/
def ofExcept : Except Failure (Option Value) → Script
  | .ok output => .answer output
  | .error f => .raise (.failure f)

/-- Sleep before going on, if a time is given.  A cancellation ends the call. -/
def after (seconds : Option Rat) (next : Script) : Script :=
  match seconds with
  | some s => .sleep s next (.raise .canceled)
  | none => next

/-- The remarks and the end of a call that nothing interrupts and whose gates are open. -/
def run : Script → List Remark × Except Raised (Option Value)
  | .answer output => ([], .ok output)
  | .raise r => ([], .error r)
  | .remark r next => let (rs, result) := run next; (r :: rs, result)
  | .sleep _ next _ => run next
  | .gate next _ => run next

end Script

end Stepflow
