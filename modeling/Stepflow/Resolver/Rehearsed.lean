import Stepflow.Interaction.Transport
import Stepflow.Analytics.Recorder
import Stepflow.Value.Access

/-!
# Stepflow.Resolver.Rehearsed — resolvers and collaborators with prepared behaviour

For trials of a workflow without its surroundings.  A rehearsed resolver notes each call under its
name, may sleep, may wait for its gate, and then raises or answers as prepared, noting the answer.
Rehearsed servers answer by a table of paths, and rehearsed recorders note events or raise.
-/

namespace Stepflow.Rehearsed

/-- What a call ends with. -/
inductive Outcome where
  | raises (r : Raised)
  /-- A prepared output; one that could not be prepared fails the call after it was noted. -/
  | returns (output : Except Failure (Option Value))
  /-- The payload itself. -/
  | echoes
  /-- A part of the payload. -/
  | part (key : Datum)

/-- How a call waits for the gate of its resolver. -/
inductive Gating where
  | ungated
  | gated
  /-- A cancellation is taken for the opening of the gate. -/
  | gatedStubborn
deriving DecidableEq

/-- A prepared call: how long it sleeps if it does, how it waits, and what it ends with. -/
structure Act where
  seconds : Option Rat
  gating : Gating
  outcome : Outcome

/-- The end of a call. -/
def Outcome.script (name : String) (payload : Value) : Outcome → Script
  | .raises r => .raise r
  | .returns output => .remark (.note (.answered name)) (.ofExcept output)
  | .echoes => .remark (.note (.answered name)) (.answer (some payload))
  | .part key => .remark (.note (.answered name)) (.ofExcept ((payload.pick key).map some))

/-- Wait for the gate before `next`. -/
def Gating.guard (name : String) (next : Script) : Gating → Script
  | .ungated => next
  | .gated => .gate next (.remark (.note (.interrupted name)) (.raise .canceled))
  | .gatedStubborn => .gate next (.remark (.note (.interrupted name)) next)

/-- The script of a prepared call. -/
def Act.script (name : String) (payload : Value) (act : Act) : Script :=
  .remark (.note (.called name))
    (.after act.seconds (act.gating.guard name (act.outcome.script name payload)))

/-- The act of the `n`-th call: the acts in turn, the last one again and again. -/
def actAt (first : Act) (more : List Act) (n : Nat) : Act :=
  match more, n with
  | _, 0 => first
  | [], _ => first
  | act :: rest, n + 1 => actAt act rest n

/-- A resolver with prepared behaviour. -/
def resolver (name : String) (policy : Policy) (detached : Bool) (first : Act)
    (more : List Act) : Resolver where
  title := "Canned"
  stepType := ""
  policy := policy
  detached := detached
  respond n payload := (actAt first more n).script name payload

/-- A server that answers by path; a path that is not listed is not found. -/
def transport (replies : Fields (Except Raised Interaction.Response)) : Interaction.Transport :=
  fun request =>
    ([.note (.request request)], (replies.get? request.path).getD (.ok ⟨404, []⟩))

/-- A recorder that notes events, or raises. -/
def recorder (trouble : Option Raised) : Analytics.Recorder := fun e =>
  match trouble with
  | some r => ([], .error r)
  | none => ([.note (.event e)], .ok ())

end Stepflow.Rehearsed
