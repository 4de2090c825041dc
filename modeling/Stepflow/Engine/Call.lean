import Stepflow.Engine.Basic

/-!
# Stepflow.Engine.Call — playing the script of a resolver

A call begins with the script that the resolver gives for it, which depends on how often that
resolver was called before, and is played move by move until it ends.
-/

namespace Stepflow

/-- What one move in a script comes to. -/
inductive Played where
  | go (next : Script)
  | yield (next canceled : Script)
  | wait (next canceled : Script) (on : Wait)
  | done (result : Except Raised (Option Value))

namespace Engine

/-- Note the beginning of a call, and the script of it. -/
def beginCall (e : Engine) (x index : Nat) (handler : Handler) (payload : Value) :
    Engine × Script :=
  (e.note (.begun x index handler.slot payload),
    handler.resolver.respond (e.callCount handler.slot) payload)

/-- One move in a script; the end of a call is noted. -/
def play (e : Engine) (x index slot : Nat) : Script → Engine × Played
  | .answer output => (e.note (.ended x index (.ok output)), .done (.ok output))
  | .raise r => (e.note (.ended x index (.error r)), .done (.error r))
  | .remark r next => (e.take r, .go next)
  | .sleep seconds next canceled =>
    (e, if 0 < seconds then .wait next canceled (.clock (e.clock + seconds))
      else .yield next canceled)
  | .gate next canceled =>
    if e.isDue (.gate slot) then (e, .go next) else (e, .wait next canceled (.gate slot))

end Engine

/-! ### Recovery -/

/-- The text of a recovered failure. -/
def recoveredText (place : String) (index : Nat) (stepType : String) (f : Failure) : String :=
  "Recovered from step " ++ place ++ "[" ++ toString index ++ "] (" ++ stepType ++
    ") failure: " ++ f.message

/-- The text of the failure of a detached call. -/
def detachedText (place : String) (index : Nat) (stepType : String) (f : Failure) : String :=
  "Detached step " ++ place ++ "[" ++ toString index ++ "] (" ++ stepType ++ ") failed: " ++
    f.message

namespace Engine

/-- Report a failure that is swallowed and announce it. -/
def recover (e : Engine) (x : Nat) (execution : Execution) (index : Nat) (stepType : String)
    (f : Failure) : Engine × Except Failure (Lifecycle × Reaction) :=
  match execution.place with
  | .error g => (e, .error g)
  | .ok place =>
    let event := Lifecycle.stepRecovered x index stepType f.message
    let (e, reaction) := (e.report .warning (recoveredText place index stepType f)).announce event
    (e, .ok (event, reaction))

end Engine

end Stepflow
