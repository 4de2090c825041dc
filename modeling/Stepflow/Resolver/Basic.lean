import Stepflow.Script

/-!
# Stepflow.Resolver.Basic — the handler of one step type

A resolver declares how its failures count and whether the engine waits for it; `respond` gives the
script of a call from the number of earlier calls and the payload.
-/

namespace Stepflow

/-- How the failures of a resolver count. -/
inductive Policy where
  /-- A failure fails the workflow. -/
  | propagate
  /-- A failure is reported, and the workflow goes on. -/
  | swallow
deriving DecidableEq

/-- The name of a policy. -/
def Policy.name : Policy → String
  | .propagate => "propagate"
  | .swallow => "swallow"

/-- The handler of a step type. -/
structure Resolver where
  /-- The name of the kind of resolver. -/
  title : String
  /-- The step type it handles by default. -/
  stepType : String
  policy : Policy
  /-- Whether the engine goes on without waiting for the call. -/
  detached : Bool
  /-- The script of a call: how many calls there were before, and the payload. -/
  respond : Nat → Value → Script

namespace Resolver

/-- A resolver as messages show it. -/
def shown (r : Resolver) : String :=
  r.title ++ "(step_type=" ++ Text.quoted r.stepType ++ ", policy=" ++ r.policy.name ++ ")"

/-- The resolver without an implementation. -/
def base : Resolver where
  title := "BaseStepResolver"
  stepType := ""
  policy := .propagate
  detached := false
  respond _ _ := .raise (.failure (.unimplemented "BaseStepResolver"))

instance : Inhabited Resolver := ⟨base⟩

end Resolver

end Stepflow
