import Stepflow.Fields
import Stepflow.Failure
import Stepflow.Log
import Stepflow.Text.Quoted

/-!
# Stepflow.Registry — step types and what is bound to them

A registry is a snapshot of its bindings.  Registering and unregistering give a new snapshot and
leave the old one as it was; the last binding of a step type wins.  Step types are compared
exactly and listed in the order of their code points.
-/

namespace Stepflow

/-- What can be offered to a registry: a resolver, or something that is none. -/
inductive Offer (α : Type) where
  | resolver (a : α)
  | other (typeName : String)

/-- Bindings of step types. -/
structure Registry (α : Type) where
  bindings : Fields α

namespace Registry

variable {α : Type}

/-- The registry without bindings. -/
def empty : Registry α := ⟨Fields.empty⟩

instance : Inhabited (Registry α) := ⟨empty⟩

/-- The binding of a step type, if there is one. -/
def find? (r : Registry α) (stepType : String) : Option α := r.bindings.get? stepType

/-- The binding of a step type. -/
def lookup (r : Registry α) (stepType : String) : Except Failure α :=
  match r.find? stepType with
  | some a => .ok a
  | none => .error (.unknownStepType stepType)

/-- Whether a step type is bound. -/
def has (r : Registry α) (stepType : String) : Bool := r.bindings.contains stepType

/-- Bind a step type. -/
def register (r : Registry α) (stepType : String) (a : α) : Registry α :=
  ⟨r.bindings.insert stepType a⟩

/-- What binding a step type reports: that a binding is replaced, if there is one. -/
def registerLog (r : Registry α) (stepType : String) : List LogEntry :=
  if r.has stepType then
    [⟨.info, "Replacing resolver for step type " ++ Text.quoted stepType⟩]
  else []

/-- Bind what is offered for a step type, if it is a resolver; anything else is refused. -/
def offer (r : Registry α) (stepType : String) : Offer α → Except Failure (Registry α × List LogEntry)
  | .resolver a => .ok (r.register stepType a, r.registerLog stepType)
  | .other typeName => .error (.notResolver typeName)

/-- Bind offers one after another up to the first that is refused, which is told; what was bound
before it stays bound. -/
def offerAll (r : Registry α) : List (String × Offer α) →
    Registry α × List LogEntry × Option Failure
  | [] => (r, [], none)
  | (stepType, offered) :: rest =>
    match r.offer stepType offered with
    | .error f => (r, [], some f)
    | .ok (next, entries) =>
      let (last, more, refusal) := offerAll next rest
      (last, entries ++ more, refusal)

/-- Drop the binding of a step type. -/
def unregister (r : Registry α) (stepType : String) : Registry α :=
  ⟨r.bindings.erase stepType⟩

/-- The bound step types, sorted. -/
def stepTypes (r : Registry α) : List String :=
  r.bindings.keys.mergeSort (fun a b => decide (a ≤ b))

end Registry

end Stepflow
