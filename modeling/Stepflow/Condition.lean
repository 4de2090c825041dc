import Stepflow.FieldName

/-!
# Stepflow.Condition — the guard of a workflow that is to be spawned

With an expected value the state must hold that value under the key; without one the key must be
present, or absent if so declared.
-/

namespace Stepflow

/-- A guard over workflow state. -/
structure Condition where
  key : String
  expected : Option Value
  presence : Bool

namespace Condition

/-- Whether the guard holds in a state. -/
def holds (c : Condition) (state : State) : Bool :=
  match c.expected with
  | some v =>
    match state.get? c.key with
    | some w => w.same v
    | none => false
  | none => state.contains c.key == c.presence

/-- Decode a guard: the key, then the expected value, then the presence. -/
def ofWire (d : Datum) : Except Failure Condition := do
  let fields ← FieldName.ofRecord "condition object" d
  match fields.get? "key" with
  | some (.text key) =>
    let expected ← match fields.get? "equals" with
      | some e => (Value.wrap e).map some
      | none => .ok none
    let presence ←
      Value.ofDatum "$.condition.exists" ((fields.get? "exists").getD (.bool true))
    let presence ← presence.asBool
    return ⟨key, expected, presence⟩
  | _ => throw (.decode "string field 'key'" (some "nothing") "$.condition")

/-- A guard as a document: the expected value if there is one, the presence otherwise. -/
def toWire (c : Condition) : Datum :=
  match c.expected with
  | some v => .table [(.text "key", .text c.key), (.text "equals", v.toDatum)]
  | none => .table [(.text "key", .text c.key), (.text "exists", .bool c.presence)]

/-- Equality of all parts. -/
def same (a b : Condition) : Bool :=
  a.key == b.key && a.presence == b.presence &&
    match a.expected, b.expected with
    | some v, some w => v.same w
    | none, none => true
    | _, _ => false

end Condition

end Stepflow
