import Stepflow.Datum.Key

/-!
# Stepflow.Value.Access — reaching into a value by any datum

A whole number, or a truth value in its place, is an index into an array; any other datum that can
be a key is looked up among the fields of an object, where only texts are found.
-/

namespace Stepflow.Value

/-- The field under a key of any type, if the object has it. -/
def getBy? (v : Value) (key : Datum) : Except Failure (Option Value) := do
  let fields ← v.asObject
  match ← key.asKey with
  | .text k => return fields.get? k
  | _ => return none

/-- The field under a key of any type. -/
def requireBy (v : Value) (key : Datum) : Except Failure Value := do
  match ← v.getBy? key with
  | some item => return item
  | none => throw (.decode ("field '" ++ key.shown ++ "'") (some "nothing") v.path)

/-- The item or field that a datum names. -/
def pick (v : Value) (key : Datum) : Except Failure Value :=
  match key with
  | .int n => v.item n
  | .bool b => v.item (if b then 1 else 0) key.quoted
  | _ => v.requireBy key

end Stepflow.Value
