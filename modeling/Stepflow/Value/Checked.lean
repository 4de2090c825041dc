import Stepflow.Datum

/-!
# Stepflow.Value.Checked — building values from unchecked data

`Value.ofDatum` accepts exactly the JSON-shaped data and blames the first node that is not, depth
first from left to right, the key of an entry before its value.  A value inside the data counts as
its plain content, so its paths are extended from the new root.
-/

namespace Stepflow.Value

mutual
/-- Check a datum and give it a path. -/
def ofDatum (path : String) : Datum → Except Failure Value
  | .null => .ok (null path)
  | .bool b => .ok (bool path b)
  | .int n => .ok (number path (.int n))
  | .float (.finite d) => .ok (number path (.double d))
  | .float x => .error (.decode "finite number" (some x.text) path)
  | .text s => .ok (text path s)
  | .list items => (ofItems path 0 items).map (array path)
  | .tuple items => (ofItems path 0 items).map (array path)
  | .table entries => (ofEntries path Fields.empty entries).map (object path)
  | .value v => .ok (v.relocate path)
  | .bytes bs => .error (.decode "JSON value" (some (Datum.bytes bs).typeName) path)
  | .buffer bs => .error (.decode "JSON value" (some (Datum.buffer bs).typeName) path)
  | .set items => .error (.decode "JSON value" (some (Datum.set items).typeName) path)
  | .handle => .error (.decode "JSON value" (some Datum.handle.typeName) path)

/-- Check items, the first of them at position `index`. -/
def ofItems (path : String) (index : Nat) : List Datum → Except Failure (List Value)
  | [] => .ok []
  | item :: rest =>
    match ofDatum (itemPath path index) item with
    | .error f => .error f
    | .ok v => match ofItems path (index + 1) rest with
      | .error f => .error f
      | .ok vs => .ok (v :: vs)

/-- Check entries and write them over `fields`. -/
def ofEntries (path : String) (fields : Fields Value) :
    List (Datum × Datum) → Except Failure (Fields Value)
  | [] => .ok fields
  | (.text k, item) :: rest =>
    match ofDatum (fieldPath path k) item with
    | .error f => .error f
    | .ok v => ofEntries path (fields.insert k v) rest
  | (k, _) :: _ => .error (.decode "string key" (some k.typeName) path)
end

/-- Check a datum as a tree of its own; a value stays as it is. -/
def wrap : Datum → Except Failure Value
  | .value v => .ok v
  | d => ofDatum rootPath d

end Stepflow.Value

namespace Stepflow.State

/-- Check one entry after another; the value of a field gets the path of that field below the
root, and a value keeps its own. -/
def freezeEntries (state : State) : List (Datum × Datum) → Except Failure State
  | [] => .ok state
  | (.text k, .value v) :: rest => freezeEntries (state.insert k v) rest
  | (.text k, item) :: rest =>
    match Value.ofDatum (Value.fieldPath Value.rootPath k) item with
    | .error f => .error f
    | .ok v => freezeEntries (state.insert k v) rest
  | (k, _) :: _ => .error (Failure.decodeAtRoot "string key" k.typeName)

/-- Check data as workflow state.  Data that counts as nothing gives the empty state. -/
def freeze (d : Datum) : Except Failure State :=
  if d.isVacant then .ok Fields.empty
  else match d with
    | .table entries => freezeEntries Fields.empty entries
    | d => .error (.noMember d.typeName "items")

/-- The plain data of a state. -/
def thaw (state : State) : Datum := Datum.ofTextFields (state.map Value.toDatum)

end Stepflow.State
