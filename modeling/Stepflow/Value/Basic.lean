import Stepflow.Fields
import Stepflow.Failure
import Stepflow.Json.Writer

/-!
# Stepflow.Value.Basic — a JSON tree that knows where it stands

A `Value` is a tree without repeated keys together with the path of its root.  The paths of the
nodes below are not stored: they are the root path extended by the links that lead to the node, so
`Value.items` and `Value.fields` compute them; `Stepflow.Value.Node` has the trees that store a path
in every node, and builds them part by part.  Projections fail with the path of the node, naming what
was expected and what is there.
-/

namespace Stepflow

/-- A JSON tree without repeated keys, and the path of its root. -/
structure Value where
  path : String
  json : Json
  distinct : json.Distinct

namespace Value

/-! ### Paths -/

/-- The path of a tree that was read or built on its own. -/
def rootPath : String := "$"

/-- The path of a field. -/
def fieldPath (path key : String) : String := path ++ "." ++ key

/-- The path of an item. -/
def itemPath (path : String) (index : Nat) : String := path ++ "[" ++ toString index ++ "]"

/-! ### Construction -/

/-- Null. -/
def null (path : String := rootPath) : Value := ⟨path, .null, trivial⟩

instance : Inhabited Value := ⟨null⟩

/-- A truth value. -/
def bool (path : String) (b : Bool) : Value := ⟨path, .bool b, trivial⟩

/-- A number. -/
def number (path : String) (n : Number) : Value := ⟨path, .number n, trivial⟩

/-- A text. -/
def text (path : String) (s : String) : Value := ⟨path, .text s, trivial⟩

/-- An array of the trees of `items`. -/
def array (path : String) (items : List Value) : Value :=
  ⟨path, .array (items.map json), by
    refine Json.distinctItems_iff.mpr fun item hitem => ?_
    obtain ⟨v, -, rfl⟩ := List.mem_map.mp hitem
    exact v.distinct⟩

/-- An object of the trees of `fields`. -/
def object (path : String) (fields : Fields Value) : Value :=
  ⟨path, .object (fields.map json).entries, (fields.map json).distinct,
    Json.distinctFields_iff.mpr fun field hfield => by
      obtain ⟨e, -, rfl⟩ := List.mem_map.mp hfield
      exact e.2.distinct⟩

/-- The same tree at another path. -/
def relocate (v : Value) (path : String) : Value := ⟨path, v.json, v.distinct⟩

/-! ### Views -/

instance : BEq Value := ⟨fun v w => v.path == w.path && v.json == w.json⟩

instance : ReflBEq Value := ⟨fun {v} => by
  change (v.path == v.path && v.json == v.json) = true
  rw [beq_self_eq_true, beq_self_eq_true]
  rfl⟩

/-- The kind. -/
def kind (v : Value) : Kind := v.json.kind

/-- Whether the value is null. -/
def isNull (v : Value) : Bool := v.kind == .null

/-- Items at their paths, the first of them at position `index`. -/
def locateItems (path : String) (index : Nat) :
    (items : List Json) → Json.DistinctItems items → List Value
  | [], _ => []
  | item :: rest, h =>
    ⟨itemPath path index, item, h.1⟩ :: locateItems path (index + 1) rest h.2

/-- Fields at their paths. -/
def locateFields (path : String) :
    (fields : List (String × Json)) → Json.DistinctFields fields → List (String × Value)
  | [], _ => []
  | (k, item) :: rest, h => (k, ⟨fieldPath path k, item, h.1⟩) :: locateFields path rest h.2

theorem map_fst_locateFields (path : String) (fields : List (String × Json))
    (h : Json.DistinctFields fields) :
    (locateFields path fields h).map Prod.fst = fields.map Prod.fst := by
  induction fields with
  | nil => rfl
  | cons field rest ih => simp [locateFields, ih h.2]

/-- The items of an array. -/
def items? (v : Value) : Option (List Value) :=
  match v with
  | ⟨path, .array items, h⟩ => some (locateItems path 0 items h)
  | _ => none

/-- The fields of an object. -/
def fields? (v : Value) : Option (Fields Value) :=
  match v with
  | ⟨path, .object fields, h⟩ =>
    some ⟨locateFields path fields h.2, by rw [map_fst_locateFields]; exact h.1⟩
  | _ => none

/-- Equality of content; paths do not count. -/
def same (v w : Value) : Bool := v.json.same w.json

/-- A hash that depends on content only. -/
def fingerprint (v : Value) : UInt64 := v.json.fingerprint

/-- The compact text. -/
def render (v : Value) : String := v.json.render

/-! ### Projections -/

/-- The failure of a projection to another kind. -/
def mismatch (v : Value) (expected : Kind) : Failure :=
  .decode expected.name (some v.kind.name) v.path

/-- Project to a truth value. -/
def asBool (v : Value) : Except Failure Bool :=
  match v.json with
  | .bool b => .ok b
  | _ => .error (v.mismatch .boolean)

/-- Project to a number. -/
def asNumber (v : Value) : Except Failure Number :=
  match v.json with
  | .number n => .ok n
  | _ => .error (v.mismatch .number)

/-- Project to a whole number; a double counts where it has no fraction. -/
def asInt (v : Value) : Except Failure Int := do
  let n ← v.asNumber
  match n.toInt? with
  | some i => .ok i
  | none => .error (.decode "integer" (some n.text) v.path)

/-- Project to a text. -/
def asText (v : Value) : Except Failure String :=
  match v.json with
  | .text s => .ok s
  | _ => .error (v.mismatch .string)

/-- Project to the items of an array. -/
def asArray (v : Value) : Except Failure (List Value) :=
  match v.items? with
  | some items => .ok items
  | none => .error (v.mismatch .array)

/-- Project to the fields of an object. -/
def asObject (v : Value) : Except Failure (Fields Value) :=
  match v.fields? with
  | some fields => .ok fields
  | none => .error (v.mismatch .object)

/-! ### Navigation -/

/-- The field under a key, if the object has it. -/
def get? (v : Value) (key : String) : Except Failure (Option Value) := do
  let fields ← v.asObject
  return fields.get? key

/-- The field under a key. -/
def require (v : Value) (key : String) : Except Failure Value := do
  match ← v.get? key with
  | some item => return item
  | none => throw (.decode ("field '" ++ key ++ "'") (some "nothing") v.path)

/-- The position that an index means in a sequence of a given length: negative indices count from
the end. -/
def position? (index : Int) (length : Nat) : Option Nat :=
  let i := if index < 0 then index + length else index
  if 0 ≤ i ∧ i < length then some i.toNat else none

/-- The item at an index; `shown` is the index as messages show it. -/
def item (v : Value) (index : Int) (shown : String := toString index) : Except Failure Value := do
  let items ← v.asArray
  match (position? index items.length).bind (fun i => items[i]?) with
  | some item => return item
  | none =>
    throw (.decode ("index " ++ shown) (some ("array of length " ++ toString items.length)) v.path)

end Value

/-- Workflow state: text keys to values, in the order in which the keys were first written. -/
abbrev State := Fields Value

/-- Equality of content as maps. -/
def State.same (s t : State) : Bool :=
  s.entries.length == t.entries.length &&
    s.entries.all (fun e => match t.get? e.1 with
      | some v => e.2.same v
      | none => false)

end Stepflow
