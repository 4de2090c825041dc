import Stepflow.Value.Basic

/-!
# Stepflow.Datum — unchecked data of the host

What a caller hands over before it is known to be JSON-shaped: besides the JSON kinds there are
bytes, tuples, sets, tables with arbitrary keys, numbers that are not finite, opaque objects, and
values that were checked before.  A datum has a type name, can be vacant, and can be shown in a
message.
-/

namespace Stepflow

/-- Data of the host. -/
inductive Datum where
  | null
  | bool (b : Bool)
  | int (n : Int)
  | float (x : Floating)
  | text (s : String)
  | bytes (bs : List UInt8)
  | buffer (bs : List UInt8)
  | list (items : List Datum)
  | tuple (items : List Datum)
  | set (items : List Datum)
  | table (entries : List (Datum × Datum))
  | handle
  | value (v : Value)

namespace Datum

instance : Inhabited Datum := ⟨.null⟩

/-! ### Identity -/

mutual
/-- Whether two data are the same, their types and the order of their parts included. -/
def identical : Datum → Datum → Bool
  | .null, .null => true
  | .bool a, .bool b => a == b
  | .int a, .int b => a == b
  | .float a, .float b => a == b
  | .text a, .text b => a == b
  | .bytes a, .bytes b => a == b
  | .buffer a, .buffer b => a == b
  | .list xs, .list ys => identicalItems xs ys
  | .tuple xs, .tuple ys => identicalItems xs ys
  | .set xs, .set ys => identicalItems xs ys
  | .table xs, .table ys => identicalEntries xs ys
  | .handle, .handle => true
  | .value v, .value w => v == w
  | _, _ => false

/-- `identical` position by position. -/
def identicalItems : List Datum → List Datum → Bool
  | [], [] => true
  | x :: xs, y :: ys => identical x y && identicalItems xs ys
  | _, _ => false

/-- Keys and values of entries are the same position by position. -/
def identicalEntries : List (Datum × Datum) → List (Datum × Datum) → Bool
  | [], [] => true
  | (j, x) :: xs, (k, y) :: ys => identical j k && identical x y && identicalEntries xs ys
  | _, _ => false
end

instance : BEq Datum := ⟨identical⟩

mutual
theorem identical_self (d : Datum) : identical d d = true := by
  cases d with
  | null | handle => rfl
  | bool | int | float | text | bytes | buffer | value => simp [identical]
  | list items | tuple items | set items => simp [identical, identicalItems_self items]
  | table entries => simp [identical, identicalEntries_self entries]

theorem identicalItems_self (items : List Datum) : identicalItems items items = true := by
  cases items with
  | nil => rfl
  | cons item rest => simp [identicalItems, identical_self item, identicalItems_self rest]

theorem identicalEntries_self (entries : List (Datum × Datum)) :
    identicalEntries entries entries = true := by
  cases entries with
  | nil => rfl
  | cons entry rest =>
    simp [identicalEntries, identical_self entry.1, identical_self entry.2,
      identicalEntries_self rest]
end

instance : ReflBEq Datum := ⟨identical_self _⟩

/-! ### Types -/

/-- The name of the type, as messages show it. -/
def typeName : Datum → String
  | .null => "NoneType"
  | .bool _ => "bool"
  | .int _ => "int"
  | .float _ => "float"
  | .text _ => "str"
  | .bytes _ => "bytes"
  | .buffer _ => "bytearray"
  | .list _ => "list"
  | .tuple _ => "tuple"
  | .set _ => "set"
  | .table _ => "dict"
  | .handle => "object"
  | .value _ => "DynamicValue"

/-- Whether a datum counts as nothing: null, false, zero, or without content. -/
def isVacant : Datum → Bool
  | .null => true
  | .bool b => !b
  | .int n => n == 0
  | .float (.finite d) => d.units == 0
  | .float _ => false
  | .text s => s.isEmpty
  | .bytes bs | .buffer bs => bs.isEmpty
  | .list items | .tuple items | .set items => items.isEmpty
  | .table entries => entries.isEmpty
  | .handle | .value _ => false

/-! ### Showing -/

mutual
/-- A datum inside a message: texts in quotes. -/
def quoted : Datum → String
  | .null => "None"
  | .bool b => if b then "True" else "False"
  | .int n => toString n
  | .float x => x.text
  | .text s => Text.quoted s
  | .bytes bs => Text.quotedBytes bs
  | .buffer bs => "bytearray(" ++ Text.quotedBuffer bs ++ ")"
  | .list items => "[" ++ ", ".intercalate (quotedItems items) ++ "]"
  | .tuple items =>
    match quotedItems items with
    | [item] => "(" ++ item ++ ",)"
    | shown => "(" ++ ", ".intercalate shown ++ ")"
  | .set items =>
    match quotedItems items with
    | [] => "set()"
    | shown => "\x7b" ++ ", ".intercalate shown ++ "\x7d"
  | .table entries => "\x7b" ++ ", ".intercalate (quotedEntries entries) ++ "\x7d"
  | .handle => "<object object>"
  | .value v => "DynamicValue(" ++ v.render ++ ")"

/-- `quoted` for every item. -/
def quotedItems : List Datum → List String
  | [] => []
  | item :: rest => quoted item :: quotedItems rest

/-- Every entry as key and value with a colon between them. -/
def quotedEntries : List (Datum × Datum) → List String
  | [] => []
  | (k, item) :: rest => (quoted k ++ ": " ++ quoted item) :: quotedEntries rest
end

/-- A datum as a message of its own: a text without quotes. -/
def shown : Datum → String
  | .text s => s
  | d => d.quoted

/-! ### From trees and fields -/

/-- A number as a datum. -/
def ofNumber : Number → Datum
  | .int n => .int n
  | .double d => .float (.finite d)

mutual
/-- A tree as plain data. -/
def ofJson : Json → Datum
  | .null => .null
  | .bool b => .bool b
  | .number n => ofNumber n
  | .text s => .text s
  | .array items => .list (ofItems items)
  | .object fields => .table (ofFields fields)

/-- `ofJson` for every item. -/
def ofItems : List Json → List Datum
  | [] => []
  | item :: rest => ofJson item :: ofItems rest

/-- `ofJson` for the value of every field. -/
def ofFields : List (String × Json) → List (Datum × Datum)
  | [] => []
  | (k, item) :: rest => (.text k, ofJson item) :: ofFields rest
end

/-- Fields with text keys as a table. -/
def ofTextFields (fields : Fields Datum) : Datum :=
  .table (fields.entries.map (fun e => (.text e.1, e.2)))

end Datum

/-- The plain data of a value. -/
def Value.toDatum (v : Value) : Datum := Datum.ofJson v.json

end Stepflow
