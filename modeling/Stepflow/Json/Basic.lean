import Stepflow.Number.Basic

/-!
# Stepflow.Json.Basic — trees of the JSON model

A tree holds its object fields in insertion order.  `Json.Distinct` says that no object repeats a
key; the values of the library carry a proof of it.
-/

namespace Stepflow

/-- A tree of the JSON model. -/
inductive Json where
  | null
  | bool (b : Bool)
  | number (n : Number)
  | text (s : String)
  | array (items : List Json)
  | object (fields : List (String × Json))

/-- The six kinds of JSON values. -/
inductive Kind where
  | null
  | boolean
  | number
  | string
  | array
  | object
deriving DecidableEq

/-- The name of a kind. -/
def Kind.name : Kind → String
  | .null => "null"
  | .boolean => "boolean"
  | .number => "number"
  | .string => "string"
  | .array => "array"
  | .object => "object"

namespace Json

instance : Inhabited Json := ⟨.null⟩

/-- The kind of a tree. -/
def kind : Json → Kind
  | .null => .null
  | .bool _ => .boolean
  | .number _ => .number
  | .text _ => .string
  | .array _ => .array
  | .object _ => .object

/-! ### Identity -/

mutual
/-- Whether two trees are the same, numbers in their kind and fields in their order included. -/
def identical : Json → Json → Bool
  | .null, .null => true
  | .bool a, .bool b => a == b
  | .number a, .number b => a == b
  | .text a, .text b => a == b
  | .array xs, .array ys => identicalItems xs ys
  | .object xs, .object ys => identicalFields xs ys
  | _, _ => false

/-- `identical` position by position. -/
def identicalItems : List Json → List Json → Bool
  | [], [] => true
  | x :: xs, y :: ys => identical x y && identicalItems xs ys
  | _, _ => false

/-- Keys and values of fields are the same position by position. -/
def identicalFields : List (String × Json) → List (String × Json) → Bool
  | [], [] => true
  | (j, x) :: xs, (k, y) :: ys => j == k && identical x y && identicalFields xs ys
  | _, _ => false
end

instance : BEq Json := ⟨identical⟩

mutual
theorem identical_self (j : Json) : identical j j = true := by
  cases j with
  | null => rfl
  | bool | number | text => simp [identical]
  | array items => simp [identical, identicalItems_self items]
  | object fields => simp [identical, identicalFields_self fields]

theorem identicalItems_self (items : List Json) : identicalItems items items = true := by
  cases items with
  | nil => rfl
  | cons item rest => simp [identicalItems, identical_self item, identicalItems_self rest]

theorem identicalFields_self (fields : List (String × Json)) :
    identicalFields fields fields = true := by
  cases fields with
  | nil => rfl
  | cons field rest =>
    simp [identicalFields, identical_self field.2, identicalFields_self rest]
end

instance : ReflBEq Json := ⟨identical_self _⟩

/-! ### Distinct keys -/

mutual
/-- No object of the tree repeats a key. -/
def Distinct : Json → Prop
  | .array items => DistinctItems items
  | .object fields => (fields.map Prod.fst).Nodup ∧ DistinctFields fields
  | _ => True

/-- `Distinct` for every item. -/
def DistinctItems : List Json → Prop
  | [] => True
  | item :: rest => Distinct item ∧ DistinctItems rest

/-- `Distinct` for the value of every field. -/
def DistinctFields : List (String × Json) → Prop
  | [] => True
  | (_, item) :: rest => Distinct item ∧ DistinctFields rest
end

theorem distinctItems_iff {items : List Json} :
    DistinctItems items ↔ ∀ item ∈ items, item.Distinct := by
  induction items with
  | nil => simp [DistinctItems]
  | cons item rest ih => simp [DistinctItems, ih]

theorem distinctFields_iff {fields : List (String × Json)} :
    DistinctFields fields ↔ ∀ field ∈ fields, field.2.Distinct := by
  induction fields with
  | nil => simp [DistinctFields]
  | cons field rest ih =>
    obtain ⟨k, item⟩ := field
    simp only [DistinctFields, ih, List.mem_cons, forall_eq_or_imp]

/-! ### Order of keys -/

/-- The fields of an object in the order of their keys by code point. -/
def sortFields (fields : List (String × Json)) : List (String × Json) :=
  fields.mergeSort (fun a b => decide (a.1 ≤ b.1))

mutual
/-- The tree with the fields of every object in the order of their keys. -/
def sorted : Json → Json
  | .array items => .array (sortedItems items)
  | .object fields => .object (sortFields (sortedFields fields))
  | j => j

/-- `sorted` for every item. -/
def sortedItems : List Json → List Json
  | [] => []
  | item :: rest => sorted item :: sortedItems rest

/-- `sorted` for the value of every field. -/
def sortedFields : List (String × Json) → List (String × Json)
  | [] => []
  | (k, item) :: rest => (k, sorted item) :: sortedFields rest
end

/-! ### Equality of content -/

mutual
/-- Equality of content: numbers by value, arrays by position, objects as maps. -/
def same : Json → Json → Bool
  | .null, .null => true
  | .bool a, .bool b => a == b
  | .number a, .number b => a.same b
  | .text a, .text b => a == b
  | .array xs, .array ys => sameItems xs ys
  | .object xs, .object ys => xs.length == ys.length && sameFields xs ys
  | _, _ => false

/-- `same` position by position. -/
def sameItems : List Json → List Json → Bool
  | [], [] => true
  | x :: xs, y :: ys => same x y && sameItems xs ys
  | _, _ => false

/-- Every field of the first list has its key and an equal value in the second. -/
def sameFields : List (String × Json) → List (String × Json) → Bool
  | [], _ => true
  | (k, x) :: xs, ys =>
    (match ys.lookup k with
      | some y => same x y
      | none => false) && sameFields xs ys
end

mutual
/-- A hash that depends on content only: equal numbers have one hash whatever their kind, and the
fields of an object are summed, so their order does not count. -/
def fingerprint : Json → UInt64
  | .null => 11
  | .bool b => mixHash 13 (hash b)
  | .number n => mixHash 17 (hash n.units)
  | .text s => mixHash 19 (hash s)
  | .array items => mixHash 23 (fingerprintItems items)
  | .object fields => mixHash 29 (fingerprintFields fields)

/-- The hash of a list of items, in order. -/
def fingerprintItems : List Json → UInt64
  | [] => 31
  | item :: rest => mixHash (fingerprint item) (fingerprintItems rest)

/-- The sum of the hashes of the fields. -/
def fingerprintFields : List (String × Json) → UInt64
  | [] => 0
  | (k, item) :: rest => mixHash (hash k) (fingerprint item) + fingerprintFields rest
end

end Json

end Stepflow
