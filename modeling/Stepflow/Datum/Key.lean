import Stepflow.Datum
import Stepflow.Failure

/-!
# Stepflow.Datum.Key — which data can be a key, and when two data are one key

Data that can change its content cannot be a key.  Two keys are one if they have the same content;
numbers count by value whatever their kind, truth values as the numbers zero and one, and what is
not a number differs from everything.  In a table the first spelling of a key and its last value
stay; in a set the first of equal members stays.
-/

namespace Stepflow.Datum

/-- The exact value of a finite number, in units of `2 ^ -1074`. -/
def units? : Datum → Option Int
  | .bool b => some (if b then Double.unitsPerOne else 0)
  | .int n => some (n * Double.unitsPerOne)
  | .float (.finite d) => some d.signedUnits
  | _ => none

mutual
/-- Whether two data are one key. -/
def sameKey : Datum → Datum → Bool
  | .tuple xs, .tuple ys => sameKeys xs ys
  | .null, .null => true
  | .text a, .text b => a == b
  | .bytes a, .bytes b => a == b
  | .float (.infinite a), .float (.infinite b) => a == b
  | .value v, .value w => v.same w
  | a, b =>
    match a.units?, b.units? with
    | some m, some n => m == n
    | _, _ => false

/-- `sameKey` position by position. -/
def sameKeys : List Datum → List Datum → Bool
  | [], [] => true
  | x :: xs, y :: ys => sameKey x y && sameKeys xs ys
  | _, _ => false
end

mutual
/-- The type of the first part that keeps a datum from being a key. -/
def unfitPart? : Datum → Option String
  | .tuple items => unfitAmong? items
  | .list items => some (Datum.list items).typeName
  | .set items => some (Datum.set items).typeName
  | .table entries => some (Datum.table entries).typeName
  | .buffer bs => some (Datum.buffer bs).typeName
  | _ => none

/-- `unfitPart?` of the first item that has one. -/
def unfitAmong? : List Datum → Option String
  | [] => none
  | item :: rest => (unfitPart? item).or (unfitAmong? rest)
end

/-- Data that can be a key. -/
def asKey (d : Datum) : Except Failure Datum :=
  match d.unfitPart? with
  | some typeName => .error (.unhashable typeName)
  | none => .ok d

/-- Write an entry among entries. -/
def assign (k item : Datum) : List (Datum × Datum) → List (Datum × Datum)
  | [] => [(k, item)]
  | (j, old) :: rest => if j.sameKey k then (j, item) :: rest else (j, old) :: assign k item rest

/-- Put a member into a set. -/
def adjoin (d : Datum) (members : List Datum) : List Datum :=
  if members.any (·.sameKey d) then members else members ++ [d]

/-- The small whole number that a member of a set is, if it is one. -/
def smallNumber? (limit : Nat) : Datum → Option Nat
  | .bool b => some (if b then 1 else 0)
  | .int n => if 0 ≤ n ∧ n < limit then some n.toNat else none
  | _ => none

/-- The order in which a set shows its members: small whole numbers from the least to the greatest,
other members as they came. -/
def membersInOrder (members : List Datum) : List Datum :=
  let limit := if members.length < 5 then 8 else 32
  match members.mapM (smallNumber? limit) with
  | some ns => ((ns.zip members).mergeSort (fun a b => decide (a.1 ≤ b.1))).map Prod.snd
  | none => members

end Stepflow.Datum
