import Stepflow.Number.Decimal

/-!
# Stepflow.Number.Basic — whole numbers of any size and finite doubles

The two kinds are never merged (`1` and `1.0` have different texts), but they compare by exact
value: `Number.units` is the value in the unit of doubles, a whole number for both kinds, and two
numbers are equal in value iff these agree.  There is no rounding in a comparison.
-/

namespace Stepflow

/-- A number of the JSON model. -/
inductive Number where
  | int (n : Int)
  | double (d : Double)
deriving DecidableEq

namespace Number

instance : Inhabited Number := ⟨.int 0⟩

/-- The exact value, in units of `2 ^ -1074`. -/
def units : Number → Int
  | .int n => n * Double.unitsPerOne
  | .double d => d.signedUnits

/-- Equality of value. -/
def same (a b : Number) : Bool := a.units == b.units

theorem same_iff {a b : Number} : a.same b = true ↔ a.units = b.units := by
  simp [same]

/-- The text: digits alone for a whole number, a point or an exponent for a double. -/
def text : Number → String
  | .int n => toString n
  | .double d => d.text

/-- The whole number of the same value, if there is one. -/
def toInt? : Number → Option Int
  | .int n => some n
  | .double d => if d.isIntegral then some d.truncate else none

end Number

end Stepflow
