import Mathlib.Algebra.Field.Rat
import Mathlib.Data.Int.Cast.Lemmas
import Stepflow.Number.Basic

/-!
# Stepflow.Proofs.Number.Value — numbers as exact rationals

`Number.value` is the rational number that a number of either kind stands for.

* `Number.same_iff_value`: the comparison in units is the comparison of values.
* `Number.toInt?_eq_some_iff`: the whole number of a number is its value, and there is one exactly if the value is
  whole.
-/

namespace Stepflow

namespace Double

/-- The exact value; both zeros have the value zero. -/
def value (d : Double) : ℚ := (if d.negative then -1 else 1) * (d.mantissa * 2 ^ d.scale) / 2 ^ unitExponent

/-- One. -/
def one : Double := ⟨false, leadingMantissa, 1022, by decide, by decide, by decide⟩

theorem unitsPerOne_pos : 0 < unitsPerOne := by
  unfold unitsPerOne
  generalize unitExponent = n
  exact Nat.two_pow_pos n

theorem cast_unitsPerOne : (unitsPerOne : ℚ) = 2 ^ unitExponent := by
  unfold unitsPerOne
  generalize unitExponent = n
  exact Nat.cast_pow 2 n

/-- The units with their sign are the value, counted in the unit. -/
theorem cast_signedUnits (d : Double) : (d.signedUnits : ℚ) = d.value * unitsPerOne := by
  have pos : (unitsPerOne : ℚ) ≠ 0 := Nat.cast_ne_zero.mpr unitsPerOne_pos.ne'
  have magnitude : (d.units : ℚ) = d.mantissa * 2 ^ d.scale := by
    rw [units, Nat.cast_mul]
    exact congrArg _ (Nat.cast_pow 2 d.scale)
  rw [value, ← cast_unitsPerOne, div_mul_cancel₀ _ pos, ← magnitude, signedUnits]
  cases d.negative <;> simp

/-- Of two numbers the quotient is whole where nothing remains. -/
theorem mod_eq_zero_and_div_iff {n one : Nat} (pos : 0 < one) {i : Int} :
    n % one = 0 ∧ ((n / one : Nat) : Int) = i ↔ (n : Int) = i * one := by
  have unique := Int.ediv_emod_unique (a := n) (r := 0) (q := i) (Int.natCast_pos.mpr pos)
  constructor
  · rintro ⟨whole, rfl⟩
    exact_mod_cast (Nat.div_mul_cancel (Nat.dvd_of_mod_eq_zero whole)).symm
  · intro eq
    obtain ⟨quotient, rest⟩ := unique.mpr ⟨by rw [Int.zero_add, Int.mul_comm, eq], Int.le_refl 0, by omega⟩
    exact ⟨by exact_mod_cast rest, by exact_mod_cast quotient⟩

end Double

namespace Number

/-- The exact value. -/
def value : Number → ℚ
  | .int n => n
  | .double d => d.value

/-- Units are the value, counted in the unit of doubles. -/
theorem cast_units (n : Number) : (n.units : ℚ) = n.value * Double.unitsPerOne := by
  cases n with
  | int i => rw [units, value, Int.cast_mul, Int.cast_natCast]
  | double d => exact d.cast_signedUnits

theorem value_eq_iff {m n : Number} : m.value = n.value ↔ m.units = n.units := by
  have pos : (Double.unitsPerOne : ℚ) ≠ 0 := Nat.cast_ne_zero.mpr Double.unitsPerOne_pos.ne'
  rw [← mul_left_inj' pos, ← cast_units, ← cast_units, Int.cast_inj]

/-- **Numbers are compared by their exact values.** -/
theorem same_iff_value {m n : Number} : m.same n = true ↔ m.value = n.value := by
  rw [same_iff, value_eq_iff]

/-- **The whole number of a number is its value.** -/
theorem toInt?_eq_some_iff {n : Number} {i : Int} : n.toInt? = some i ↔ n.value = i := by
  have whole : n.value = i ↔ n.units = i * Double.unitsPerOne := value_eq_iff (n := .int i)
  rw [whole]
  cases n with
  | int j =>
    rw [toInt?, units, Option.some_inj]
    exact (Int.mul_eq_mul_right_iff (Int.natCast_pos.mpr Double.unitsPerOne_pos).ne').symm
  | double d =>
    have pos := Double.unitsPerOne_pos
    rw [toInt?, Double.isIntegral, Double.truncate, units, Double.signedUnits]
    generalize Double.unitsPerOne = one at pos
    cases d.negative with
    | false =>
      simp only [Bool.false_eq_true, if_false, ← Double.mod_eq_zero_and_div_iff pos, beq_iff_eq]
      by_cases integral : d.units % one = 0 <;> simp [integral]
    | true =>
      have mirrored : -(d.units : Int) = i * one ↔ (d.units : Int) = -i * one := by
        rw [Int.neg_mul]
        omega
      simp only [if_true, mirrored, ← Double.mod_eq_zero_and_div_iff pos, beq_iff_eq]
      by_cases integral : d.units % one = 0 <;> simp [integral]
      omega

end Number

end Stepflow
