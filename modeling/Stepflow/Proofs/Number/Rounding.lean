import Mathlib.Algebra.Group.Nat.Defs
import Stepflow.Number.Decimal

/-!
# Stepflow.Proofs.Number.Rounding — the quotients that round to a given double

`Double.IsNearest d num den` says that `num / den` units lie between the midpoints to the neighbours of `d`, and on a
midpoint only where the mantissa is even.  Every such quotient is rounded to `d` (`Floating.ofUnitRatio_of_isNearest`),
and so is every decimal number of such a size (`Floating.ofDecimal_of_isNearest`).  The one double of a binade that
needs care is the least: below it the neighbours are half as far, and a quotient that rounds up to it is found at the
scale of the binade below.
-/

namespace Stepflow

namespace Double

/-- `num / den` units lie nearest to the magnitude of `d`; the bounds are in quarter units. -/
structure IsNearest (d : Double) (num den : Nat) : Prop where
  above : d.lower * den ≤ 4 * num
  below : 4 * num ≤ d.upper * den
  strict : d.mantissa % 2 = 1 → d.lower * den < 4 * num ∧ 4 * num < d.upper * den

/-- How many quarter steps of its scale lie between a double and the midpoint below it. -/
def downward (d : Double) : Nat := if d.mantissa = leadingMantissa ∧ d.scale ≠ 0 then 1 else 2

theorem downward_le (d : Double) : d.downward ≤ 2 := by
  rw [downward]
  split <;> decide

theorem lower_eq (d : Double) : d.lower = (4 * d.mantissa - d.downward) * 2 ^ d.scale := by
  rw [lower, quarters, units, Nat.sub_mul, Nat.mul_assoc]
  rfl

theorem upper_eq (d : Double) : d.upper = (4 * d.mantissa + 2) * 2 ^ d.scale := by
  rw [upper, quarters, units, Nat.add_mul, Nat.mul_assoc]
  rfl

/-- Only the quotient counts. -/
theorem IsNearest.of_cross {d : Double} {num den num' den' : Nat} (h : d.IsNearest num den) (pos : 0 < den)
    (pos' : 0 < den') (cross : num' * den = num * den') : d.IsNearest num' den' := by
  have scaled : ∀ bound, bound * den' * den = bound * den * den' := fun bound => Nat.mul_right_comm bound den' den
  have quotient : 4 * num' * den = 4 * num * den' := by rw [Nat.mul_assoc, cross, Nat.mul_assoc]
  refine ⟨Nat.le_of_mul_le_mul_right ?_ pos, Nat.le_of_mul_le_mul_right ?_ pos, fun odd =>
    ⟨Nat.lt_of_mul_lt_mul_right (a := den) ?_, Nat.lt_of_mul_lt_mul_right (a := den) ?_⟩⟩
  · rw [scaled, quotient]
    exact Nat.mul_le_mul_right den' h.above
  · rw [scaled, quotient]
    exact Nat.mul_le_mul_right den' h.below
  · rw [scaled, quotient]
    exact Nat.mul_lt_mul_of_pos_right (h.strict odd).1 pos'
  · rw [scaled, quotient]
    exact Nat.mul_lt_mul_of_pos_right (h.strict odd).2 pos'

/-- Nothing but zero is the nearest double to zero. -/
theorem IsNearest.num_pos {d : Double} {num den : Nat} (h : d.IsNearest num den) (pos : 0 < den) (ne : d.units ≠ 0) :
    0 < num := by
  have mantissa : 0 < d.mantissa := Nat.pos_of_ne_zero fun zero => ne (by rw [units, zero, Nat.zero_mul])
  have lower : 0 < d.lower := by
    rw [lower_eq]
    have := d.downward_le
    exact Nat.mul_pos (by omega) (Nat.two_pow_pos _)
  have := Nat.mul_pos lower pos
  have := h.above
  omega

section Midpoints

variable {d : Double} {num den step : Nat} (eq : step = den * 2 ^ d.scale)

include eq

theorem lower_mul : d.lower * den = 4 * (d.mantissa * step) - d.downward * step := by
  rw [lower_eq, eq, Nat.mul_assoc, Nat.mul_comm (2 ^ d.scale), Nat.sub_mul, Nat.mul_assoc 4]

theorem upper_mul : d.upper * den = 4 * (d.mantissa * step) + 2 * step := by
  rw [upper_eq, eq, Nat.mul_assoc, Nat.mul_comm (2 ^ d.scale), Nat.add_mul, Nat.mul_assoc 4]

/-- The bounds in steps of the scale, `step` being one step over `den`. -/
theorem IsNearest.bounds (h : d.IsNearest num den) :
    4 * (d.mantissa * step) ≤ 4 * num + d.downward * step ∧ 4 * num ≤ 4 * (d.mantissa * step) + 2 * step := by
  obtain ⟨above, below, -⟩ := h
  rw [lower_mul eq] at above
  rw [upper_mul eq] at below
  omega

/-- With an odd mantissa a midpoint belongs to the neighbour. -/
theorem IsNearest.bounds_of_odd (h : d.IsNearest num den) (odd : d.mantissa % 2 = 1) :
    4 * (d.mantissa * step) < 4 * num + d.downward * step ∧ 4 * num < 4 * (d.mantissa * step) + 2 * step := by
  obtain ⟨above, below⟩ := h.strict odd
  rw [lower_mul eq] at above
  rw [upper_mul eq] at below
  omega

end Midpoints

end Double

namespace Floating

/-- The nearest whole number, of two equally near the even one. -/
theorem divideToEven_eq {m num den : Nat} (above : 2 * (m * den) ≤ 2 * num + den)
    (below : 2 * num ≤ 2 * (m * den) + den)
    (strict : m % 2 = 1 → 2 * (m * den) < 2 * num + den ∧ 2 * num < 2 * (m * den) + den) (pos : 0 < den) :
    divideToEven num den = m := by
  have split_num := Nat.div_add_mod num den
  have rest := Nat.mod_lt num pos
  have high : m < num / den + 2 := by
    apply Nat.lt_of_mul_lt_mul_right (a := den)
    rw [Nat.add_mul, Nat.mul_comm (num / den)]
    omega
  have low : num / den < m + 1 := by
    apply Nat.lt_of_mul_lt_mul_right (a := den)
    rw [Nat.add_mul, Nat.mul_comm (num / den)]
    omega
  have parity := Nat.mod_two_eq_zero_or_one m
  rw [divideToEven]
  rcases (by omega : m = num / den ∨ m = num / den + 1) with eq | eq
  · -- the quotient is rounded down
    rw [eq, Nat.mul_comm (num / den)] at above below strict
    split
    · omega
    · split
      · have even : num / den % 2 = 0 := by omega
        omega
      · exact eq.symm
  · -- the quotient is rounded up
    rw [eq, Nat.add_mul, Nat.mul_comm (num / den)] at above below strict
    split
    · exact eq.symm
    · split
      · have odd : num / den % 2 = 1 := by omega
        omega
      · omega

section Scale

variable {num den : Nat} (pos : 0 < den)

include pos

/-- The scale at which a quotient has 53 bits. -/
theorem scaleFor_div {scale : Nat} (low : 2 ^ 52 * (den * 2 ^ scale) ≤ num) (high : num < 2 ^ 53 * (den * 2 ^ scale)) :
    scaleFor (num / den) = scale := by
  have low : 2 ^ (52 + scale) ≤ num / den := by
    rw [Nat.le_div_iff_mul_le pos, Nat.pow_add, Nat.mul_assoc, Nat.mul_comm _ den]
    exact low
  have high : num / den < 2 ^ (52 + scale + 1) := by
    rw [Nat.div_lt_iff_lt_mul pos, Nat.add_right_comm, Nat.pow_add, Nat.mul_assoc, Nat.mul_comm _ den]
    exact high
  have ne : num / den ≠ 0 := by
    have := Nat.two_pow_pos (52 + scale)
    omega
  rw [scaleFor, (Nat.log2_eq_iff ne).mpr ⟨low, high⟩]
  omega

theorem scaleFor_div_of_lt (high : num < 2 ^ 53 * den) : scaleFor (num / den) = 0 := by
  rw [← Nat.div_lt_iff_lt_mul pos] at high
  rcases Nat.eq_zero_or_pos (num / den) with zero | positive
  · rw [zero]
    rfl
  · have := (Nat.log2_lt (Nat.ne_of_gt positive)).mpr high
    rw [scaleFor]
    omega

end Scale

theorem assemble_self (d : Double) : assemble d.negative d.mantissa d.scale = .finite d := by
  have below := Nat.ne_of_lt d.mantissa_lt
  rw [assemble]
  simp only [below, if_false]
  rw [dif_pos ⟨d.mantissa_lt, d.scale_le, d.normal⟩]

/-- A mantissa that is rounded up out of its binade gives the least double of the next one. -/
theorem assemble_carry {d : Double} (leading : d.mantissa = leadingMantissa) {scale : Nat} (eq : d.scale = scale + 1) :
    assemble d.negative mantissaLimit scale = .finite d := by
  rw [assemble]
  simp only [if_true, ← eq]
  simp only [← leading]
  rw [dif_pos ⟨d.mantissa_lt, d.scale_le, .inr (Nat.le_refl _)⟩]

variable {d : Double} {num den : Nat}

theorem ofUnitRatio_of_scale (h : d.IsNearest num den) (pos : 0 < den) (scale : scaleFor (num / den) = d.scale) :
    ofUnitRatio d.negative num den = .finite d := by
  have step : 0 < den * 2 ^ d.scale := Nat.mul_pos pos (Nat.two_pow_pos _)
  have down := Nat.mul_le_mul_right (den * 2 ^ d.scale) d.downward_le
  have bounds := h.bounds rfl
  have rounded : divideToEven num (den * 2 ^ d.scale) = d.mantissa := by
    refine divideToEven_eq (by omega) (by omega) (fun odd => ?_) step
    have strict := h.bounds_of_odd rfl odd
    omega
  rw [ofUnitRatio, scale]
  exact (congrArg (assemble d.negative · d.scale) rounded).trans (assemble_self d)

/-- Just below the least double of a binade the scale is that of the binade before, and the mantissa carries. -/
theorem ofUnitRatio_of_carry (h : d.IsNearest num den) (pos : 0 < den) (leading : d.mantissa = leadingMantissa)
    {scale : Nat} (eq : d.scale = scale + 1) (low : num < leadingMantissa * (den * 2 ^ d.scale)) :
    ofUnitRatio d.negative num den = .finite d := by
  have step : 0 < den * 2 ^ scale := Nat.mul_pos pos (Nat.two_pow_pos _)
  have double : den * 2 ^ d.scale = 2 * (den * 2 ^ scale) := by
    rw [eq, Nat.pow_succ, Nat.mul_comm _ 2, Nat.mul_left_comm]
  have down : d.downward = 1 := by rw [Double.downward, if_pos ⟨leading, by omega⟩]
  have bounds := (h.bounds double.symm).1
  rw [down, leading, leadingMantissa] at bounds
  rw [double, leadingMantissa] at low
  have rounded : divideToEven num (den * 2 ^ scale) = mantissaLimit :=
    divideToEven_eq (by rw [mantissaLimit]; omega) (by rw [mantissaLimit]; omega) (fun odd => absurd odd (by decide))
      step
  have found : scaleFor (num / den) = scale := scaleFor_div pos (by omega) (by omega)
  rw [ofUnitRatio, found]
  exact (congrArg (assemble d.negative · scale) rounded).trans (assemble_carry leading eq)

/-- **A quotient between the midpoints to the neighbours rounds to the double.** -/
theorem ofUnitRatio_of_isNearest (h : d.IsNearest num den) (pos : 0 < den) :
    ofUnitRatio d.negative num den = .finite d := by
  have step : 0 < den * 2 ^ d.scale := Nat.mul_pos pos (Nat.two_pow_pos _)
  have size := Nat.mul_le_mul_right (den * 2 ^ d.scale) (Nat.le_sub_one_of_lt d.mantissa_lt)
  rw [mantissaLimit] at size
  have high : num < 2 ^ 53 * (den * 2 ^ d.scale) := by
    have := (h.bounds rfl).2
    omega
  rcases Nat.eq_zero_or_pos d.scale with zero | positive
  · refine ofUnitRatio_of_scale h pos ?_
    rw [zero, Nat.pow_zero, Nat.mul_one] at high
    rw [zero]
    exact scaleFor_div_of_lt pos high
  · have leading : leadingMantissa ≤ d.mantissa := d.normal.resolve_left (Nat.ne_of_gt positive)
    rcases Nat.lt_or_ge num (leadingMantissa * (den * 2 ^ d.scale)) with low | enough
    · -- only from the least mantissa does a midpoint lie below its binade
      have least : d.mantissa = leadingMantissa := by
        refine Nat.le_antisymm (Nat.le_of_not_lt fun larger => ?_) leading
        have size := Nat.mul_le_mul_right (den * 2 ^ d.scale) (Nat.succ_le_of_lt larger)
        rw [leadingMantissa] at size low
        have down := Nat.mul_le_mul_right (den * 2 ^ d.scale) d.downward_le
        have bounds := (h.bounds rfl).1
        omega
      obtain ⟨scale, eq⟩ := Nat.exists_eq_add_of_le' positive
      exact ofUnitRatio_of_carry h pos least eq low
    · exact ofUnitRatio_of_scale h pos (scaleFor_div pos enough high)

/-- **A decimal number between the midpoints to the neighbours reads as the double**, if its power of ten is within the
horizon. -/
theorem ofDecimal_of_isNearest {digits : Nat} {exponent : Int}
    (h : d.IsNearest (digits * 10 ^ exponent.toNat * Double.unitsPerOne) (10 ^ (-exponent).toNat)) (ne : digits ≠ 0)
    (low : -decimalHorizon ≤ exponent) (high : exponent ≤ decimalHorizon) :
    ofDecimal d.negative digits exponent = .finite d := by
  unfold ofDecimal
  rw [if_neg ne, if_neg (by omega), if_neg (by omega)]
  have rounded := ofUnitRatio_of_isNearest h (Nat.pow_pos (by decide))
  cases exponent with
  | ofNat e =>
    rw [show (-Int.ofNat e).toNat = 0 by rw [Int.ofNat_eq_natCast]; omega, Nat.pow_zero] at rounded
    exact rounded
  | negSucc e =>
    rw [show (Int.negSucc e).toNat = 0 from rfl, Nat.pow_zero, Nat.mul_one,
      show (-Int.negSucc e).toNat = e + 1 from rfl] at rounded
    exact rounded

end Floating

end Stepflow
