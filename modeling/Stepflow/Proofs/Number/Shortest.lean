import Stepflow.Proofs.Number.Rounding

/-!
# Stepflow.Proofs.Number.Shortest — the digits that are written for a double

`Double.shortest?` finds digits for every double but zero, and the decimal number of the digits is one that rounds to
the double (`Double.exists_shortest`).  A point of a grid was asked for exactly that, so what remains is that the walk
down the grids does not end too early: a grid with steps of less than half a step of the scale has a point just above the
double that still rounds to it, and the last grid of the walk is as fine as that at every scale.
-/

namespace Stepflow.Double

/-! ### The points of one grid -/

theorem quartersPerOne_pos : 0 < quartersPerOne := by
  unfold quartersPerOne unitsPerOne
  generalize unitExponent = n
  exact Nat.mul_pos (by decide) (Nat.two_pow_pos n)

theorem quartersPerOne_mul (c n : Nat) : c * (quartersPerOne * Nat.pow 10 n) = 4 * (c * 10 ^ n * unitsPerOne) := by
  rw [quartersPerOne, Nat.mul_assoc 4, Nat.mul_left_comm, Nat.mul_comm unitsPerOne, Nat.mul_assoc c]
  rfl

/-- A point of a grid is admitted where it is nearest to the double. -/
theorem admits_iff {d : Double} {k : Int} {c : Nat} :
    d.admits (Nat.pow 10 (-k).toNat) (quartersPerOne * Nat.pow 10 k.toNat) c = true ↔
      d.IsNearest (c * 10 ^ k.toNat * unitsPerOne) (10 ^ (-k).toNat) := by
  rw [admits, quartersPerOne_mul]
  rcases Nat.mod_two_eq_zero_or_one d.mantissa with even | odd
  · rw [if_pos even, Bool.and_eq_true, decide_eq_true_iff, decide_eq_true_iff]
    exact ⟨fun h => ⟨h.1, h.2, fun odd => absurd (even.symm.trans odd) (by decide)⟩, fun h => ⟨h.above, h.below⟩⟩
  · rw [if_neg (by omega), Bool.and_eq_true, decide_eq_true_iff, decide_eq_true_iff]
    exact ⟨fun h => ⟨Nat.le_of_lt h.1, Nat.le_of_lt h.2, fun _ => h⟩, fun h => h.strict odd⟩

/-- What is taken from a grid rounds to the double. -/
theorem isNearest_of_gridPoint? {d : Double} {k : Int} {c : Nat} (h : d.gridPoint? k = some c) :
    d.IsNearest (c * 10 ^ k.toNat * unitsPerOne) (10 ^ (-k).toNat) := by
  refine admits_iff.mp ?_
  unfold gridPoint? at h
  dsimp only at h
  generalize Nat.pow 10 (-k).toNat = num at h ⊢
  generalize quartersPerOne * Nat.pow 10 k.toNat = den at h ⊢
  split at h
  · rename_i here next
    cases h
    split
    · exact here
    · exact next
  · rename_i here _
    cases h
    exact here
  · rename_i _ next
    cases h
    exact next
  · cases h

/-- The grid `10 ^ k` is fine at a scale if one of its steps is less than half a step of the scale. -/
def IsFine (scale : Nat) (k : Int) : Prop := quartersPerOne * 10 ^ k.toNat < 2 * 2 ^ scale * 10 ^ (-k).toNat

instance (scale : Nat) (k : Int) : Decidable (IsFine scale k) := Nat.decLt _ _

/-- A step of less than half a step of the scale leads from below the double to a point that is still nearest to it. -/
theorem admits_succ {d : Double} {num den : Nat} (pos : 0 < den) (fine : den < 2 * 2 ^ d.scale * num) :
    d.admits num den (d.quarters * num / den + 1) = true := by
  have split_quarters := Nat.div_add_mod (d.quarters * num) den
  have rest := Nat.mod_lt (d.quarters * num) pos
  have low : d.lower * num ≤ d.quarters * num := Nat.mul_le_mul_right num (Nat.sub_le _ _)
  have high : d.upper * num = d.quarters * num + 2 * 2 ^ d.scale * num := Nat.add_mul _ _ _
  rw [admits, Nat.add_mul, Nat.mul_comm (_ / _)]
  split
  · rw [Bool.and_eq_true, decide_eq_true_iff, decide_eq_true_iff]
    omega
  · rw [Bool.and_eq_true, decide_eq_true_iff, decide_eq_true_iff]
    omega

theorem gridPoint?_isSome {d : Double} {k : Int} (fine : IsFine d.scale k) : (d.gridPoint? k).isSome = true := by
  have next := admits_succ (Nat.mul_pos quartersPerOne_pos (Nat.pow_pos (by decide))) fine
  unfold gridPoint?
  dsimp only
  rw [show Nat.pow 10 k.toNat = 10 ^ k.toNat from rfl, show Nat.pow 10 (-k).toNat = 10 ^ (-k).toNat from rfl, next]
  split <;> first | rfl | contradiction

/-! ### The walk down the grids -/

theorem findGrid_eq_some {d : Double} {fuel : Nat} {k j : Int} {c : Nat} (h : d.findGrid fuel k = some (c, j)) :
    d.gridPoint? j = some c ∧ k - fuel < j ∧ j ≤ k := by
  induction fuel generalizing k with
  | zero => cases h
  | succ fuel ih =>
    rw [findGrid] at h
    split at h
    · rename_i c found
      cases h
      exact ⟨found, by omega, by omega⟩
    · obtain ⟨found, above, below⟩ := ih h
      exact ⟨found, by omega, by omega⟩

/-- The walk finds a point if the last of its grids has one. -/
theorem findGrid_isSome {d : Double} {fuel : Nat} {k : Int} (last : (d.gridPoint? (k - fuel)).isSome = true) :
    (d.findGrid (fuel + 1) k).isSome = true := by
  induction fuel generalizing k with
  | zero =>
    obtain ⟨c, found⟩ := Option.isSome_iff_exists.mp last
    rw [Int.natCast_zero, Int.sub_zero] at found
    rw [findGrid, found]
    rfl
  | succ fuel ih =>
    rw [findGrid]
    split
    · rfl
    · refine ih ?_
      rw [show k - 1 - (fuel : Int) = k - ((fuel + 1 : Nat) : Int) by omega]
      exact last

/-! ### The last grid of the walk -/

/-- At a larger scale, and further down, a grid is fine the more. -/
theorem IsFine.mono {scale scale' : Nat} {j k : Int} (fine : IsFine scale k) (up : scale ≤ scale') (down : j ≤ k) :
    IsFine scale' j := by
  have powers : 10 ^ j.toNat * 10 ^ (-k).toNat ≤ 10 ^ k.toNat * 10 ^ (-j).toNat := by
    rw [← Nat.pow_add, ← Nat.pow_add]
    exact Nat.pow_le_pow_right (by decide) (by omega)
  have scales : 2 * 2 ^ scale ≤ 2 * 2 ^ scale' := Nat.mul_le_mul_left 2 (Nat.pow_le_pow_right (by decide) up)
  refine Nat.lt_of_mul_lt_mul_right (a := 10 ^ (-k).toNat) ?_
  calc quartersPerOne * 10 ^ j.toNat * 10 ^ (-k).toNat
      ≤ quartersPerOne * 10 ^ k.toNat * 10 ^ (-j).toNat := by
        rw [Nat.mul_assoc, Nat.mul_assoc]
        exact Nat.mul_le_mul_left _ powers
    _ < 2 * 2 ^ scale * 10 ^ (-k).toNat * 10 ^ (-j).toNat :=
        Nat.mul_lt_mul_of_pos_right fine (Nat.pow_pos (by decide))
    _ = 2 * 2 ^ scale * 10 ^ (-j).toNat * 10 ^ (-k).toNat := Nat.mul_right_comm _ _ _
    _ ≤ 2 * 2 ^ scale' * 10 ^ (-j).toNat * 10 ^ (-k).toNat :=
        Nat.mul_le_mul_right _ (Nat.mul_le_mul_right _ scales)

/-- A bound for the last grid of the walk at a scale. -/
def lastGrid (scale : Nat) : Int := ((scale : Int) - 1021) * 30103 / 100000 - 19

/-- The powers of two and of ten compared.  There is room enough to look at every eighth scale only. -/
theorem lastGrid_isFine_at : ∀ block < 256, IsFine (8 * block) (lastGrid (8 * block + 7)) := by decide +kernel

theorem lastGrid_isFine {scale : Nat} (le : scale ≤ 2045) : IsFine scale (lastGrid scale) := by
  refine (lastGrid_isFine_at (scale / 8) (by omega)).mono (by omega) ?_
  rw [lastGrid, lastGrid]
  omega

theorem log2_quarters_le (d : Double) (ne : d.units ≠ 0) : d.quarters.log2 ≤ d.scale + 54 := by
  refine Nat.le_of_lt_succ ((Nat.log2_lt (by rw [quarters]; omega)).mpr ?_)
  have size : d.units < 2 ^ 53 * 2 ^ d.scale := Nat.mul_lt_mul_of_pos_right d.mantissa_lt (Nat.two_pow_pos _)
  rw [quarters, show (d.scale + 54).succ = 2 + (53 + d.scale) by omega, Nat.pow_add, Nat.pow_add]
  exact Nat.mul_lt_mul_of_pos_left size (by decide)

theorem le_log2_quarters (d : Double) (ne : d.units ≠ 0) : 2 ≤ d.quarters.log2 :=
  (Nat.le_log2 (by rw [quarters]; omega)).mpr (by rw [quarters]; omega)

theorem coarsest_sub_le (d : Double) (ne : d.units ≠ 0) : d.coarsest - (21 : Nat) ≤ lastGrid d.scale := by
  have := d.log2_quarters_le ne
  rw [coarsest, lastGrid, unitExponent]
  omega

/-- **Every double but zero has digits**, and their decimal number rounds to it. -/
theorem exists_shortest (d : Double) (ne : d.units ≠ 0) :
    ∃ c k, d.shortest? = some (c, k) ∧ c ≠ 0 ∧ -400 ≤ k ∧ k ≤ 400 ∧
      d.IsNearest (c * 10 ^ k.toNat * unitsPerOne) (10 ^ (-k).toNat) := by
  have fine : IsFine d.scale (d.coarsest - (21 : Nat)) :=
    (lastGrid_isFine d.scale_le).mono (Nat.le_refl _) (d.coarsest_sub_le ne)
  obtain ⟨⟨c, k⟩, found⟩ := Option.isSome_iff_exists.mp (findGrid_isSome (gridPoint?_isSome fine))
  obtain ⟨point, above, below⟩ := findGrid_eq_some found
  have nearest := isNearest_of_gridPoint? point
  have positive : c ≠ 0 := by
    rintro rfl
    have := nearest.num_pos (Nat.pow_pos (by decide)) ne
    rw [Nat.zero_mul, Nat.zero_mul] at this
    exact Nat.lt_irrefl 0 this
  have upper := d.log2_quarters_le ne
  have lower := d.le_log2_quarters ne
  have scale := d.scale_le
  rw [coarsest, unitExponent] at above below
  exact ⟨c, k, by rw [shortest?, if_neg ne]; exact found, positive, by omega, by omega, nearest⟩

end Stepflow.Double
