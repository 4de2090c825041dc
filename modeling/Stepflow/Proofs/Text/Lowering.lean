import Stepflow.Text.LetterCase

/-!
# Stepflow.Proofs.Text.Lowering — lower case is final

* `Settled`: lower case leaves a character as it is, wherever it stands.  No ASCII capital is settled
  (`Settled.not_capital`).
* `settled_lower`: every character of a text in lower case is settled, so lower case twice is lower case once
  (`lower_lower`).

Beyond ASCII lower case is a table of shifts.  That no shift leads to where another one begins is a property of pairs
of shifts (`Shift.avoids`), which is checked once for the table.
-/

namespace Stepflow.Text

/-! ## Shifts -/

/-- No code point that `s` moves comes to lie where `t` moves it again: the ranges are apart, or both move every other
code point and do not meet. -/
def Shift.avoids (s t : Shift) : Bool :=
  let first := ((s.first : Int) + s.distance).toNat
  let last := ((s.last : Int) + s.distance).toNat
  Nat.blt last t.first || Nat.blt t.last first ||
    (t.stride == 2 && (s.stride == 2 || s.first == s.last) && (first + t.first) % 2 == 1)

/-- What a shift makes of the code points that it moves are code points of characters. -/
def Shift.Lands (s : Shift) : Prop :=
  (0 ≤ s.first + s.distance ∧ s.last + s.distance < 0xD800) ∨
    (0xE000 ≤ s.first + s.distance ∧ s.last + s.distance < 0x110000)

instance (s : Shift) : Decidable s.Lands := by unfold Shift.Lands; infer_instance

theorem Shift.covers_iff {s : Shift} {n : Nat} :
    s.covers n = true ↔ s.first ≤ n ∧ n ≤ s.last ∧ (n - s.first) % s.stride = 0 := by
  simp [Shift.covers, and_assoc]

theorem Shift.covers_of_avoids {s t : Shift} {n : Nat} (h : s.avoids t = true) (lands : s.Lands)
    (covers : s.covers n = true) : t.covers ((n : Int) + s.distance).toNat = false := by
  rw [Shift.covers_iff] at covers
  obtain ⟨low, high, even⟩ := covers
  have positive : 0 ≤ s.first + s.distance := by
    rcases lands with h | h <;> omega
  simp only [avoids, Bool.or_eq_true, Bool.and_eq_true, Nat.blt_eq, beq_iff_eq] at h
  rw [← Bool.not_eq_true, Shift.covers_iff]
  rintro ⟨low', high', even'⟩
  rcases h with (h | h) | ⟨⟨stride', stride | single⟩, odd⟩
  · omega
  · omega
  · rw [stride] at even
    rw [stride'] at even'
    omega
  · rw [stride'] at even'
    omega

theorem Shift.Lands.isValidChar {s : Shift} {n : Nat} (h : s.Lands) (covers : s.covers n = true) :
    ((n : Int) + s.distance).toNat.isValidChar := by
  rw [Shift.covers_iff] at covers
  unfold Nat.isValidChar
  rcases h with h | h
  · left; omega
  · right; omega

/-! ## The table -/

/-- The code points that lower case moves in other ways: the capitals of ASCII, the dotted capital I and the capital
sigma. -/
def otherShifts : List Shift := [⟨65, 90, 1, 0⟩, ⟨304, 304, 1, 0⟩, ⟨0x3A3, 0x3A3, 1, 0⟩]

theorem lowerShifts_avoid : (lowerShifts.all fun s => (otherShifts ++ lowerShifts).all s.avoids) = true := by
  decide +kernel

theorem lowerShifts_land : ∀ s ∈ lowerShifts, s.Lands := by decide +kernel

/-! ## Settled characters -/

/-- Lower case leaves the character as it is, wherever it stands. -/
def Settled (c : Char) : Prop := ∀ before after, lowerChar before c after = [c]

theorem toNat_ofNat {n : Nat} (h : n.isValidChar) : (Char.ofNat n).toNat = n := by
  rw [Char.ofNat, dif_pos h]
  rfl

theorem settled_of_ascii {c : Char} (ascii : c.toNat < 128) (same : c.toLower = c) : Settled c := by
  intro before after
  rw [lowerChar, if_pos ascii, same]

/-- A character beyond ASCII that neither the table nor the rule for sigma moves is settled. -/
theorem settled_of_mapped {c : Char} (wide : 128 ≤ c.toNat) (sigma : c ≠ capitalSigma)
    (mapped_eq : mapped lowerWide lowerShifts c.toNat = [c.toNat]) : Settled c := by
  intro before after
  rw [lowerChar, if_neg (by omega), if_neg sigma, mapped_eq, ofCodePoints, List.map_singleton, Char.ofNat_toNat]

theorem Settled.not_capital {c : Char} (h : Settled c) : ¬ ('A' ≤ c ∧ c ≤ 'Z') := by
  rintro ⟨low, high⟩
  have low' : 65 ≤ c.toNat := low
  have high' : c.toNat ≤ 90 := high
  have same : [c.toLower] = [c] := by
    rw [← h [] [], lowerChar, if_pos (by omega)]
  have changes : ∀ n < 91, 65 ≤ n → (Char.ofNat n).toLower ≠ Char.ofNat n := by decide
  refine changes c.toNat (by omega) low' ?_
  rw [Char.ofNat_toNat]
  exact List.singleton_inj.mp same

theorem settled_toLower {c : Char} (ascii : c.toNat < 128) : Settled c.toLower := by
  have all : ∀ n < 128, (Char.ofNat n).toLower.toNat < 128 ∧
      (Char.ofNat n).toLower.toLower = (Char.ofNat n).toLower := by
    decide
  have here := all c.toNat ascii
  rw [Char.ofNat_toNat] at here
  exact settled_of_ascii here.1 here.2

/-- A code point that lower case moves in no way is settled. -/
theorem settled_of_unmoved {m : Nat} (value : (Char.ofNat m).toNat = m)
    (unmoved : ∀ t ∈ otherShifts ++ lowerShifts, t.covers m = false) : Settled (Char.ofNat m) := by
  have capital := unmoved ⟨65, 90, 1, 0⟩ (by simp [otherShifts])
  have dotted := unmoved ⟨304, 304, 1, 0⟩ (by simp [otherShifts])
  have greek := unmoved ⟨0x3A3, 0x3A3, 1, 0⟩ (by simp [otherShifts])
  simp only [Shift.covers, Nat.mod_one, BEq.rfl, Bool.and_true, Bool.and_eq_false_iff, decide_eq_false_iff_not,
    Nat.not_le] at capital dotted greek
  by_cases ascii : m < 128
  · refine settled_of_ascii (by rw [value]; exact ascii) ?_
    have stays : ∀ n < 128, (n < 65 ∨ 90 < n) → (Char.ofNat n).toLower = Char.ofNat n := by decide
    exact stays m ascii capital
  · refine settled_of_mapped (by rw [value]; omega) ?_ ?_
    · intro eq
      have : m = 0x3A3 := by rw [← value, eq]; rfl
      omega
    · rw [value, mapped, show lowerWide.lookup m = none by
        have ne : (m == 304) = false := by rw [beq_eq_false_iff_ne]; omega
        simp [lowerWide, List.lookup_cons, ne]]
      have none_covers : lowerShifts.find? (fun s => s.covers m) = none := by
        rw [List.find?_eq_none]
        intro t ht
        simp [unmoved t (List.mem_append_right _ ht)]
      rw [shifted, none_covers]

/-- What the table makes of a code point is settled, moved or not. -/
theorem settled_shifted {c : Char} (wide : 128 ≤ c.toNat) (sigma : c ≠ capitalSigma)
    (narrow : lowerWide.lookup c.toNat = none) : Settled (Char.ofNat (shifted lowerShifts c.toNat)) := by
  unfold shifted
  cases found : lowerShifts.find? (fun s => s.covers c.toNat) with
  | none =>
    dsimp only
    rw [Char.ofNat_toNat]
    refine settled_of_mapped wide sigma ?_
    rw [mapped, narrow]
    dsimp only
    rw [shifted, found]
  | some s =>
    have mem : s ∈ lowerShifts := List.mem_of_find?_eq_some found
    have covers : s.covers c.toNat = true := by simpa using List.find?_some found
    refine settled_of_unmoved (toNat_ofNat ((lowerShifts_land s mem).isValidChar covers)) fun t ht => ?_
    have apart := List.all_eq_true.mp (List.all_eq_true.mp lowerShifts_avoid s mem) t ht
    exact Shift.covers_of_avoids apart (lowerShifts_land s mem) covers

/-- Every character that lower case writes is settled. -/
theorem settled_of_mem_lowerChar {before after : List Char} {c d : Char} (h : d ∈ lowerChar before c after) :
    Settled d := by
  unfold lowerChar at h
  by_cases ascii : c.toNat < 128
  · rw [if_pos ascii, List.mem_singleton] at h
    rw [h]
    exact settled_toLower ascii
  rw [if_neg ascii] at h
  by_cases sigma : c = capitalSigma
  · rw [if_pos sigma, List.mem_singleton] at h
    rw [h]
    split
    · exact settled_of_mapped (by decide) (by decide) (by decide +kernel)
    · exact settled_of_mapped (by decide) (by decide) (by decide +kernel)
  rw [if_neg sigma, ofCodePoints, List.mem_map] at h
  obtain ⟨n, hn, rfl⟩ := h
  unfold mapped at hn
  cases narrow : lowerWide.lookup c.toNat with
  | none =>
    rw [narrow] at hn
    obtain rfl := List.mem_singleton.mp hn
    exact settled_shifted (by omega) sigma narrow
  | some image =>
    -- only the dotted capital I is written with two characters
    rw [narrow] at hn
    have image_eq : image = [105, 775] := by
      simp only [lowerWide, List.lookup_cons, List.lookup_nil] at narrow
      split at narrow
      · exact (Option.some.inj narrow).symm
      · cases narrow
    rw [image_eq] at hn
    simp only [List.mem_cons, List.not_mem_nil, or_false] at hn
    rcases hn with rfl | rfl
    · exact settled_of_ascii (by decide) (by decide)
    · exact settled_of_mapped (by decide) (by decide) (by decide +kernel)

/-! ## Texts -/

theorem settled_lowerFrom {before cs : List Char} : ∀ d ∈ lowerFrom before cs, Settled d := by
  induction cs generalizing before with
  | nil => simp [lowerFrom]
  | cons c after ih =>
    intro d hd
    rcases List.mem_append.mp hd with hd | hd
    · exact settled_of_mem_lowerChar hd
    · exact ih d hd

theorem settled_lower {cs : List Char} : ∀ d ∈ lower cs, Settled d := settled_lowerFrom

theorem lowerFrom_of_settled {before cs : List Char} (h : ∀ c ∈ cs, Settled c) : lowerFrom before cs = cs := by
  induction cs generalizing before with
  | nil => rfl
  | cons c after ih =>
    rw [lowerFrom, h c List.mem_cons_self, ih fun d hd => h d (List.mem_cons_of_mem c hd)]
    rfl

theorem lower_of_settled {cs : List Char} (h : ∀ c ∈ cs, Settled c) : lower cs = cs := lowerFrom_of_settled h

/-- **Lower case is final.** -/
theorem lower_lower (cs : List Char) : lower (lower cs) = lower cs := lower_of_settled settled_lower

end Stepflow.Text
