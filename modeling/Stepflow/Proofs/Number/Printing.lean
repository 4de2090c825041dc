import Stepflow.Proofs.Number.Shortest
import Stepflow.Proofs.Json.Grammar

/-!
# Stepflow.Proofs.Number.Printing — the text of a number is a numeral that denotes it

The digits of a double are laid out in one of four ways, each of them a numeral with a fraction or an exponent, and its
decimal number is that of the digits (`Json.shows_layout`).  Since that number rounds to the double, the text reads back
as the double, and never as a whole number (`Double.exists_numeral`).  Whole numbers are written in digits alone
(`Number.exists_numeral_int`).
-/

namespace Stepflow

namespace Json

/-! ### Digits -/

theorem digitsValue_eq (ds : List Char) : digitsValue ds = Nat.ofDigitChars 10 ds 0 := by
  rw [Nat.ofDigitChars_eq_foldl, digitsValue]
  simp only [Nat.mul_comm 10]
  rfl

theorem digitsValue_append (ds es : List Char) :
    digitsValue (ds ++ es) = digitsValue ds * 10 ^ es.length + digitsValue es := by
  rw [digitsValue_eq, digitsValue_eq, digitsValue_eq, Nat.ofDigitChars_append, Nat.ofDigitChars_eq_ofDigitChars_zero,
    Nat.mul_comm]

theorem digitsValue_zeros (n : Nat) : digitsValue (List.replicate n '0') = 0 := by
  rw [digitsValue_eq, Nat.ofDigitChars_replicate_zero, Nat.mul_zero]

theorem digitsValue_toDigits (n : Nat) : digitsValue (Nat.toDigits 10 n) = n := by
  rw [digitsValue_eq, Nat.ofDigitChars_ten_toDigits]

theorem isDigit_toDigits (n : Nat) : ∀ c ∈ Nat.toDigits 10 n, c.isDigit = true :=
  fun _ mem => Nat.isDigit_of_mem_toDigits (by decide) (by decide) mem

theorem isDigit_zeros (n : Nat) : ∀ c ∈ List.replicate n '0', c.isDigit = true := by
  intro c mem
  rw [List.eq_of_mem_replicate mem]
  rfl

theorem isDigit_append {ds es : List Char} (hds : ∀ c ∈ ds, c.isDigit = true) (hes : ∀ c ∈ es, c.isDigit = true) :
    ∀ c ∈ ds ++ es, c.isDigit = true :=
  fun c mem => (List.mem_append.mp mem).elim (hds c) (hes c)

theorem head?_append {ds es : List Char} (ne : ds ≠ []) : (ds ++ es).head? = ds.head? := by
  rw [List.head?_append, List.head?_eq_some_head ne, Option.some_or]

theorem take_ne_nil {ds : List Char} {n : Nat} (ne : ds ≠ []) (pos : 0 < n) : ds.take n ≠ [] := by
  rw [ne_eq, List.take_eq_nil_iff]
  exact fun h => h.elim (Nat.ne_of_gt pos) ne

theorem head?_take_ne {ds : List Char} {n : Nat} (lead : ds.head? ≠ some '0') (pos : 0 < n) :
    (ds.take n).head? ≠ some '0' := by
  rw [List.head?_take, if_neg (Nat.ne_of_gt pos)]
  exact lead

/-- The digits of a number begin with a zero only where it stands alone. -/
theorem toDigits_lead (n : Nat) : (Nat.toDigits 10 n).head? = some '0' → Nat.toDigits 10 n = ['0'] := by
  induction n using Nat.strongRecOn with
  | ind n ih =>
    intro zero
    rcases Nat.lt_or_ge n 10 with small | large
    · rw [Nat.toDigits_of_lt_base small] at zero ⊢
      rw [List.head?_cons, Option.some_inj] at zero
      rw [zero]
    · rw [Nat.toDigits_of_base_le (by decide) large, head?_append Nat.toDigits_ne_nil] at zero
      have front := ih (n / 10) (by omega) zero
      have value := digitsValue_toDigits (n / 10)
      rw [front] at value
      have : n / 10 = 0 := value.symm
      omega

/-! ### The layout of digits -/

/-- The exponent of a scientific form. -/
theorem exists_exponent (e : Int) : ∃ x : Exponent, x.text = 'e' :: (Double.exponentText e).toList ∧ x.value = e := by
  obtain ⟨digits, text, ne, all, value⟩ : ∃ digits : List Char,
      (if (toString e.natAbs).length < 2 then "0" ++ toString e.natAbs else toString e.natAbs).toList = digits ∧
      digits ≠ [] ∧ (∀ c ∈ digits, c.isDigit = true) ∧ digitsValue digits = e.natAbs := by
    have plain : (toString e.natAbs).toList = Nat.toDigits 10 e.natAbs := Nat.toList_repr
    split
    · refine ⟨List.replicate 1 '0' ++ Nat.toDigits 10 e.natAbs, by rw [String.toList_append, plain]; rfl, nofun,
        isDigit_append (isDigit_zeros 1) (isDigit_toDigits _), ?_⟩
      rw [digitsValue_append, digitsValue_toDigits, digitsValue_zeros, Nat.zero_mul, Nat.zero_add]
    · exact ⟨_, plain, Nat.toDigits_ne_nil, isDigit_toDigits _, digitsValue_toDigits _⟩
  refine ⟨⟨'e', some (decide (e < 0)), digits, .inl rfl, ne, all⟩, ?_, ?_⟩
  · rw [Double.exponentText, String.toList_append, text, Exponent.text, List.cons_append]
    by_cases negative : e < 0
    · simp [negative, Exponent.signText]
    · simp [negative, Exponent.signText]
  · rw [Exponent.value, value]
    by_cases negative : e < 0
    · simp only [negative, decide_true, if_true]
      omega
    · simp only [negative, decide_false, Option.some_inj, Bool.false_eq_true, if_false]
      omega

theorem fractionText_of_ne {ds : List Char} (ne : ds ≠ []) : Numeral.fractionText ds = '.' :: ds := by
  cases ds with
  | nil => exact absurd rfl ne
  | cons c rest => rfl

/-- A text that is a numeral with a fraction or an exponent, of the number that `digits` are with the point after
`point` of them; zeros may be added behind the digits where that is a whole number. -/
def Shows (negative : Bool) (digits : List Char) (point : Int) (text : List Char) : Prop :=
  ∃ n : Numeral, n.negative = negative ∧ n.magnitudeText = text ∧ n.isWhole = false ∧
    ∃ zeros : Nat, digitsValue (n.whole ++ n.fraction) = digitsValue digits * 10 ^ zeros ∧
      n.power = point - digits.length - zeros ∧ (zeros = 0 ∨ n.power = -1)

section Layout

variable {digits : List Char} {point : Int} (negative : Bool) (ne : digits ≠ [])
  (all : ∀ c ∈ digits, c.isDigit = true)

include ne all

/-- The point before the digits. -/
theorem shows_before (before : point ≤ 0) :
    Shows negative digits point ('0' :: '.' :: (List.replicate (-point).toNat '0' ++ digits)) := by
  have fraction : List.replicate (-point).toNat '0' ++ digits ≠ [] := List.append_ne_nil_of_right_ne_nil _ ne
  refine ⟨⟨negative, ['0'], List.replicate (-point).toNat '0' ++ digits, none, nofun, isDigit_zeros 1, fun _ => rfl,
    isDigit_append (isDigit_zeros _) all⟩, rfl, ?_, ?_, 0, ?_, ?_, .inl rfl⟩
  · rw [Numeral.magnitudeText, fractionText_of_ne fraction]
    exact List.append_nil _
  · rw [Numeral.isWhole, List.isEmpty_eq_false_iff.mpr fraction, Bool.false_and]
  · rw [digitsValue_append, digitsValue_append, digitsValue_zeros]
    simp [digitsValue]
  · rw [Numeral.power, List.length_append, List.length_replicate]
    simp only [Option.map_none, Option.getD_none]
    omega

/-- The point behind the digits and zeros. -/
theorem shows_behind (lead : digits.head? ≠ some '0') (behind : digits.length ≤ point) :
    Shows negative digits point (digits ++ List.replicate (point.toNat - digits.length) '0' ++ ['.', '0']) := by
  refine ⟨⟨negative, digits ++ List.replicate (point.toNat - digits.length) '0', ['0'], none,
    List.append_ne_nil_of_left_ne_nil ne _, isDigit_append all (isDigit_zeros _), ?_, isDigit_zeros 1⟩,
    rfl, List.append_nil _, rfl, point.toNat - digits.length + 1, ?_, ?_, .inr rfl⟩
  · rw [head?_append ne]
    exact fun zero => absurd zero lead
  · rw [digitsValue_append, digitsValue_append, digitsValue_zeros, List.length_replicate]
    simp [digitsValue, Nat.pow_succ, Nat.mul_assoc]
  · change (0 : Int) - (1 : Nat) = _
    omega

/-- The point among the digits. -/
theorem shows_within (lead : digits.head? ≠ some '0') (pos : 0 < point) (within : point < digits.length) :
    Shows negative digits point (digits.take point.toNat ++ '.' :: digits.drop point.toNat) := by
  have before : 0 < point.toNat := by omega
  have fraction : digits.drop point.toNat ≠ [] := by
    rw [ne_eq, List.drop_eq_nil_iff]
    omega
  refine ⟨⟨negative, digits.take point.toNat, digits.drop point.toNat, none, take_ne_nil ne before,
    fun c mem => all c (List.mem_of_mem_take mem), fun zero => absurd zero (head?_take_ne lead before),
    fun c mem => all c (List.mem_of_mem_drop mem)⟩, rfl, ?_, ?_, 0, ?_, ?_, .inl rfl⟩
  · rw [Numeral.magnitudeText, fractionText_of_ne fraction]
    exact List.append_nil _
  · rw [Numeral.isWhole, List.isEmpty_eq_false_iff.mpr fraction, Bool.false_and]
  · rw [List.take_append_drop, Nat.pow_zero, Nat.mul_one]
  · rw [Numeral.power, List.length_drop]
    simp only [Option.map_none, Option.getD_none]
    omega

/-- One digit before the point, and an exponent. -/
theorem shows_scientific (lead : digits.head? ≠ some '0') : Shows negative digits point
    (digits.take 1 ++ Numeral.fractionText (digits.drop 1) ++ 'e' :: (Double.exponentText (point - 1)).toList) := by
  obtain ⟨exponent, text, value⟩ := exists_exponent (point - 1)
  have positive := List.length_pos_iff.mpr ne
  refine ⟨⟨negative, digits.take 1, digits.drop 1, some exponent, take_ne_nil ne Nat.one_pos,
    fun c mem => all c (List.mem_of_mem_take mem), fun zero => absurd zero (head?_take_ne lead Nat.one_pos),
    fun c mem => all c (List.mem_of_mem_drop mem)⟩, rfl, ?_, ?_, 0, ?_, ?_, .inl rfl⟩
  · rw [Numeral.magnitudeText, ← text]
    rfl
  · rw [Numeral.isWhole, Option.isNone_some, Bool.and_false]
  · rw [List.take_append_drop, Nat.pow_zero, Nat.mul_one]
  · rw [Numeral.power, List.length_drop, Option.map_some, Option.getD_some, value]
    omega

/-- **However digits are laid out**, the text is a numeral with a fraction or an exponent that keeps their number. -/
theorem shows_layout (lead : digits.head? ≠ some '0') (point : Int) :
    Shows negative digits point (Double.layout (String.ofList digits) point).toList := by
  rw [Double.layout]
  dsimp only
  rw [String.length_ofList, String.toList_ofList]
  split
  · split
    · rename_i before
      simp only [String.toList_append, String.toList_ofList]
      exact shows_before negative ne all before
    · split
      · rename_i behind
        simp only [String.toList_append, String.toList_ofList]
        exact shows_behind negative ne all lead behind
      · rename_i pos within
        simp only [String.toList_append, String.toList_ofList, List.append_assoc]
        exact shows_within negative ne all lead (Int.not_le.mp pos) (Int.not_le.mp within)
  · have body : (if (digits.drop 1).isEmpty then String.ofList (digits.take 1)
        else String.ofList (digits.take 1) ++ "." ++ String.ofList (digits.drop 1)).toList =
        digits.take 1 ++ Numeral.fractionText (digits.drop 1) := by
      cases digits.drop 1 with
      | nil => exact String.toList_ofList.trans (List.append_nil _).symm
      | cons c rest =>
        rw [List.isEmpty_cons, if_neg (by decide)]
        simp only [String.toList_append, String.toList_ofList, List.append_assoc]
        rfl
    rw [String.toList_append, String.toList_append, body, List.append_assoc]
    exact shows_scientific negative ne all lead

end Layout

end Json

namespace Double

open Json (Numeral digitsValue)

/-- Zeros behind the digits do not change which double is nearest. -/
theorem IsNearest.shift {d : Double} {c zeros : Nat} {k j : Int}
    (h : d.IsNearest (c * 10 ^ k.toNat * unitsPerOne) (10 ^ (-k).toNat)) (eq : j = k - zeros) :
    d.IsNearest (c * 10 ^ zeros * 10 ^ j.toNat * unitsPerOne) (10 ^ (-j).toNat) := by
  have pos : ∀ n, 0 < 10 ^ n := fun n => Nat.pow_pos (by decide)
  refine h.of_cross (pos _) (pos _) ?_
  have powers : 10 ^ zeros * 10 ^ j.toNat * 10 ^ (-k).toNat = 10 ^ k.toNat * 10 ^ (-j).toNat := by
    rw [← Nat.pow_add, ← Nat.pow_add, ← Nat.pow_add]
    congr 1
    omega
  calc c * 10 ^ zeros * 10 ^ j.toNat * unitsPerOne * 10 ^ (-k).toNat
      = c * (10 ^ zeros * 10 ^ j.toNat * 10 ^ (-k).toNat) * unitsPerOne := by
        rw [Nat.mul_right_comm, Nat.mul_assoc c, Nat.mul_assoc c]
    _ = c * 10 ^ k.toNat * unitsPerOne * 10 ^ (-j).toNat := by
        rw [powers, ← Nat.mul_assoc, Nat.mul_right_comm]

theorem eq_zero_of_units {d : Double} (h : d.units = 0) : d = zero d.negative := by
  have mantissa : d.mantissa = 0 := (Nat.mul_eq_zero.mp h).resolve_right (Nat.ne_of_gt (Nat.two_pow_pos _))
  have scale : d.scale = 0 := d.normal.resolve_right (by rw [mantissa]; decide)
  obtain ⟨negative, m, s, _, _, _⟩ := d
  cases mantissa
  cases scale
  rfl

theorem toList_sign (negative : Bool) (magnitude : String) :
    (if negative then "-" ++ magnitude else magnitude).toList =
      (if negative then ['-'] else []) ++ magnitude.toList := by
  cases negative with
  | true => exact String.toList_append
  | false => rfl

/-- **The text of a double reads back as the double**, and is never the text of a whole number. -/
theorem exists_numeral (d : Double) :
    ∃ n : Numeral, n.text = d.text.toList ∧ n.isWhole = false ∧ n.floating = .finite d := by
  by_cases zero_units : d.units = 0
  · refine ⟨⟨d.negative, ['0'], ['0'], none, nofun, Json.isDigit_zeros 1, fun _ => rfl, Json.isDigit_zeros 1⟩, ?_, rfl,
      ?_⟩
    · rw [text, shortest?, if_pos zero_units, toList_sign]
      rfl
    · rw [eq_zero_of_units zero_units]
      rfl
  -- the shortest digits name a decimal that is nearest to `d` alone, and the layout only moves its point
  · obtain ⟨c, k, found, positive, low, high, nearest⟩ := d.exists_shortest zero_units
    have lead : (Nat.toDigits 10 c).head? ≠ some '0' := fun zero => by
      have value := Json.digitsValue_toDigits c
      rw [Json.toDigits_lead c zero] at value
      exact positive value.symm
    obtain ⟨n, sign, magnitude, not_whole, zeros, value, power, bound⟩ :=
      Json.shows_layout d.negative Nat.toDigits_ne_nil (Json.isDigit_toDigits c) lead ((Nat.toDigits 10 c).length + k)
    rw [Json.digitsValue_toDigits] at value
    have shift : n.power = k - zeros := by omega
    refine ⟨n, ?_, not_whole, ?_⟩
    · rw [text, found, toList_sign, Numeral.text, sign, magnitude]
      simp only [Nat.toString_eq_ofList_toDigits, String.length_ofList]
    · have read := nearest.shift shift
      rw [← value] at read
      have ne : digitsValue (n.whole ++ n.fraction) ≠ 0 := by
        rw [value]
        exact Nat.mul_ne_zero positive (Nat.ne_of_gt (Nat.pow_pos (by decide)))
      rw [Numeral.floating, sign]
      refine Floating.ofDecimal_of_isNearest read ne ?_ ?_
      · rw [Floating.decimalHorizon]
        omega
      · rw [Floating.decimalHorizon]
        omega

end Double

namespace Number

open Json (Numeral)

/-- A whole number is written in digits alone. -/
theorem exists_numeral_int (i : Int) :
    ∃ n : Numeral, n.text = (toString i).toList ∧ n.isWhole = true ∧ n.integer = i ∧
      n.whole = Nat.toDigits 10 i.natAbs := by
  refine ⟨⟨decide (i < 0), Nat.toDigits 10 i.natAbs, [], none, Nat.toDigits_ne_nil, Json.isDigit_toDigits _,
    Json.toDigits_lead _, nofun⟩, ?_, rfl, ?_, rfl⟩
  · rw [Int.toString_eq_repr, Int.repr_eq_if]
    by_cases negative : i < 0
    · rw [if_neg (by omega), String.toList_append, Nat.toList_repr, show (-i).toNat = i.natAbs by omega]
      simp [Numeral.text, Numeral.magnitudeText, Numeral.fractionText, Numeral.exponentText, negative]
    · rw [if_pos (by omega), Nat.toList_repr, show i.toNat = i.natAbs by omega]
      simp [Numeral.text, Numeral.magnitudeText, Numeral.fractionText, Numeral.exponentText, negative]
  · rw [Numeral.integer, Json.digitsValue_toDigits]
    by_cases negative : i < 0
    · simp only [negative, decide_true, if_true]
      omega
    · simp only [negative, decide_false, Bool.false_eq_true, if_false]
      omega

/-- A whole number has no more digits than the limit allows. -/
def Within (limit : Option Nat) : Number → Prop
  | .int i => Json.exceeded? limit (toString i.natAbs).length = none
  | .double _ => True

instance (limit : Option Nat) : DecidablePred (Within limit)
  | .int i => decidable_of_iff (Json.exceeded? limit (toString i.natAbs).length = none) Iff.rfl
  | .double _ => isTrue trivial

/-- **The text of a number is a numeral that denotes it**, a whole number or a double as it was, and of no more digits. -/
theorem exists_numeral (x : Number) : ∃ n : Numeral, n.text = x.text.toList ∧ n.number? = some x ∧
    ∀ limit, x.Within limit → n.Within limit := by
  cases x with
  | int i =>
    obtain ⟨n, text, whole, value, digits⟩ := exists_numeral_int i
    refine ⟨n, text, by rw [Numeral.number?, if_pos whole, value], fun limit within => ?_⟩
    rw [Within, Nat.toString_eq_ofList_toDigits, String.length_ofList] at within
    rw [Numeral.Within, Numeral.excess?, if_pos whole, digits, within]
  | double d =>
    obtain ⟨n, text, not_whole, value⟩ := d.exists_numeral
    refine ⟨n, text, ?_, fun limit _ => ?_⟩
    · rw [Numeral.number?, not_whole, if_neg Bool.false_ne_true, value]
    · rw [Numeral.Within, Numeral.excess?, not_whole, if_neg Bool.false_ne_true]

end Number

end Stepflow
