/-!
# Stepflow.Number.Double — finite binary64 numbers, exactly

A `Double` is a sign and a magnitude of `mantissa · 2 ^ scale` units of `2 ^ -1074`, in the one
form in which the mantissa has 53 bits or the scale is zero.  So equality of doubles is equality of
their bit patterns, and every comparison is one of integers.  `Floating` adds what arithmetic can
end in besides: the infinities and not-a-number.  `Floating.ofRatio` rounds a quotient of natural
numbers to the nearest double, ties to the even mantissa; all arithmetic is an exact operation
followed by it.
-/

namespace Stepflow

/-- The numbers of at most 53 bits lie below this one. -/
abbrev mantissaLimit : Nat := 0x20000000000000

/-- The least number of 53 bits. -/
abbrev leadingMantissa : Nat := 0x10000000000000

/-- A finite binary64 number, `±(mantissa · 2 ^ scale) · 2 ^ -1074`. -/
structure Double where
  negative : Bool
  mantissa : Nat
  scale : Nat
  mantissa_lt : mantissa < mantissaLimit
  scale_le : scale ≤ 2045
  normal : scale = 0 ∨ leadingMantissa ≤ mantissa
deriving DecidableEq

namespace Double

/-- The exponent of the unit: every double is a multiple of `2 ^ -unitExponent`. -/
def unitExponent : Nat := 1074

/-- How many units make one. -/
def unitsPerOne : Nat := Nat.pow 2 unitExponent

/-- The magnitude in units. -/
def units (d : Double) : Nat := d.mantissa * Nat.pow 2 d.scale

/-- The value in units, with its sign; both zeros give `0`. -/
def signedUnits (d : Double) : Int := if d.negative then -(d.units : Int) else d.units

/-- Zero of either sign. -/
def zero (negative : Bool) : Double :=
  ⟨negative, 0, 0, by decide, by decide, Or.inl rfl⟩

instance : Inhabited Double := ⟨zero false⟩

/-- Whether a number is a whole number. -/
def isIntegral (d : Double) : Bool := d.units % unitsPerOne == 0

/-- The whole part, towards zero. -/
def truncate (d : Double) : Int :=
  let whole := d.units / unitsPerOne
  if d.negative then -(whole : Int) else whole

end Double

/-- What floating-point arithmetic can give. -/
inductive Floating where
  | finite (d : Double)
  | infinite (negative : Bool)
  | nan
deriving DecidableEq

namespace Floating

instance : Inhabited Floating := ⟨.nan⟩

/-- The quotient nearest to `num / den`, a half going to the even neighbour. -/
def divideToEven (num den : Nat) : Nat :=
  let q := num / den
  let r := num % den
  if den < 2 * r then q + 1
  else if 2 * r = den then q + q % 2
  else q

/-- The least scale at which `whole` units have at most 53 bits. -/
def scaleFor (whole : Nat) : Nat := (whole.log2 + 1) - 53

/-- The number with a mantissa and a scale that need not be in range yet: a mantissa of `2 ^ 53`
moves to the next scale, and a scale beyond the range is an infinity. -/
def assemble (negative : Bool) (mantissa scale : Nat) : Floating :=
  let m := if mantissa = mantissaLimit then leadingMantissa else mantissa
  let s := if mantissa = mantissaLimit then scale + 1 else scale
  if h : m < mantissaLimit ∧ s ≤ 2045 ∧ (s = 0 ∨ leadingMantissa ≤ m) then
    .finite ⟨negative, m, s, h.1, h.2.1, h.2.2⟩
  else .infinite negative

/-- The double nearest to `num / den` units, a half going to the even mantissa. -/
def ofUnitRatio (negative : Bool) (num den : Nat) : Floating :=
  let scale := scaleFor (num / den)
  assemble negative (divideToEven num (den * Nat.pow 2 scale)) scale

/-- The double nearest to `num / den`. -/
def ofRatio (negative : Bool) (num den : Nat) : Floating :=
  ofUnitRatio negative (num * Double.unitsPerOne) den

/-- The double nearest to a whole number; `none` where that is out of range. -/
def ofInt? (n : Int) : Option Double :=
  match ofRatio (n < 0) n.natAbs 1 with
  | .finite d => some d
  | _ => none

/-- The sum.  Zeros of unlike sign, and exact cancellation, give positive zero. -/
def add : Floating → Floating → Floating
  | .nan, _ => .nan
  | _, .nan => .nan
  | .infinite a, .infinite b => if a = b then .infinite a else .nan
  | .infinite a, .finite _ => .infinite a
  | .finite _, .infinite b => .infinite b
  | .finite x, .finite y =>
    let sum := x.signedUnits + y.signedUnits
    if sum = 0 then .finite (Double.zero (x.negative && y.negative))
    else ofUnitRatio (sum < 0) sum.natAbs 1

/-- The product. -/
def mul : Floating → Floating → Floating
  | .nan, _ => .nan
  | _, .nan => .nan
  | .infinite a, .infinite b => .infinite (a != b)
  | .infinite a, .finite y => if y.units = 0 then .nan else .infinite (a != y.negative)
  | .finite x, .infinite b => if x.units = 0 then .nan else .infinite (x.negative != b)
  | .finite x, .finite y =>
    ofUnitRatio (x.negative != y.negative) (x.units * y.units) Double.unitsPerOne

end Floating

end Stepflow
