import Stepflow.Number.Double

/-!
# Stepflow.Number.Decimal — reading and writing doubles in base ten

Reading rounds the exact decimal to the nearest double.  Writing gives the fewest digits that read
back: `Double.shortest?` walks from coarse to fine decimal grids and stops at the first grid with a
point among the reals that round to the number; of two points the nearer is taken, of two equally
near the even one.  `Double.text` lays the digits out: positional while the first digit stands
between the fourth place after the point and the sixteenth before it, scientific beyond.
-/

namespace Stepflow

namespace Floating

/-- Decimal exponents beyond this bound are out of the range of a double on either side. -/
def decimalHorizon : Int := 400

/-- The double nearest to `±digits · 10 ^ exponent`. -/
def ofDecimal (negative : Bool) (digits : Nat) (exponent : Int) : Floating :=
  if digits = 0 then .finite (Double.zero negative)
  else if exponent > decimalHorizon then .infinite negative
  else if exponent + (digits.log2 + 1 : Nat) < -decimalHorizon then .finite (Double.zero negative)
  else match exponent with
    | .ofNat e => ofRatio negative (digits * Nat.pow 10 e) 1
    | .negSucc e => ofRatio negative digits (Nat.pow 10 (e + 1))

end Floating

namespace Double

/-! ### The reals that round to a number

Bounds are in quarter units, so that the midpoints to both neighbours are whole. -/

/-- Four times the magnitude. -/
def quarters (d : Double) : Nat := 4 * d.units

/-- The midpoint to the next larger magnitude. -/
def upper (d : Double) : Nat := d.quarters + 2 * Nat.pow 2 d.scale

/-- The midpoint to the next smaller magnitude; below a power of two the neighbour is half as
far. -/
def lower (d : Double) : Nat :=
  d.quarters - (if d.mantissa = leadingMantissa ∧ d.scale ≠ 0 then 1 else 2) * Nat.pow 2 d.scale

/-- How many quarter units make one. -/
def quartersPerOne : Nat := 4 * unitsPerOne

/-- Whether `c` steps of the grid, `num` steps being one quarter unit over `den`, round to `d`:
the midpoints belong to the interval iff the mantissa is even. -/
def admits (d : Double) (num den c : Nat) : Bool :=
  if d.mantissa % 2 = 0 then d.lower * num ≤ c * den && c * den ≤ d.upper * num
  else d.lower * num < c * den && c * den < d.upper * num

/-- The point of the grid `10 ^ k` to write for `d`, if one rounds to `d`. -/
def gridPoint? (d : Double) (k : Int) : Option Nat :=
  let num := Nat.pow 10 (-k).toNat
  let den := quartersPerOne * Nat.pow 10 k.toNat
  let below := d.quarters * num / den
  let rest := d.quarters * num % den
  match d.admits num den below, d.admits num den (below + 1) with
  | true, true =>
    some (if 2 * rest < den || (2 * rest == den && below % 2 == 0) then below else below + 1)
  | true, false => some below
  | false, true => some (below + 1)
  | false, false => none

/-- Walk down the grids from `10 ^ k`. -/
def findGrid (d : Double) : Nat → Int → Option (Nat × Int)
  | 0, _ => none
  | fuel + 1, k =>
    match d.gridPoint? k with
    | some c => some (c, k)
    | none => findGrid d fuel (k - 1)

/-- A power of ten that is larger than the magnitude. -/
def coarsest (d : Double) : Int :=
  ((d.quarters.log2 + 1 : Nat) - (unitExponent + 2 : Nat) : Int) * 30103 / 100000 + 2

/-- The fewest digits that read back, as a whole number and a power of ten; `none` for zero.
Twenty-two grids reach past seventeen digits, which always suffice. -/
def shortest? (d : Double) : Option (Nat × Int) :=
  if d.units = 0 then none else d.findGrid 22 d.coarsest

/-! ### Layout -/

/-- The exponent of a scientific form: a sign and at least two digits. -/
def exponentText (e : Int) : String :=
  let digits := toString e.natAbs
  (if e < 0 then "-" else "+") ++ (if digits.length < 2 then "0" ++ digits else digits)

/-- Lay out `digits`, the point standing after `point` of them. -/
def layout (digits : String) (point : Int) : String :=
  let n := digits.length
  if -4 < point ∧ point ≤ 16 then
    if point ≤ 0 then
      "0." ++ String.ofList (List.replicate (-point).toNat '0') ++ digits
    else if (n : Int) ≤ point then
      digits ++ String.ofList (List.replicate (point.toNat - n) '0') ++ ".0"
    else
      String.ofList (digits.toList.take point.toNat) ++ "." ++
        String.ofList (digits.toList.drop point.toNat)
  else
    let head := String.ofList (digits.toList.take 1)
    let tail := digits.toList.drop 1
    let body := if tail.isEmpty then head else head ++ "." ++ String.ofList tail
    body ++ "e" ++ exponentText (point - 1)

/-- The text of a double: the fewest digits that read back, always with a point or an exponent. -/
def text (d : Double) : String :=
  let magnitude := match d.shortest? with
    | none => "0.0"
    | some (c, k) =>
      let digits := toString c
      layout digits (digits.length + k)
  if d.negative then "-" ++ magnitude else magnitude

end Double

/-- The text of a floating-point result. -/
def Floating.text : Floating → String
  | .finite d => d.text
  | .infinite false => "inf"
  | .infinite true => "-inf"
  | .nan => "nan"

end Stepflow
