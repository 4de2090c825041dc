import Stepflow.Number.Decimal
import Stepflow.Text.Digits

/-!
# Stepflow.Number.Reader — floating-point numbers in free form

A number may have a sign, blanks around it, digits of any script, a point anywhere among the
digits, one underscore between two digits, and an exponent; the infinities and not-a-number go by
their names in any letter case.
-/

namespace Stepflow.Floating

/-- Remove underscores, each of which must stand between two digits; `afterDigit` tells whether a
digit comes before. -/
def joinDigits? (afterDigit : Bool) : List Char → Option (List Char)
  | [] => some []
  | '_' :: c :: rest =>
    if afterDigit && c.isDigit then (joinDigits? true rest).map (c :: ·) else none
  | c :: rest => if c = '_' then none else (joinDigits? c.isDigit rest).map (c :: ·)

/-- The number that decimal digits name. -/
def digitsNumber (digits : List Char) : Nat :=
  digits.foldl (fun n c => n * 10 + (c.toNat - 48)) 0

/-- Whether a sign is a minus, and what follows it. -/
def cutSign : List Char → Bool × List Char
  | '-' :: rest => (true, rest)
  | '+' :: rest => (false, rest)
  | cs => (false, cs)

/-- Read an exponent, which may be missing, up to the end. -/
def readExponent? : List Char → Option Int
  | [] => some 0
  | e :: rest =>
    let (negative, digits) := cutSign rest
    if (e = 'e' ∨ e = 'E') ∧ digits ≠ [] ∧ digits.all Char.isDigit = true then
      let n : Int := digitsNumber digits
      some (if negative then -n else n)
    else none

/-- Read digits with a point and an exponent up to the end. -/
def readDecimal? (negative : Bool) (cs : List Char) : Option Floating :=
  let whole := cs.takeWhile Char.isDigit
  let rest := cs.dropWhile Char.isDigit
  let (fraction, rest) := match rest with
    | '.' :: rest => (rest.takeWhile Char.isDigit, rest.dropWhile Char.isDigit)
    | rest => ([], rest)
  if whole.isEmpty && fraction.isEmpty then none
  else (readExponent? rest).map (fun e =>
    .ofDecimal negative (digitsNumber (whole ++ fraction)) (e - fraction.length))

/-- Read a number in free form. -/
def read? (cs : List Char) : Option Floating :=
  match joinDigits? false (Text.trimBlanks (Text.inAscii cs)) with
  | none => none
  | some cs =>
    let (negative, magnitude) := cutSign cs
    match String.ofList (magnitude.map Char.toLower) with
    | "inf" | "infinity" => some (.infinite negative)
    | "nan" => some .nan
    | _ => readDecimal? negative magnitude

end Stepflow.Floating
