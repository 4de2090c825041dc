import Stepflow.Failure
import Stepflow.Text.Digits
import Stepflow.Text.Quoted

/-!
# Stepflow.Service.Identifier — the names of executions outside an engine

An identifier is a number below `2 ^ 128`, written as 32 hexadecimal digits in five groups with
hyphens between them.  It is read from 32 characters that are a number in base sixteen; the
hyphens may stand anywhere, and the marks `urn:` and `uuid:` and braces around it do not count.
-/

namespace Stepflow.Identifier

/-- Hexadecimal digits in groups of 8, 4, 4, 4 and 12. -/
def grouped (digits : List Char) : String :=
  let cut := fun (start length : Nat) => (digits.drop start).take length
  String.ofList (['-'].intercalate [cut 0 8, cut 8 4, cut 12 4, cut 16 4, cut 20 12])

/-- The characters that follow a mark, if the text begins with it. -/
def after? : (mark cs : List Char) → Option (List Char)
  | [], cs => some cs
  | m :: mark, c :: cs => if m = c then after? mark cs else none
  | _ :: _, [] => none

/-- Remove a mark wherever it occurs; `fuel` bounds the number of steps. -/
def without (mark : List Char) : Nat → List Char → List Char
  | 0, cs => cs
  | _, [] => []
  | fuel + 1, c :: rest =>
    match after? mark (c :: rest) with
    | some cs => without mark fuel cs
    | none => c :: without mark fuel rest

/-- The characters of an identifier that count. -/
def essence (s : String) : List Char :=
  let cs := without "urn:".toList s.length s.toList
  let cs := without "uuid:".toList s.length cs
  let isBrace := fun (c : Char) => c == '\x7b' || c == '\x7d'
  ((cs.dropWhile isBrace).reverse.dropWhile isBrace).reverse.filter (· != '-')

/-- The written form of the identifier that a text names. -/
def read (s : String) : Except Failure String :=
  let cs := essence s
  if cs.length = 32 then
    match Text.readWhole? 16 cs with
    | some n =>
      if 0 ≤ n ∧ n < 0x100000000000000000000000000000000 then
        .ok (grouped (Text.hexadecimal 32 n.toNat))
      else .error (.outside .value "int is out of range (need a 128-bit value)")
    | none =>
      .error (.outside .value ("invalid literal for int() with base 16: " ++
        String.ofList ((Text.quoted (String.ofList cs)).toList.take 200)))
  else .error (.outside .value "badly formed hexadecimal UUID string")

/-- A number in decimal digits, filled up with zeros in front. -/
def padded (width n : Nat) : List Char :=
  let digits := Nat.toDigits 10 n
  List.replicate (width - digits.length) '0' ++ digits

/-- The identifier of an execution. -/
def ofNumber (x : Nat) : String :=
  grouped ("e0000000000040008000".toList ++ padded 12 x)

/-- The identifier of no execution that has a number in its last group, if the number fits. -/
def unassigned (n : Nat) : Except Failure String :=
  read ("00000000-0000-0000-0000-" ++ String.ofList (padded 12 n))

end Stepflow.Identifier
