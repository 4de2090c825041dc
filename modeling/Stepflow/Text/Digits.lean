/-!
# Stepflow.Text.Digits — whole numbers written in digits

A digit may come from any script that has decimal digits: every such script has its ten digits in a
row, so `decimalZeros` lists the zeros.  `readWhole?` reads a number in base ten or sixteen with a
sign and with blanks around it; one underscore may stand between two digits, and in base sixteen
the digits may follow the mark `0x`.
-/

namespace Stepflow.Text

/-- The value of a hexadecimal digit. -/
def hexValue? (c : Char) : Option Nat :=
  if '0' ≤ c ∧ c ≤ '9' then some (c.toNat - 48)
  else if 'a' ≤ c ∧ c ≤ 'f' then some (c.toNat - 87)
  else if 'A' ≤ c ∧ c ≤ 'F' then some (c.toNat - 55)
  else none

/-! ### Digits and blanks of all scripts -/

/-- The code points of the decimal zeros, in order. -/
def decimalZeros : List Nat :=
  [0x30, 0x660, 0x6f0, 0x7c0, 0x966, 0x9e6, 0xa66, 0xae6, 0xb66, 0xbe6, 0xc66, 0xce6, 0xd66, 0xde6,
    0xe50, 0xed0, 0xf20, 0x1040, 0x1090, 0x17e0, 0x1810, 0x1946, 0x19d0, 0x1a80, 0x1a90, 0x1b50,
    0x1bb0, 0x1c40, 0x1c50, 0xa620, 0xa8d0, 0xa900, 0xa9d0, 0xa9f0, 0xaa50, 0xabf0, 0xff10, 0x104a0,
    0x10d30, 0x11066, 0x110f0, 0x11136, 0x111d0, 0x112f0, 0x11450, 0x114d0, 0x11650, 0x116c0,
    0x11730, 0x118e0, 0x11950, 0x11c50, 0x11d50, 0x11da0, 0x16a60, 0x16ac0, 0x16b50, 0x1d7ce,
    0x1d7d8, 0x1d7e2, 0x1d7ec, 0x1d7f6, 0x1e140, 0x1e2f0, 0x1e950, 0x1fbf0]

/-- The value of a decimal digit of any script. -/
def decimalValue? (c : Char) : Option Nat :=
  (decimalZeros.find? (fun z => z ≤ c.toNat && c.toNat < z + 10)).map (c.toNat - ·)

/-- The blanks beyond ASCII. -/
def isWideBlank (c : Char) : Bool :=
  [0x85, 0xa0, 0x1680, 0x2028, 0x2029, 0x202f, 0x205f, 0x3000].contains c.toNat ||
    (0x2000 ≤ c.toNat && c.toNat ≤ 0x200a)

/-- The blanks of ASCII. -/
def isPlainBlank (c : Char) : Bool := c == ' ' || (9 ≤ c.toNat && c.toNat ≤ 13)

/-- Characters with the digits and blanks of all scripts in ASCII.  Another character beyond ASCII
ends the reading, for which a question mark stands. -/
def inAscii : List Char → List Char
  | [] => []
  | c :: rest =>
    if c.toNat < 127 then c :: inAscii rest
    else if isWideBlank c then ' ' :: inAscii rest
    else match decimalValue? c with
      | some n => Char.ofNat (0x30 + n) :: inAscii rest
      | none => ['?']

/-- Characters without the blanks at both ends. -/
def trimBlanks (cs : List Char) : List Char :=
  ((cs.dropWhile isPlainBlank).reverse.dropWhile isPlainBlank).reverse

/-! ### Reading -/

/-- The value of a digit in a base up to sixteen. -/
def digitValue? (base : Nat) (c : Char) : Option Nat := (hexValue? c).filter (· < base)

/-- Go on reading digits after a digit; `n` is the number so far. -/
def readDigits? (base n : Nat) : List Char → Option Nat
  | [] => some n
  | '_' :: c :: rest => (digitValue? base c).bind (fun d => readDigits? base (n * base + d) rest)
  | c :: rest => (digitValue? base c).bind (fun d => readDigits? base (n * base + d) rest)

/-- Read digits, of which there must be one. -/
def readNat? (base : Nat) : List Char → Option Nat
  | [] => none
  | c :: rest => (digitValue? base c).bind (fun d => readDigits? base d rest)

/-- Skip the mark of base sixteen, and one underscore after it. -/
def skipMark : List Char → List Char
  | '0' :: x :: '_' :: rest => if x = 'x' ∨ x = 'X' then rest else '0' :: x :: '_' :: rest
  | '0' :: x :: rest => if x = 'x' ∨ x = 'X' then rest else '0' :: x :: rest
  | cs => cs

/-- Read a number in base ten or sixteen. -/
def readWhole? (base : Nat) (cs : List Char) : Option Int :=
  let magnitude := fun cs => readNat? base (if base = 16 then skipMark cs else cs)
  match trimBlanks (inAscii cs) with
  | '-' :: rest => (magnitude rest).map (fun n => -(n : Int))
  | '+' :: rest => (magnitude rest).map (fun n => (n : Int))
  | cs => (magnitude cs).map (fun n => (n : Int))

end Stepflow.Text
