import Stepflow.Text.Utf8

/-!
# Stepflow.Text.Encoding — which encoding bytes are in, and decoding them

JSON text may come in any of the five Unicode encodings.  A byte order mark decides; without one
the zero bytes among the first four do, since JSON text begins with an ASCII character.
-/

namespace Stepflow.Text

/-- The encodings of JSON text; a mark at the front of the bytes is not part of the text. -/
inductive Encoding where
  | utf8
  | utf8Marked
  | utf16 (bigEndian : Bool)
  | utf16Marked (bigEndian : Bool)
  | utf32 (bigEndian : Bool)
  | utf32Marked (bigEndian : Bool)
deriving DecidableEq

/-- The encoding that the zeros among the first bytes show. -/
def detectUnmarked : List UInt8 → Encoding
  | a :: b :: c :: d :: _ =>
    if a = 0 then (if b = 0 then .utf32 true else .utf16 true)
    else if b = 0 then (if c = 0 ∧ d = 0 then .utf32 false else .utf16 false)
    else .utf8
  | [a, b] => if a = 0 then .utf16 true else if b = 0 then .utf16 false else .utf8
  | _ => .utf8

/-- The encoding that the first bytes show. -/
def detect (bs : List UInt8) : Encoding :=
  match bs with
  | 0x00 :: 0x00 :: 0xFE :: 0xFF :: _ => .utf32Marked true
  | 0xFF :: 0xFE :: 0x00 :: 0x00 :: _ => .utf32Marked false
  | 0xFE :: 0xFF :: _ => .utf16Marked true
  | 0xFF :: 0xFE :: _ => .utf16Marked false
  | 0xEF :: 0xBB :: 0xBF :: _ => .utf8Marked
  | _ => detectUnmarked bs

/-- The units of two bytes each. -/
def units16 (bigEndian : Bool) : List UInt8 → Except IllFormed (List Nat)
  | [] => .ok []
  | [_] => .error .truncated
  | a :: b :: rest =>
    let unit := if bigEndian then a.toNat * 256 + b.toNat else b.toNat * 256 + a.toNat
    (units16 bigEndian rest).map (unit :: ·)

/-- Whether a unit is the first half of a pair. -/
def isHighSurrogate (n : Nat) : Bool := 0xD800 ≤ n && n < 0xDC00

/-- Whether a unit is the second half of a pair. -/
def isLowSurrogate (n : Nat) : Bool := 0xDC00 ≤ n && n < 0xE000

/-- The character of a pair. -/
def joinSurrogates (high low : Nat) : Char :=
  Char.ofNat (0x10000 + (high - 0xD800) * 0x400 + (low - 0xDC00))

/-- The character of a unit on its own; a lone half is read as the replacement character. -/
def loneUnit (n : Nat) : Char :=
  if isHighSurrogate n || isLowSurrogate n then replacement else Char.ofNat n

/-- Characters from units of two bytes. -/
def charsOfUnits : List Nat → List Char
  | [] => []
  | [n] => [loneUnit n]
  | n :: m :: rest =>
    if isHighSurrogate n && isLowSurrogate m then joinSurrogates n m :: charsOfUnits rest
    else loneUnit n :: charsOfUnits (m :: rest)

/-- Characters from units of four bytes. -/
def decodeUtf32 (bigEndian : Bool) : List UInt8 → Except IllFormed (List Char)
  | [] => .ok []
  | a :: b :: c :: d :: rest =>
    let n := if bigEndian then ((a.toNat * 256 + b.toNat) * 256 + c.toNat) * 256 + d.toNat
      else ((d.toNat * 256 + c.toNat) * 256 + b.toNat) * 256 + a.toNat
    if n < 0x110000 then (decodeUtf32 bigEndian rest).map (loneUnit n :: ·)
    else .error .outOfRange
  | _ => .error .truncated

/-- Decode bytes in a given encoding. -/
def Encoding.decode : Encoding → List UInt8 → Except IllFormed (List Char)
  | .utf8, bs => decodeUtf8 bs
  | .utf8Marked, bs => decodeUtf8 (bs.drop 3)
  | .utf16 bigEndian, bs => (units16 bigEndian bs).map charsOfUnits
  | .utf16Marked bigEndian, bs => (units16 bigEndian (bs.drop 2)).map charsOfUnits
  | .utf32 bigEndian, bs => decodeUtf32 bigEndian bs
  | .utf32Marked bigEndian, bs => decodeUtf32 bigEndian (bs.drop 4)

/-- Decode the bytes of a JSON text. -/
def decodeDetected (bs : List UInt8) : Except IllFormed (List Char) := (detect bs).decode bs

end Stepflow.Text
