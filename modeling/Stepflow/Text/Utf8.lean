/-!
# Stepflow.Text.Utf8 — decoding bytes, strictly or with replacement

`utf8Step` reads one character off the front of a byte list, or the longest part there that can
begin no character, with the reason.  Strict decoding stops at the first such part; lenient
decoding writes one replacement character for each.  `surrogatePart` accepts, for strict decoding
of JSON text only, the three bytes of a lone surrogate, which stand for no character and are read
as the replacement character.
-/

namespace Stepflow.Text

/-- Why bytes are no text. -/
inductive IllFormed where
  | startByte
  | continuationByte
  | endOfData
  | truncated
  | outOfRange
deriving DecidableEq

/-- The wording of a reason. -/
def IllFormed.message : IllFormed → String
  | .startByte => "invalid start byte"
  | .continuationByte => "invalid continuation byte"
  | .endOfData => "unexpected end of data"
  | .truncated => "truncated data"
  | .outOfRange => "code point not in range(0x110000)"

/-- The front of a byte list: a character and its width, or an ill-formed part and its width. -/
inductive ByteStep where
  | char (c : Char) (width : Nat)
  | bad (reason : IllFormed) (width : Nat)

/-- The replacement character. -/
def replacement : Char := Char.ofNat 0xFFFD

/-- Whether a byte continues a character. -/
def isContinuation (b : UInt8) : Bool := 0x80 ≤ b && b < 0xC0

/-- The least and greatest second byte after a first byte. -/
def secondBounds (first : UInt8) : UInt8 × UInt8 :=
  if first = 0xE0 then (0xA0, 0xBF)
  else if first = 0xED then (0x80, 0x9F)
  else if first = 0xF0 then (0x90, 0xBF)
  else if first = 0xF4 then (0x80, 0x8F)
  else (0x80, 0xBF)

/-- Whether a second byte may follow a first byte. -/
def mayFollow (first second : UInt8) : Bool :=
  (secondBounds first).1 ≤ second && second ≤ (secondBounds first).2

/-- The payload bits of a continuation byte. -/
def payload (b : UInt8) : Nat := b.toNat % 64

/-- One character, or the longest part that can begin none, off the front of `first :: rest`. -/
def utf8Step (first : UInt8) (rest : List UInt8) : ByteStep :=
  if first < 0x80 then .char (Char.ofNat first.toNat) 1
  else if first < 0xC2 then .bad .startByte 1
  else if first < 0xE0 then
    match rest with
    | [] => .bad .endOfData 1
    | b :: _ =>
      if isContinuation b then .char (Char.ofNat (first.toNat % 32 * 64 + payload b)) 2
      else .bad .continuationByte 1
  else if first < 0xF0 then
    match rest with
    | [] => .bad .endOfData 1
    | [b] => if mayFollow first b then .bad .endOfData 2 else .bad .continuationByte 1
    | b :: c :: _ =>
      if !mayFollow first b then .bad .continuationByte 1
      else if isContinuation c then
        .char (Char.ofNat (first.toNat % 16 * 4096 + payload b * 64 + payload c)) 3
      else .bad .continuationByte 2
  else if first < 0xF5 then
    match rest with
    | [] => .bad .endOfData 1
    | [b] => if mayFollow first b then .bad .endOfData 2 else .bad .continuationByte 1
    | [b, c] =>
      if !mayFollow first b then .bad .continuationByte 1
      else if isContinuation c then .bad .endOfData 3
      else .bad .continuationByte 2
    | b :: c :: d :: _ =>
      if !mayFollow first b then .bad .continuationByte 1
      else if !isContinuation c then .bad .continuationByte 2
      else if isContinuation d then
        .char (Char.ofNat
          (first.toNat % 8 * 262144 + payload b * 4096 + payload c * 64 + payload d)) 4
      else .bad .continuationByte 3
  else .bad .startByte 1

/-- Whether the bytes begin with the three bytes of a lone surrogate. -/
def surrogatePart : List UInt8 → Bool
  | a :: b :: c :: _ => a == 0xED && 0xA0 ≤ b && b < 0xC0 && isContinuation c
  | _ => false

/-- Strict decoding; `fuel` bounds the number of characters. -/
def strictUtf8 : Nat → List UInt8 → Except IllFormed (List Char)
  | 0, _ | _, [] => .ok []
  | fuel + 1, first :: rest =>
    match utf8Step first rest with
    | .char c width => (strictUtf8 fuel (rest.drop (width - 1))).map (c :: ·)
    | .bad reason _ =>
      if surrogatePart (first :: rest) then
        (strictUtf8 fuel (rest.drop 2)).map (replacement :: ·)
      else .error reason

/-- Lenient decoding; `fuel` bounds the number of characters. -/
def lenientUtf8 : Nat → List UInt8 → List Char
  | 0, _ | _, [] => []
  | fuel + 1, first :: rest =>
    match utf8Step first rest with
    | .char c width => c :: lenientUtf8 fuel (rest.drop (width - 1))
    | .bad _ width => replacement :: lenientUtf8 fuel (rest.drop (width - 1))

/-- Decode bytes that must be well formed. -/
def decodeUtf8 (bs : List UInt8) : Except IllFormed (List Char) := strictUtf8 bs.length bs

/-- Decode bytes, writing one replacement character for each ill-formed part. -/
def decodeUtf8Lenient (bs : List UInt8) : List Char := lenientUtf8 bs.length bs

/-- The bytes of a character. -/
def encodeChar (c : Char) : List UInt8 :=
  let n := c.toNat
  if n < 0x80 then [n.toUInt8]
  else if n < 0x800 then [(0xC0 + n / 64).toUInt8, (0x80 + n % 64).toUInt8]
  else if n < 0x10000 then
    [(0xE0 + n / 4096).toUInt8, (0x80 + n / 64 % 64).toUInt8, (0x80 + n % 64).toUInt8]
  else
    [(0xF0 + n / 262144).toUInt8, (0x80 + n / 4096 % 64).toUInt8, (0x80 + n / 64 % 64).toUInt8,
      (0x80 + n % 64).toUInt8]

/-- The bytes of a text. -/
def encodeUtf8 (cs : List Char) : List UInt8 := cs.flatMap encodeChar

end Stepflow.Text
