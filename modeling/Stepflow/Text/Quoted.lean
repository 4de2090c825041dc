import Stepflow.Text.Printable

/-!
# Stepflow.Text.Quoted — a text in quotes, as messages show it

Single quotes, or double quotes where the text holds a single quote and no double one.  The
quote in use and the backslash are escaped by a backslash; line feed, carriage return and tab have
letters; what is not printable is written by its code point in two, four or eight hexadecimal
digits.
-/

namespace Stepflow.Text

/-- `width` hexadecimal digits of a number, in lower case. -/
def hexadecimal (width n : Nat) : List Char :=
  let digits := Nat.toDigits 16 n
  List.replicate (width - digits.length) '0' ++ digits

/-- The quote that a text is shown in. -/
def quoteFor (cs : List Char) : Char :=
  if cs.contains '\'' && !cs.contains '"' then '"' else '\''

/-- A character written by its code point. -/
def escapedCode (c : Char) : List Char :=
  if c.toNat < 0x100 then '\\' :: 'x' :: hexadecimal 2 c.toNat
  else if c.toNat < 0x10000 then '\\' :: 'u' :: hexadecimal 4 c.toNat
  else '\\' :: 'U' :: hexadecimal 8 c.toNat

/-- A character inside quotes. -/
def quotedChar (quote c : Char) : List Char :=
  if c = quote ∨ c = '\\' then ['\\', c]
  else if c = '\n' then ['\\', 'n']
  else if c = '\r' then ['\\', 'r']
  else if c = '\t' then ['\\', 't']
  else if isPrintable c then [c]
  else escapedCode c

/-- A text in quotes. -/
def quoted (s : String) : String :=
  let cs := s.toList
  let quote := quoteFor cs
  String.ofList (quote :: cs.flatMap (quotedChar quote) ++ [quote])

/-- One byte inside quotes. -/
def quotedByte (quote : Char) (b : UInt8) : List Char :=
  let c := Char.ofNat b.toNat
  if c = quote ∨ c = '\\' then ['\\', c]
  else if c = '\n' then ['\\', 'n']
  else if c = '\r' then ['\\', 'r']
  else if c = '\t' then ['\\', 't']
  else if 32 ≤ b.toNat ∧ b.toNat < 127 then [c]
  else '\\' :: 'x' :: hexadecimal 2 b.toNat

/-- Bytes in quotes, after the mark `b`. -/
def quotedBytes (bs : List UInt8) : String :=
  let quote := quoteFor (bs.map (fun b => Char.ofNat b.toNat))
  String.ofList ('b' :: quote :: bs.flatMap (quotedByte quote) ++ [quote])

/-- Bytes that can change, in quotes: a single quote is escaped within either quote. -/
def quotedBuffer (bs : List UInt8) : String :=
  let quote := quoteFor (bs.map (fun b => Char.ofNat b.toNat))
  String.ofList ('b' :: quote :: bs.flatMap (quotedByte '\'') ++ [quote])

end Stepflow.Text
