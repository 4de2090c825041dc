import Stepflow.Value.Checked
import Stepflow.Text.Digits
import Stepflow.Text.Encoding

/-!
# Stepflow.Json.Reader — from JSON text to values

The reader goes from left to right and stops at the first fault, so the fault names what was wanted there.  A number is
the longest prefix of the form of a JSON number; one with a fraction or an exponent is a double, any other a whole number.
How many digits a whole number may have is a setting of the reader, the last argument of what reads whole texts; without
it whole numbers have any size.  An object that repeats a key keeps its first place and its last value.  What is read is
checked as data of the host: a double that overflows is found only after the whole text was read.  The names of the
numbers that are not finite are refused where they stand.
-/

namespace Stepflow.Json

/-- What is wrong with a text. -/
inductive Fault where
  | value
  | propertyName
  | colon
  | comma
  | unterminated
  | control
  | escape
  | unicodeEscape
  | extraData
  | byteOrderMark
  | notFinite (name : String)
  /-- A whole number of more digits than are read. -/
  | tooLong (limit digits : Nat)

/-- The failure that tells a fault.  All faults but that of a number that is too long are failures of decoding. -/
def Fault.failure : Fault → Failure
  | .value => .decodeAtRoot "valid JSON" "Expecting value"
  | .propertyName =>
    .decodeAtRoot "valid JSON" "Expecting property name enclosed in double quotes"
  | .colon => .decodeAtRoot "valid JSON" "Expecting ':' delimiter"
  | .comma => .decodeAtRoot "valid JSON" "Expecting ',' delimiter"
  | .unterminated => .decodeAtRoot "valid JSON" "Unterminated string starting at"
  | .control => .decodeAtRoot "valid JSON" "Invalid control character at"
  | .escape => .decodeAtRoot "valid JSON" "Invalid \\escape"
  | .unicodeEscape => .decodeAtRoot "valid JSON" "Invalid \\uXXXX escape"
  | .extraData => .decodeAtRoot "valid JSON" "Extra data"
  | .byteOrderMark =>
    .decodeAtRoot "valid JSON" "Unexpected UTF-8 BOM (decode using utf-8-sig)"
  | .notFinite name => .decodeAtRoot "finite number" name
  | .tooLong limit digits => .outside .value ("Exceeds the limit (" ++ toString limit ++
    " digits) for integer string conversion: value has " ++ toString digits ++
    " digits; use sys.set_int_max_str_digits() to increase the limit")

/-! ### Blanks and strings -/

/-- The blanks between tokens. -/
def isBlank (c : Char) : Bool := c == ' ' || c == '\t' || c == '\n' || c == '\r'

/-- Skip blanks. -/
def skipBlanks (cs : List Char) : List Char := cs.dropWhile isBlank

/-- The unit that four hexadecimal digits name. -/
def hexUnit? (a b c d : Char) : Option Nat := do
  return (((← Text.hexValue? a) * 16 + (← Text.hexValue? b)) * 16 + (← Text.hexValue? c)) * 16 +
    (← Text.hexValue? d)

/-- The character that a letter after a backslash stands for. -/
def escapeTarget? (c : Char) : Option Char :=
  if c = '"' ∨ c = '\\' ∨ c = '/' then some c
  else if c = 'b' then some '\x08'
  else if c = 'f' then some '\x0c'
  else if c = 'n' then some '\n'
  else if c = 'r' then some '\r'
  else if c = 't' then some '\t'
  else none

/-- Put a code point in front of what was read. -/
def prepend (n : Nat) : Except Fault (List Nat × List Char) → Except Fault (List Nat × List Char)
  | .ok (ns, rest) => .ok (n :: ns, rest)
  | .error f => .error f

/-- Read the code points of a string after its opening quote.  An escape of four hexadecimal digits
is one code point, also where it is half of a surrogate pair, and never the last thing in a text. -/
def readUnits : List Char → Except Fault (List Nat × List Char)
  | [] => .error .unterminated
  | '"' :: rest => .ok ([], rest)
  | ['\\'] => .error .unterminated
  | '\\' :: 'u' :: a :: b :: c :: d :: rest =>
    match hexUnit? a b c d with
    | some n => if rest.isEmpty then .error .unicodeEscape else prepend n (readUnits rest)
    | none => .error .unicodeEscape
  | '\\' :: 'u' :: _ => .error .unicodeEscape
  | '\\' :: c :: rest =>
    match escapeTarget? c with
    | some target => prepend target.toNat (readUnits rest)
    | none => .error .escape
  | c :: rest => if c.toNat < 0x20 then .error .control else prepend c.toNat (readUnits rest)

/-- Read a string after its opening quote.  Two escapes that form a surrogate pair are one
character. -/
def readText (cs : List Char) : Except Fault (List Char × List Char) :=
  match readUnits cs with
  | .ok (ns, rest) => .ok (Text.charsOfUnits ns, rest)
  | .error f => .error f

/-! ### Numbers -/

/-- The number that decimal digits name. -/
def digitsValue (digits : List Char) : Nat :=
  digits.foldl (fun n c => n * 10 + (c.toNat - 48)) 0

/-- The digits of a fraction, if a point and a digit follow. -/
def readFraction : List Char → List Char × List Char
  | '.' :: c :: rest =>
    if c.isDigit then ((c :: rest).takeWhile Char.isDigit, (c :: rest).dropWhile Char.isDigit)
    else ([], '.' :: c :: rest)
  | cs => ([], cs)

/-- The sign of an exponent, if one is written. -/
def readSign : List Char → Bool × List Char
  | '-' :: rest => (true, rest)
  | '+' :: rest => (false, rest)
  | cs => (false, cs)

/-- An exponent, if one with at least one digit follows. -/
def readExponent (cs : List Char) : Option Int × List Char :=
  match cs with
  | e :: rest =>
    if e = 'e' ∨ e = 'E' then
      let (negative, rest) := readSign rest
      match rest.takeWhile Char.isDigit with
      | [] => (none, cs)
      | digits =>
        let n : Int := digitsValue digits
        (some (if negative then -n else n), rest.dropWhile Char.isDigit)
    else (none, cs)
  | [] => (none, cs)

/-- The digits before the point: a zero alone, or digits that begin with another digit. -/
def readWhole : List Char → Option (List Char × List Char)
  | '0' :: rest => some (['0'], rest)
  | c :: rest =>
    if c.isDigit then
      some ((c :: rest).takeWhile Char.isDigit, (c :: rest).dropWhile Char.isDigit)
    else none
  | [] => none

/-- The digits of whole numbers that are read where nothing else is set. -/
def digitLimit : Nat := 4300

/-- The limit that a number of so many digits exceeds, if there is one. -/
def exceeded? (limit : Option Nat) (digits : Nat) : Option Nat := limit.filter (· < digits)

/-- Read a number. -/
def readNumber (limit : Option Nat) (cs : List Char) : Except Fault (Datum × List Char) :=
  let (negative, cs) := match cs with
    | '-' :: rest => (true, rest)
    | cs => (false, cs)
  match readWhole cs with
  | none => .error .value
  | some (whole, cs) =>
    let (fraction, cs) := readFraction cs
    let (exponent, cs) := readExponent cs
    if fraction.isEmpty && exponent.isNone then
      match exceeded? limit whole.length with
      | some most => .error (.tooLong most whole.length)
      | none =>
        let n : Int := digitsValue whole
        .ok (.int (if negative then -n else n), cs)
    else
      let e : Int := exponent.getD 0 - fraction.length
      .ok (.float (Floating.ofDecimal negative (digitsValue (whole ++ fraction)) e), cs)

/-! ### Values -/

/-- Write an entry among the entries read so far. -/
def assignEntry (k : String) (d : Datum) : List (Datum × Datum) → List (Datum × Datum)
  | [] => [(.text k, d)]
  | (.text j, b) :: rest =>
    if j = k then (.text k, d) :: rest else (.text j, b) :: assignEntry k d rest
  | e :: rest => e :: assignEntry k d rest

mutual
/-- Read a value; `fuel` bounds the number of tokens. -/
def readValue (limit : Option Nat) : Nat → List Char → Except Fault (Datum × List Char)
  | 0, _ => .error .value
  | fuel + 1, cs =>
    match cs with
    | '"' :: rest =>
      match readText rest with
      | .ok (s, rest) => .ok (.text (String.ofList s), rest)
      | .error f => .error f
    | '\x7b' :: rest =>
      match skipBlanks rest with
      | '\x7d' :: rest => .ok (.table [], rest)
      | rest => readMembers limit fuel [] rest
    | '[' :: rest =>
      match skipBlanks rest with
      | ']' :: rest => .ok (.list [], rest)
      | rest =>
        match readItems limit fuel rest with
        | .ok (items, rest) => .ok (.list items, rest)
        | .error f => .error f
    | 'n' :: 'u' :: 'l' :: 'l' :: rest => .ok (.null, rest)
    | 't' :: 'r' :: 'u' :: 'e' :: rest => .ok (.bool true, rest)
    | 'f' :: 'a' :: 'l' :: 's' :: 'e' :: rest => .ok (.bool false, rest)
    | 'N' :: 'a' :: 'N' :: _ => .error (.notFinite "NaN")
    | 'I' :: 'n' :: 'f' :: 'i' :: 'n' :: 'i' :: 't' :: 'y' :: _ => .error (.notFinite "Infinity")
    | '-' :: 'I' :: 'n' :: 'f' :: 'i' :: 'n' :: 'i' :: 't' :: 'y' :: _ =>
      .error (.notFinite "-Infinity")
    | cs => readNumber limit cs

/-- Read the items of an array, of which at least one must follow, and the closing bracket. -/
def readItems (limit : Option Nat) : Nat → List Char → Except Fault (List Datum × List Char)
  | 0, _ => .error .value
  | fuel + 1, cs =>
    match readValue limit fuel cs with
    | .error f => .error f
    | .ok (item, rest) =>
      match skipBlanks rest with
      | ']' :: rest => .ok ([item], rest)
      | ',' :: rest =>
        match readItems limit fuel (skipBlanks rest) with
        | .ok (items, rest) => .ok (item :: items, rest)
        | .error f => .error f
      | _ => .error .comma

/-- Read the members of an object, of which at least one must follow, and the closing brace. -/
def readMembers (limit : Option Nat) : Nat → List (Datum × Datum) → List Char → Except Fault (Datum × List Char)
  | 0, _, _ => .error .value
  | fuel + 1, entries, cs =>
    match cs with
    | '"' :: rest =>
      match readText rest with
      | .error f => .error f
      | .ok (key, rest) =>
        match skipBlanks rest with
        | ':' :: rest =>
          match readValue limit fuel (skipBlanks rest) with
          | .error f => .error f
          | .ok (item, rest) =>
            let entries := assignEntry (String.ofList key) item entries
            match skipBlanks rest with
            | '\x7d' :: rest => .ok (.table entries, rest)
            | ',' :: rest => readMembers limit fuel entries (skipBlanks rest)
            | _ => .error .comma
        | _ => .error .colon
    | _ => .error .propertyName
end

/-- Read a whole text; every token takes a character, so its length is fuel enough. -/
def read (cs : List Char) (limit : Option Nat := none) : Except Fault Datum :=
  match readValue limit (2 * cs.length + 2) (skipBlanks cs) with
  | .error f => .error f
  | .ok (d, rest) => if (skipBlanks rest).isEmpty then .ok d else .error .extraData

/-- Read a text that was handed over as text: a byte order mark does not belong there. -/
def readUnmarked (cs : List Char) (limit : Option Nat := none) : Except Fault Datum :=
  match cs with
  | c :: _ => if c = Char.ofNat 0xFEFF then .error .byteOrderMark else read cs limit
  | [] => read cs limit

end Stepflow.Json

namespace Stepflow.Value

/-- The value of a reading. -/
def ofReading : Except Json.Fault Datum → Except Failure Value
  | .ok d => ofDatum rootPath d
  | .error f => .error f.failure

/-- Decode JSON text. -/
def ofText (s : String) (limit : Option Nat := none) : Except Failure Value :=
  ofReading (Json.readUnmarked s.toList limit)

/-- Decode the bytes of a JSON text. -/
def ofBytes (bs : List UInt8) (limit : Option Nat := none) : Except Failure Value :=
  match Text.decodeDetected bs with
  | .ok cs => ofReading (Json.read cs limit)
  | .error reason => .error (Failure.decodeAtRoot "UTF-8 text" reason.message)

end Stepflow.Value
