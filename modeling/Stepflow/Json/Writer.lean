import Stepflow.Json.Basic
import Stepflow.Text.Quoted

/-!
# Stepflow.Json.Writer — the compact text of a JSON tree

No space between tokens, fields in their order, characters beyond ASCII as they are.  Only the
quote, the backslash and the controls below the space are escaped.
-/

namespace Stepflow.Json

/-- A character inside a JSON string. -/
def escapedChar (c : Char) : List Char :=
  if c = '"' then ['\\', '"']
  else if c = '\\' then ['\\', '\\']
  else if c = '\n' then ['\\', 'n']
  else if c = '\r' then ['\\', 'r']
  else if c = '\t' then ['\\', 't']
  else if c = '\x0c' then ['\\', 'f']
  else if c = '\x08' then ['\\', 'b']
  else if c.toNat < 0x20 then '\\' :: 'u' :: Text.hexadecimal 4 c.toNat
  else [c]

/-- A JSON string. -/
def writeText (s : String) : List Char := '"' :: s.toList.flatMap escapedChar ++ ['"']

mutual
/-- The characters of a tree. -/
def write : Json → List Char
  | .null => ['n', 'u', 'l', 'l']
  | .bool true => ['t', 'r', 'u', 'e']
  | .bool false => ['f', 'a', 'l', 's', 'e']
  | .number n => n.text.toList
  | .text s => writeText s
  | .array items => '[' :: writeItems items ++ [']']
  | .object fields => '\x7b' :: writeFields fields ++ ['\x7d']

/-- The items of an array with commas between them. -/
def writeItems : List Json → List Char
  | [] => []
  | [item] => write item
  | item :: rest => write item ++ ',' :: writeItems rest

/-- The fields of an object with commas between them. -/
def writeFields : List (String × Json) → List Char
  | [] => []
  | [(k, item)] => writeText k ++ ':' :: write item
  | (k, item) :: rest => writeText k ++ ':' :: write item ++ ',' :: writeFields rest
end

/-! ### ASCII text

The same tree for readers that take ASCII only: keys in order, a space after commas and colons,
other characters by their units of two bytes. -/

/-- A character inside a JSON string in ASCII. -/
def asciiChar (c : Char) : List Char :=
  let unit := fun (n : Nat) => '\\' :: 'u' :: Text.hexadecimal 4 n
  let n := c.toNat
  if n < 0x7f then escapedChar c
  else if n < 0x10000 then unit n
  else unit (0xd800 + (n - 0x10000) / 1024) ++ unit (0xdc00 + (n - 0x10000) % 1024)

/-- A JSON string in ASCII. -/
def asciiText (s : String) : List Char := '"' :: s.toList.flatMap asciiChar ++ ['"']

mutual
/-- The characters of a tree in ASCII. -/
def writeAscii : Json → List Char
  | .null => ['n', 'u', 'l', 'l']
  | .bool true => ['t', 'r', 'u', 'e']
  | .bool false => ['f', 'a', 'l', 's', 'e']
  | .number n => n.text.toList
  | .text s => asciiText s
  | .array items => '[' :: writeAsciiItems items ++ [']']
  | .object fields => '\x7b' :: writeAsciiFields fields ++ ['\x7d']

/-- The items of an array with commas and spaces between them. -/
def writeAsciiItems : List Json → List Char
  | [] => []
  | [item] => writeAscii item
  | item :: rest => writeAscii item ++ ',' :: ' ' :: writeAsciiItems rest

/-- The fields of an object with commas and spaces between them. -/
def writeAsciiFields : List (String × Json) → List Char
  | [] => []
  | [(k, item)] => asciiText k ++ ':' :: ' ' :: writeAscii item
  | (k, item) :: rest =>
    asciiText k ++ ':' :: ' ' :: writeAscii item ++ ',' :: ' ' :: writeAsciiFields rest
end

/-- The text of a tree in ASCII with every object in the order of its keys. -/
def renderAscii (j : Json) : String := String.ofList (writeAscii j.sorted)

/-- The text of a tree. -/
def render (j : Json) : String := String.ofList (write j)

/-- The text of a tree with every object in the order of its keys. -/
def renderSorted (j : Json) : String := j.sorted.render

end Stepflow.Json
