import Stepflow.Json.Reader

/-!
# Stepflow.Proofs.Json.Grammar — the texts that are JSON, and what they denote

The grammar of JSON texts derives syntax trees (`DerivesText`).  A tree keeps what was written: the literals of numbers
and every member of an object.  What a tree denotes is found in two steps: `Form.pruned` leaves of the members with one
key the last, in the place of the first, and `Form.json?` takes every literal for its number; a literal with a fraction
or an exponent that is no finite double has none.
-/

namespace Stepflow.Json

/-! ## Numerals -/

/-- The exponent of a numeral: a letter, perhaps a sign, which is true for a minus, and digits. -/
structure Exponent where
  letter : Char
  sign : Option Bool
  digits : List Char
  letter_eq : letter = 'e' ∨ letter = 'E'
  digits_ne : digits ≠ []
  digits_all : ∀ c ∈ digits, c.isDigit = true

namespace Exponent

/-- A sign as it is written. -/
def signText : Option Bool → List Char
  | none => []
  | some true => ['-']
  | some false => ['+']

/-- The exponent as it is written. -/
def text (e : Exponent) : List Char := e.letter :: signText e.sign ++ e.digits

/-- The power of ten. -/
def value (e : Exponent) : Int :=
  if e.sign = some true then -(digitsValue e.digits : Int) else digitsValue e.digits

end Exponent

/-- The literal of a number.  Digits before the point begin with a zero only where it stands alone; without digits after
it there is no point. -/
structure Numeral where
  negative : Bool
  whole : List Char
  fraction : List Char
  exponent : Option Exponent
  whole_ne : whole ≠ []
  whole_all : ∀ c ∈ whole, c.isDigit = true
  whole_lead : whole.head? = some '0' → whole = ['0']
  fraction_all : ∀ c ∈ fraction, c.isDigit = true

namespace Numeral

/-- What a literal without a fraction has for its digits. -/
theorem no_digits : ∀ c ∈ ([] : List Char), c.isDigit = true := List.forall_mem_nil _

/-- The fraction as it is written. -/
def fractionText : List Char → List Char
  | [] => []
  | c :: rest => '.' :: c :: rest

/-- The exponent as it is written, if there is one. -/
def exponentText : Option Exponent → List Char
  | none => []
  | some e => e.text

/-- The literal without its sign. -/
def magnitudeText (n : Numeral) : List Char := n.whole ++ fractionText n.fraction ++ exponentText n.exponent

/-- The literal. -/
def text (n : Numeral) : List Char := (if n.negative then ['-'] else []) ++ n.magnitudeText

/-- Whether there is neither a fraction nor an exponent. -/
def isWhole (n : Numeral) : Bool := n.fraction.isEmpty && n.exponent.isNone

/-- The whole number that the digits before the point name. -/
def integer (n : Numeral) : Int := if n.negative then -(digitsValue n.whole : Int) else digitsValue n.whole

/-- The power of ten of the last digit. -/
def power (n : Numeral) : Int := (n.exponent.map Exponent.value).getD 0 - n.fraction.length

/-- The double nearest to the decimal number of the literal. -/
def floating (n : Numeral) : Floating := .ofDecimal n.negative (digitsValue (n.whole ++ n.fraction)) n.power

/-- What the literal is read as. -/
def datum (n : Numeral) : Datum := if n.isWhole then .int n.integer else .float n.floating

/-- The number that the literal denotes: a whole number of any size, or a double if it is finite. -/
def number? (n : Numeral) : Option Number :=
  if n.isWhole then some (.int n.integer)
  else match n.floating with
    | .finite d => some (.double d)
    | _ => none

/-- A literal with a fraction or an exponent denotes a finite double. -/
def IsFinite (n : Numeral) : Prop := n.isWhole = false → ∃ d, n.floating = .finite d

/-- The limit that the digits of a whole number exceed, if there is one. -/
def excess? (limit : Option Nat) (n : Numeral) : Option Nat :=
  if n.isWhole then exceeded? limit n.whole.length else none

/-- A whole number has no more digits than the limit allows. -/
def Within (limit : Option Nat) (n : Numeral) : Prop := n.excess? limit = none

theorem within_none (n : Numeral) : n.Within none := by
  rw [Within, excess?]
  split <;> rfl

end Numeral

/-! ## Strings -/

/-- The letters that may follow a backslash, and what they stand for. -/
def shortEscapes : List (Char × Char) :=
  [('"', '"'), ('\\', '\\'), ('/', '/'), ('b', '\x08'), ('f', '\x0c'), ('n', '\n'), ('r', '\r'), ('t', '\t')]

/-- Characters between quotes and the code units that they spell: a character from the space on but the quote and the
backslash spells itself, a letter after a backslash what it stands for, and four hexadecimal digits the unit that they
name. -/
inductive Spells : List Char → List Nat → Prop
  | nil : Spells [] []
  | plain {c : Char} {cs : List Char} {ns : List Nat} (printable : 0x20 ≤ c.toNat) (not_quote : c ≠ '"')
      (not_backslash : c ≠ '\\') : Spells cs ns → Spells (c :: cs) (c.toNat :: ns)
  | short {letter target : Char} {cs : List Char} {ns : List Nat} (escape : (letter, target) ∈ shortEscapes) :
      Spells cs ns → Spells ('\\' :: letter :: cs) (target.toNat :: ns)
  | unit {a b c d : Char} {n : Nat} {cs : List Char} {ns : List Nat} (digits : hexUnit? a b c d = some n) :
      Spells cs ns → Spells ('\\' :: 'u' :: a :: b :: c :: d :: cs) (n :: ns)

/-- A string with its quotes; two units that form a surrogate pair denote one character. -/
def DerivesString (cs : List Char) (s : String) : Prop :=
  ∃ spelling units, Spells spelling units ∧ cs = '"' :: spelling ++ ['"'] ∧ s = String.ofList (Text.charsOfUnits units)

/-! ## Values -/

/-- A syntax tree of JSON. -/
inductive Form where
  | null
  | bool (b : Bool)
  | numeral (n : Numeral)
  | text (s : String)
  | array (items : List Form)
  | object (members : List (String × Form))

/-- Only blanks. -/
def Blanks (cs : List Char) : Prop := ∀ c ∈ cs, isBlank c = true

mutual
/-- The characters of a value. -/
inductive Derives : List Char → Form → Prop
  | null : Derives ['n', 'u', 'l', 'l'] .null
  | true : Derives ['t', 'r', 'u', 'e'] (.bool true)
  | false : Derives ['f', 'a', 'l', 's', 'e'] (.bool false)
  | numeral (n : Numeral) : Derives n.text (.numeral n)
  | text {cs : List Char} {s : String} : DerivesString cs s → Derives cs (.text s)
  | emptyArray {ws : List Char} : Blanks ws → Derives ('[' :: ws ++ [']']) (.array [])
  | array {cs : List Char} {items : List Form} : DerivesItems cs items → Derives ('[' :: cs ++ [']']) (.array items)
  | emptyObject {ws : List Char} : Blanks ws → Derives ('\x7b' :: ws ++ ['\x7d']) (.object [])
  | object {cs : List Char} {members : List (String × Form)} :
      DerivesMembers cs members → Derives ('\x7b' :: cs ++ ['\x7d']) (.object members)

/-- The characters of a value with blanks around it. -/
inductive DerivesElement : List Char → Form → Prop
  | intro {before cs after : List Char} {f : Form} :
      Blanks before → Derives cs f → Blanks after → DerivesElement (before ++ cs ++ after) f

/-- The items of an array, at least one, with commas between them. -/
inductive DerivesItems : List Char → List Form → Prop
  | last {cs : List Char} {f : Form} : DerivesElement cs f → DerivesItems cs [f]
  | more {cs rest : List Char} {f : Form} {items : List Form} :
      DerivesElement cs f → DerivesItems rest items → DerivesItems (cs ++ ',' :: rest) (f :: items)

/-- A member of an object: a string with blanks around it, a colon, and an element. -/
inductive DerivesMember : List Char → String × Form → Prop
  | intro {before key after cs : List Char} {k : String} {f : Form} :
      Blanks before → DerivesString key k → Blanks after → DerivesElement cs f →
        DerivesMember (before ++ key ++ after ++ ':' :: cs) (k, f)

/-- The members of an object, at least one, with commas between them. -/
inductive DerivesMembers : List Char → List (String × Form) → Prop
  | last {cs : List Char} {m : String × Form} : DerivesMember cs m → DerivesMembers cs [m]
  | more {cs rest : List Char} {m : String × Form} {members : List (String × Form)} :
      DerivesMember cs m → DerivesMembers rest members → DerivesMembers (cs ++ ',' :: rest) (m :: members)
end

/-- A JSON text is one value with blanks around it. -/
def DerivesText (cs : List Char) (f : Form) : Prop := DerivesElement cs f

/-! ## What a tree denotes -/

namespace Form

mutual
/-- The literals of numbers, in order. -/
def literals : Form → List Numeral
  | .numeral n => [n]
  | .array items => literalsItems items
  | .object members => literalsMembers members
  | _ => []

/-- The literals of items. -/
def literalsItems : List Form → List Numeral
  | [] => []
  | item :: rest => literals item ++ literalsItems rest

/-- The literals of the values of members. -/
def literalsMembers : List (String × Form) → List Numeral
  | [] => []
  | (_, item) :: rest => literals item ++ literalsMembers rest
end

/-- No whole number of the tree, those of overwritten members included, has more digits than the limit allows. -/
def Within (limit : Option Nat) (f : Form) : Prop := ∀ n ∈ f.literals, n.Within limit

theorem within_none (f : Form) : f.Within none := fun n _ => n.within_none

mutual
/-- The tree in which no object repeats a key: of the members with one key the last stays, in the place of the first. -/
def pruned : Form → Form
  | .array items => .array (prunedItems items)
  | .object members => .object (Fields.ofList (prunedMembers members)).entries
  | f => f

/-- `pruned` for every item. -/
def prunedItems : List Form → List Form
  | [] => []
  | item :: rest => pruned item :: prunedItems rest

/-- `pruned` for the value of every member. -/
def prunedMembers : List (String × Form) → List (String × Form)
  | [] => []
  | (k, item) :: rest => (k, pruned item) :: prunedMembers rest
end

mutual
/-- The tree of values, if every literal denotes a number. -/
def json? : Form → Option Json
  | .null => some .null
  | .bool b => some (.bool b)
  | .numeral n => n.number?.map .number
  | .text s => some (.text s)
  | .array items => (jsonItems? items).map .array
  | .object members => (jsonMembers? members).map .object

/-- `json?` for every item. -/
def jsonItems? : List Form → Option (List Json)
  | [] => some []
  | item :: rest => match json? item, jsonItems? rest with
    | some j, some js => some (j :: js)
    | _, _ => none

/-- `json?` for the value of every member. -/
def jsonMembers? : List (String × Form) → Option (List (String × Json))
  | [] => some []
  | (k, item) :: rest => match json? item, jsonMembers? rest with
    | some j, some js => some ((k, j) :: js)
    | _, _ => none
end

mutual
/-- What a tree is read as. -/
def datum : Form → Datum
  | .null => .null
  | .bool b => .bool b
  | .numeral n => n.datum
  | .text s => .text s
  | .array items => .list (datumItems items)
  | .object members => .table (datumMembers members)

/-- `datum` for every item. -/
def datumItems : List Form → List Datum
  | [] => []
  | item :: rest => datum item :: datumItems rest

/-- `datum` for the value of every member. -/
def datumMembers : List (String × Form) → List (Datum × Datum)
  | [] => []
  | (k, item) :: rest => (.text k, datum item) :: datumMembers rest
end

end Form

end Stepflow.Json
