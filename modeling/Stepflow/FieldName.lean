import Stepflow.Value.Checked
import Stepflow.Text.LetterCase
import Stepflow.Text.Parts

/-!
# Stepflow.FieldName — the two spellings of a field name

Documents come with field names in camel case or in snake case.  `toSnake` puts an underscore at
every boundary, an ASCII capital after a lower case letter or digit or before a capital that starts
a word, and then lowers the whole name; `toCamel` joins the words between underscores, each but the
first in title case.  Records are decoded from fields with snake case names (`normalize`); payloads
are read by either spelling, snake case first (`find?`).
-/

namespace Stepflow.FieldName

/-- An ASCII capital. -/
def isCapital (c : Char) : Bool := 'A' ≤ c && c ≤ 'Z'

/-- An ASCII lower case letter. -/
def isSmall (c : Char) : Bool := 'a' ≤ c && c ≤ 'z'

/-- Whether a word begins at `c`, which follows `before` and is followed by `after`. -/
def isBoundary (before : Option Char) (c : Char) (after : List Char) : Bool :=
  match before with
  | none => false
  | some b =>
    isCapital c && (isSmall b || b.isDigit ||
      (isCapital b && (match after with | a :: _ => isSmall a | [] => false)))

/-- Put an underscore at every boundary of what follows `before`. -/
def separate (before : Option Char) : List Char → List Char
  | [] => []
  | c :: after =>
    if isBoundary before c after then '_' :: c :: separate (some c) after
    else c :: separate (some c) after

/-- Snake case of a list of characters. -/
def snakeChars (cs : List Char) : List Char := Text.lower (separate none cs)

/-- Snake case. -/
def toSnake (name : String) : String := String.ofList (snakeChars name.toList)

/-- Camel case of a list of characters. -/
def camelChars (cs : List Char) : List Char :=
  let (head, tail) := Text.parts '_' cs
  head ++ tail.flatMap Text.title

/-- Camel case. -/
def toCamel (name : String) : String := String.ofList (camelChars name.toList)

/-- Entries under the snake case spelling of their keys, written over `fields`. -/
def normalizeOver (fields : Fields Datum) : List (Datum × Datum) → Except Failure (Fields Datum)
  | [] => .ok fields
  | (.text k, item) :: rest => normalizeOver (fields.insert (toSnake k) item) rest
  | (k, _) :: _ => .error (.keyNotText k.typeName)

/-- Entries under the snake case spelling of their keys; of two keys with one spelling the first
gives the place and the last the value. -/
def normalize (entries : List (Datum × Datum)) : Except Failure (Fields Datum) :=
  normalizeOver Fields.empty entries

/-- The field under a name or, failing that, under its camel case spelling. -/
def find? (v : Value) (name : String) : Except Failure (Option Value) := do
  let fields ← v.asObject
  match fields.get? name with
  | some item => return some item
  | none => return fields.get? (toCamel name)

/-- The fields of a record: the normalized entries of a table, or of a value that is an object.
`what` names the record in the failure. -/
def ofRecord (what : String) : Datum → Except Failure (Fields Datum)
  | .table entries => normalize entries
  | .value v =>
    match v.json with
    | .object fields => normalize (Datum.ofFields fields)
    | _ => .error (.decode what (some v.kind.name) v.path)
  | d => .error (Failure.decodeAtRoot what d.typeName)

end Stepflow.FieldName
