import Stepflow.Datum.Items
import Stepflow.Json.Reader
import Stepflow.Number.Reader

/-!
# Stepflow.Datum.Marked — writing data of the host as a document

A document has no bytes, sets, opaque objects or tables with arbitrary keys.  It writes them as
objects with one field whose name is a mark: `ofMarked` reads the document and puts in the data
that the marks stand for, the inner ones first.
-/

namespace Stepflow.Datum

/-! ### Scalars -/

/-- A number as floating-point data, or the number that a text names. -/
def floatOf : Datum → Except Failure Datum
  | .float x => .ok (.float x)
  | .text s =>
    match Floating.read? s.toList with
    | some x => .ok (.float x)
    | none => .error (.outside .value ("could not convert string to float: " ++ Text.quoted s))
  | .int n =>
    match Floating.ofInt? n with
    | some d => .ok (.float (.finite d))
    | none => .error .tooLarge
  | .bool b => .ok (.float (.ofRatio false (if b then 1 else 0) 1))
  | d => .error (.outside .type
      ("float() argument must be a string or a real number, not '" ++ d.typeName ++ "'"))

/-- The bytes that pairs of hexadecimal digits name, blanks between the pairs aside; `position` is
the number of characters before.  The failure tells where a digit was wanted. -/
def bytesFrom (position : Nat) : List Char → Except Nat (List UInt8)
  | [] => .ok []
  | a :: rest =>
    if Text.isPlainBlank a then bytesFrom (position + 1) rest
    else match Text.hexValue? a, rest with
      | none, _ => .error position
      | some _, [] => .error (position + 1)
      | some x, b :: rest =>
        match Text.hexValue? b with
        | none => .error (position + 1)
        | some y => (bytesFrom (position + 2) rest).map (UInt8.ofNat (x * 16 + y) :: ·)

/-- The bytes that characters name; one beyond ASCII is found before anything else. -/
def bytesNamed (cs : List Char) : Except Nat (List UInt8) :=
  let plain := cs.takeWhile (·.toNat < 0x80)
  if plain.length < cs.length then .error plain.length else bytesFrom 0 cs

/-- The bytes that a text names. -/
def bytesOf : Datum → Except Failure (List UInt8)
  | .text s =>
    match bytesNamed s.toList with
    | .ok bs => .ok bs
    | .error position => .error (.outside .value
        ("non-hexadecimal number found in fromhex() arg at position " ++ toString position))
  | .null => .error (.outside .type "fromhex() argument must be str, not None")
  | d => .error (.outside .type ("fromhex() argument must be str, not " ++ d.typeName))

/-- The bytes of a text. -/
def encodedOf : Datum → Except Failure (List UInt8)
  | .text s => .ok (Text.encodeUtf8 s.toList)
  | d => .error (.noMember d.typeName "encode")

/-- The value that a text or bytes hold. -/
def valueOf : Datum → Except Failure Value
  | .text s => Value.ofText s Json.digitLimit
  | .bytes bs | .buffer bs => Value.ofBytes bs Json.digitLimit
  | d => .error (.outside .type
      ("the JSON object must be str, bytes or bytearray, not " ++ d.typeName))

/-! ### Documents -/

mutual
/-- The data that a document stands for. -/
def ofMarked : Datum → Except Failure Datum
  | .list items => (ofMarkedItems items).map .list
  | .table [(.text key, d)] =>
    match key with
    | "$float" => floatOf d
    | "$bytes" => (bytesOf d).map .bytes
    | "$bytearray" => (bytesOf d).map .buffer
    | "$tuple" => (ofMarkedParts d).map .tuple
    | "$set" => (ofMarkedMembers [] d).map (.set ∘ membersInOrder)
    | "$map" => (ofMarkedPairs [] d).map .table
    | "$object" => .ok .handle
    | "$dv" => do return .value (← Value.ofDatum Value.rootPath (← ofMarked d))
    | "$json" => do return .value (← d.valueOf)
    | _ => do return .table [(.text key, ← ofMarked d)]
  | .table entries => (ofMarkedEntries entries).map .table
  | d => .ok d

/-- `ofMarked` for every item. -/
def ofMarkedItems : List Datum → Except Failure (List Datum)
  | [] => .ok []
  | item :: rest => do
    let item ← ofMarked item
    return item :: (← ofMarkedItems rest)

/-- `ofMarked` for the item of every entry. -/
def ofMarkedEntries : List (Datum × Datum) → Except Failure (List (Datum × Datum))
  | [] => .ok []
  | (k, item) :: rest => do
    let item ← ofMarked item
    return (k, item) :: (← ofMarkedEntries rest)

/-- The items of a document that are to be parts. -/
def ofMarkedParts : Datum → Except Failure (List Datum)
  | .list items => ofMarkedItems items
  | d => d.allItems

/-- The items of a document that are to be members, put into a set one after another. -/
def ofMarkedMembers (members : List Datum) : Datum → Except Failure (List Datum)
  | .list items => adjoinMarked members items
  | d => do return (← d.allItems).foldl (fun ms m => adjoin m ms) members

/-- Put items into a set. -/
def adjoinMarked (members : List Datum) : List Datum → Except Failure (List Datum)
  | [] => .ok members
  | item :: rest => do
    let item ← (← ofMarked item).asKey
    adjoinMarked (adjoin item members) rest

/-- The items of a document that are to be entries, written one after another. -/
def ofMarkedPairs (entries : List (Datum × Datum)) : Datum → Except Failure (List (Datum × Datum))
  | .list pairs => assignMarked entries pairs
  | d => do (← d.allItems).foldlM (fun es item => do
      let (k, v) ← item.pairOf
      return assign k v es) entries

/-- Write pairs over entries. -/
def assignMarked (entries : List (Datum × Datum)) :
    List Datum → Except Failure (List (Datum × Datum))
  | [] => .ok entries
  | .list [k, v] :: rest => do
    let k ← ofMarked k
    let v ← ofMarked v
    assignMarked (assign (← k.asKey) v entries) rest
  | item :: rest => do
    let (k, v) ← item.pairOf
    assignMarked (assign k v entries) rest
end

end Stepflow.Datum
