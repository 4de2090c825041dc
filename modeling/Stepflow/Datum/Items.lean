import Stepflow.Datum.Key

/-!
# Stepflow.Datum.Items — going through data item by item

Sequences, sets, texts, bytes, tables and values can be gone through; `itemsOf` gives the items and
the failure that ends going through them, if one does.  A table can be made from the items of a
datum, each of which has to be a key and a value.  `partAt` reaches for one part by its position.
-/

namespace Stepflow.Datum

/-- The items of a datum in order, and the failure that ends going through them, if one does.  A
text has its characters as items, a table its keys; the items of a value are its items as values,
and going past the last of them is the failure of an index out of range. -/
def itemsOf : Datum → Except Failure (List Datum × Option Failure)
  | .list items | .tuple items | .set items => .ok (items, none)
  | .text s => .ok (s.toList.map (fun c => .text (String.singleton c)), none)
  | .bytes bs | .buffer bs => .ok (bs.map (fun b => .int b.toNat), none)
  | .table entries => .ok (entries.map Prod.fst, none)
  | .value v =>
    match v.items? with
    | some items =>
      .ok (items.map .value,
        match v.item items.length with
        | .ok _ => none
        | .error f => some f)
    | none => .ok ([], some (v.mismatch .array))
  | d => .error (.notIterable d.typeName)

/-- All items of a datum. -/
def allItems (d : Datum) : Except Failure (List Datum) := do
  match ← d.itemsOf with
  | (items, none) => return items
  | (_, some f) => throw f

/-- The two parts of a datum that has just two. -/
def pairOf (d : Datum) : Except Failure (Datum × Datum) :=
  match d.itemsOf with
  | .error _ => .error (.outside .type ("cannot unpack non-iterable " ++ d.typeName ++ " object"))
  | .ok ([a, b], none) => .ok (a, b)
  | .ok (parts, trouble) =>
    if 2 < parts.length then .error (.outside .value "too many values to unpack (expected 2)")
    else .error (trouble.getD (.outside .value
      ("not enough values to unpack (expected 2, got " ++ toString parts.length ++ ")")))

/-- The part of a datum under a position: a sequence counts its items from zero, a table takes the
position as a key. -/
def partAt (position : Nat) : Datum → Except Failure Datum
  | .value v => (v.item position).map .value
  | .table entries =>
    match entries.find? (fun e => e.1.sameKey (.int position)) with
    | some e => .ok e.2
    | none => .error (.outside .key (toString position))
  | .list items => orBeyond (Datum.list items).typeName items[position]?
  | .tuple items => orBeyond (Datum.tuple items).typeName items[position]?
  | .text s => orBeyond "string" (s.toList[position]?.map (fun c => .text (String.singleton c)))
  | .bytes bs => orBeyond "" (bs[position]?.map (fun b => .int b.toNat))
  | .buffer bs => orBeyond (Datum.buffer bs).typeName (bs[position]?.map (fun b => .int b.toNat))
  | d => .error (.notSubscriptable d.typeName)
where
  /-- A part that is there, or the failure of a position beyond the end. -/
  orBeyond (what : String) : Option Datum → Except Failure Datum
    | some d => .ok d
    | none => .error (.outside .index
        ((if what.isEmpty then "" else what ++ " ") ++ "index out of range"))

/-- The key and the value that an item stands for; `index` is its position. -/
def entryOf (index : Nat) (item : Datum) : Except Failure (Datum × Datum) :=
  let place := "dictionary update sequence element #" ++ toString index
  match item.itemsOf with
  | .error _ => .error (.outside .type ("cannot convert " ++ place ++ " to a sequence"))
  | .ok (_, some f) => .error f
  | .ok ([k, d], none) => .ok (k, d)
  | .ok (parts, none) =>
    .error (.outside .value
      (place ++ " has length " ++ toString parts.length ++ "; 2 is required"))

/-- Write items as entries over entries, the first of them at position `index`. -/
def entriesFrom (index : Nat) (entries : List (Datum × Datum)) :
    List Datum → Except Failure (List (Datum × Datum))
  | [] => .ok entries
  | item :: rest => do
    let (k, d) ← entryOf index item
    entriesFrom (index + 1) (assign (← k.asKey) d entries) rest

/-- The entries that a table made from a datum has. -/
def entriesOf : Datum → Except Failure (List (Datum × Datum))
  | .table entries => .ok entries
  | d => do
    let (items, trouble) ← d.itemsOf
    let entries ← entriesFrom 0 [] items
    match trouble with
    | some f => throw f
    | none => return entries

end Stepflow.Datum
