import Stepflow.Datum.Key
import Stepflow.Proofs.Freezing

/-!
# Stepflow.Proofs.Routes — the nodes of a value and of plain data, and where they stand

A route is a list of places: the fields and items that lead from a node to one below it.

* `Value.path_of_at?`: the path of the node at the end of a route is the path of the root with the places written behind
  it, whatever is on the way.
* `Value.toDatum_at?`: there is a node at the end of a route in a value exactly if there is one in its plain data, and
  the plain data of the one is the other.
-/

namespace Stepflow

/-- A part of a node. -/
inductive Place where
  | field (key : String)
  | item (index : Nat)

/-- The path of a part of the node at `path`. -/
def Place.below (path : String) : Place → String
  | .field k => Value.fieldPath path k
  | .item i => Value.itemPath path i

/-- The path of the node to which a route leads. -/
def pathAlong (path : String) (route : List Place) : String := route.foldl Place.below path

theorem pathAlong_concat (path : String) (route : List Place) (place : Place) :
    pathAlong path (route ++ [place]) = place.below (pathAlong path route) := by
  rw [pathAlong, List.foldl_append]
  rfl

namespace Datum

/-- The part at a place, if there is one. -/
def child? : Datum → Place → Option Datum
  | .table entries, .field k => (entries.find? fun e => e.1.sameKey (.text k)).map Prod.snd
  | .list items, .item i => items[i]?
  | .tuple items, .item i => items[i]?
  | _, _ => none

/-- The part at the end of a route, if there is one. -/
def at? (d : Datum) : List Place → Option Datum
  | [] => some d
  | place :: route => (d.child? place).bind fun part => part.at? route

theorem sameKey_text (j k : String) : (Datum.text j).sameKey (.text k) = (j == k) := rfl

theorem ofItems_eq_map (items : List Json) : ofItems items = items.map ofJson := by
  induction items with
  | nil => rfl
  | cons item rest ih => rw [ofItems, ih, List.map_cons]

theorem ofFields_eq_map (fields : List (String × Json)) :
    ofFields fields = fields.map fun e => (.text e.1, ofJson e.2) := by
  induction fields with
  | nil => rfl
  | cons field rest ih => rw [ofFields, ih, List.map_cons]

/-- Among entries under texts an entry is found as among fields. -/
theorem find?_text {α : Type} (f : α → Datum) (es : List (String × α)) (k : String) :
    ((es.map fun e => (text e.1, f e.2)).find? fun e => e.1.sameKey (.text k)).map Prod.snd = (es.lookup k).map f := by
  induction es with
  | nil => rfl
  | cons e rest ih =>
    obtain ⟨j, a⟩ := e
    rw [List.map_cons, List.find?_cons, sameKey_text]
    by_cases here : j = k
    · simp [here]
    · have other : (j == k) = false := by simpa using here
      have other' : (k == j) = false := by simpa using Ne.symm here
      rw [other, List.lookup_cons, other', ih]

end Datum

namespace Value

/-- The part of a value at a place, if there is one. -/
def child? (v : Value) : Place → Option Value
  | .field k => v.fields?.bind fun fields => fields.get? k
  | .item i => v.items?.bind fun items => items[i]?

/-- The part of a value at the end of a route, if there is one. -/
def at? (v : Value) : List Place → Option Value
  | [] => some v
  | place :: route => (v.child? place).bind fun part => part.at? route

theorem getElem?_locateItems (path : String) (index : Nat) (items : List Json) (h : Json.DistinctItems items) (i : Nat)
    {w : Value} (found : (locateItems path index items h)[i]? = some w) : w.path = itemPath path (index + i) := by
  induction items generalizing index i with
  | nil => cases found
  | cons item rest ih =>
    cases i with
    | zero =>
      cases found
      rfl
    | succ i =>
      rw [ih (index + 1) h.2 i found, Nat.add_right_comm, Nat.add_assoc]

theorem lookup_locateFields (path : String) (fields : List (String × Json)) (h : Json.DistinctFields fields)
    (k : String) {w : Value} (found : (locateFields path fields h).lookup k = some w) : w.path = fieldPath path k := by
  induction fields with
  | nil => cases found
  | cons field rest ih =>
    obtain ⟨j, item⟩ := field
    rw [locateFields, List.lookup_cons] at found
    by_cases here : k = j
    · rw [here, beq_self_eq_true] at found
      cases found
      rw [here]
    · have other : (k == j) = false := by simpa using here
      rw [other] at found
      exact ih h.2 found

/-- The path of a part is the path of the whole with the place behind it. -/
theorem path_of_child? {v w : Value} {place : Place} (found : v.child? place = some w) :
    w.path = place.below v.path := by
  obtain ⟨path, j, distinct⟩ := v
  cases place with
  | field k => cases j with
    | object fields => exact lookup_locateFields path fields distinct.2 k found
    | _ => cases found
  | item i => cases j with
    | array items =>
      have place_eq := getElem?_locateItems path 0 items distinct i found
      rwa [Nat.zero_add] at place_eq
    | _ => cases found

/-- **A node knows its route.** -/
theorem path_of_at? {v w : Value} {route : List Place} (found : v.at? route = some w) :
    w.path = pathAlong v.path route := by
  induction route generalizing v with
  | nil =>
    cases found
    rfl
  | cons place route ih =>
    obtain ⟨part, here, below⟩ := Option.bind_eq_some_iff.mp found
    rw [ih below, path_of_child? here]
    rfl

/-- The plain data of an array are those of its items. -/
theorem toDatum_of_items? {v : Value} {items : List Value} (view : v.items? = some items) :
    v.toDatum = .list (items.map toDatum) := by
  rw [toDatum, json_of_items? view, Datum.ofJson, Datum.ofItems_eq_map, List.map_map]
  rfl

/-- The plain data of an object are those of its fields. -/
theorem toDatum_of_fields? {v : Value} {fields : Fields Value} (view : v.fields? = some fields) :
    v.toDatum = .table (fields.entries.map fun e => (.text e.1, e.2.toDatum)) := by
  rw [toDatum, json_of_fields? view, Datum.ofJson, Datum.ofFields_eq_map, Fields.map, List.map_map]
  rfl

theorem toDatum_child? (v : Value) (place : Place) : (v.child? place).map toDatum = v.toDatum.child? place := by
  cases place with
  | field k => cases view : v.fields? with
    | some fields =>
      rw [child?, view, toDatum_of_fields? view, Datum.child?, Datum.find?_text]
      rfl
    | none =>
      obtain ⟨path, j, distinct⟩ := v
      cases j with
      | object => cases view
      | number n => cases n <;> rfl
      | _ => rfl
  | item i => cases view : v.items? with
    | some items =>
      rw [child?, view, toDatum_of_items? view, Datum.child?, List.getElem?_map]
      rfl
    | none =>
      obtain ⟨path, j, distinct⟩ := v
      cases j with
      | array => cases view
      | number n => cases n <;> rfl
      | _ => rfl

/-- **A value has the nodes that its plain data have.** -/
theorem toDatum_at? (v : Value) (route : List Place) : (v.at? route).map toDatum = v.toDatum.at? route := by
  induction route generalizing v with
  | nil => rfl
  | cons place route ih =>
    rw [at?, Datum.at?, ← toDatum_child?]
    cases v.child? place with
    | none => rfl
    | some part => exact ih part

end Value

end Stepflow
