import Mathlib.Data.List.Forall2
import Stepflow.Proofs.Nodes

/-!
# Stepflow.Proofs.Construction — what is accepted as a value, and what is blamed

`Datum.visits` lists what there is to check in data, depth first and from left to right: every node, and every key of a
table before the item under it.

* `Value.failure?_ofDatum`: data is refused for the first of these that does not fit, with its path.
* `Value.toDatum_of_ofDatum`: what is accepted has the plain data that was handed over, tuples as lists.
* `State.freezeEntries_eq_ok_iff`: a state is checked entry by entry, and keeps values as they are.
* `Value.construction`: all of this, and that every node of what is accepted stands where its route leads, and is stored
  with the path to there.
-/

namespace Stepflow

namespace Datum

/-! ## Plain data -/

mutual
/-- The data with the values in it as plain data. -/
def unwrapped : Datum → Datum
  | .list items => .list (unwrappedItems items)
  | .tuple items => .tuple (unwrappedItems items)
  | .table entries => .table (unwrappedEntries entries)
  | .value v => v.toDatum
  | d => d

/-- `unwrapped` for every item. -/
def unwrappedItems : List Datum → List Datum
  | [] => []
  | item :: rest => unwrapped item :: unwrappedItems rest

/-- `unwrapped` for the item of every entry. -/
def unwrappedEntries : List (Datum × Datum) → List (Datum × Datum)
  | [] => []
  | (k, item) :: rest => (k, unwrapped item) :: unwrappedEntries rest
end

mutual
/-- The data with tuples as lists. -/
def listed : Datum → Datum
  | .list items => .list (listedItems items)
  | .tuple items => .list (listedItems items)
  | .table entries => .table (listedEntries entries)
  | d => d

/-- `listed` for every item. -/
def listedItems : List Datum → List Datum
  | [] => []
  | item :: rest => listed item :: listedItems rest

/-- `listed` for the item of every entry. -/
def listedEntries : List (Datum × Datum) → List (Datum × Datum)
  | [] => []
  | (k, item) :: rest => (k, listed item) :: listedEntries rest
end

mutual
/-- No table of the data repeats a key. -/
def Distinct : Datum → Prop
  | .list items => DistinctItems items
  | .tuple items => DistinctItems items
  | .table entries => entries.Pairwise (fun e f => e.1.sameKey f.1 = false) ∧ DistinctEntries entries
  | _ => True

/-- `Distinct` for every item. -/
def DistinctItems : List Datum → Prop
  | [] => True
  | item :: rest => Distinct item ∧ DistinctItems rest

/-- `Distinct` for the item of every entry. -/
def DistinctEntries : List (Datum × Datum) → Prop
  | [] => True
  | (_, item) :: rest => Distinct item ∧ DistinctEntries rest
end

/-! ## Visits -/

/-- What is checked: a node, or a key of the table, at the end of a route. -/
inductive Visit where
  | node (route : List Place) (d : Datum)
  | key (route : List Place) (k : Datum)

/-- Whether JSON has such nodes and keys. -/
def Visit.fits : Visit → Bool
  | .node _ (.float (.finite _)) => true
  | .node _ (.float _) => false
  | .node _ (.bytes _) => false
  | .node _ (.buffer _) => false
  | .node _ (.set _) => false
  | .node _ .handle => false
  | .node _ _ => true
  | .key _ (.text _) => true
  | .key _ _ => false

/-- The failure for what does not fit, in data at `path`. -/
def Visit.blame (path : String) : Visit → Failure
  | .node route (.float x) => .decode "finite number" (some x.text) (pathAlong path route)
  | .node route d => .decode "JSON value" (some d.typeName) (pathAlong path route)
  | .key route k => .decode "string key" (some k.typeName) (pathAlong path route)

mutual
/-- What there is to check in the data at the end of a route, depth first and from left to right. -/
def visits (route : List Place) : Datum → List Visit
  | .list items => .node route (.list items) :: visitsOfItems route 0 items
  | .tuple items => .node route (.tuple items) :: visitsOfItems route 0 items
  | .table entries => .node route (.table entries) :: visitsOfEntries route entries
  | d => [.node route d]

/-- `visits` of every item, the first of them at position `index`. -/
def visitsOfItems (route : List Place) (index : Nat) : List Datum → List Visit
  | [] => []
  | item :: rest => visits (route ++ [.item index]) item ++ visitsOfItems route (index + 1) rest

/-- Every key, and then the `visits` of the item under it. -/
def visitsOfEntries (route : List Place) : List (Datum × Datum) → List Visit
  | [] => []
  | (k, item) :: rest => .key route k :: (visits (route ++ [.field k.shown]) item ++ visitsOfEntries route rest)
end

/-- The failure for the first visit that does not fit. -/
def firstBlame (path : String) (visits : List Visit) : Option Failure :=
  (visits.find? fun visit => !visit.fits).map (Visit.blame path)

theorem firstBlame_cons_of_fits {path : String} {visit : Visit} (fits : visit.fits = true) (rest : List Visit) :
    firstBlame path (visit :: rest) = firstBlame path rest := by
  rw [firstBlame, List.find?_cons, fits]
  rfl

theorem firstBlame_append (path : String) (visits others : List Visit) :
    firstBlame path (visits ++ others) = (firstBlame path visits).or (firstBlame path others) := by
  rw [firstBlame, List.find?_append, Option.map_or]
  rfl

theorem firstBlame_eq_none_iff {path : String} {visits : List Visit} :
    firstBlame path visits = none ↔ ∀ visit ∈ visits, visit.fits = true := by
  simp [firstBlame]

theorem firstBlame_eq_some_iff {path : String} {visits : List Visit} {f : Failure} :
    firstBlame path visits = some f ↔ ∃ before visit after, visits = before ++ visit :: after ∧
      (∀ earlier ∈ before, earlier.fits = true) ∧ visit.fits = false ∧ f = visit.blame path := by
  rw [firstBlame, Option.map_eq_some_iff]
  constructor
  · rintro ⟨visit, found, rfl⟩
    obtain ⟨unfit, before, after, rfl, earlier⟩ := List.find?_eq_some_iff_append.mp found
    exact ⟨before, visit, after, rfl, by simpa using earlier, by simpa using unfit, rfl⟩
  · rintro ⟨before, visit, after, rfl, earlier, unfit, rfl⟩
    exact ⟨visit, List.find?_eq_some_iff_append.mpr
      ⟨by simpa using unfit, before, after, rfl, by simpa using earlier⟩, rfl⟩

end Datum

/-! ## Failures -/

/-- The failure of a computation, if it fails. -/
def failure? {α : Type} : Except Failure α → Option Failure
  | .ok _ => none
  | .error f => some f

theorem failure?_eq_some_iff {α : Type} {x : Except Failure α} {f : Failure} : failure? x = some f ↔ x = .error f := by
  cases x <;> simp [failure?]

theorem failure?_eq_none_iff {α : Type} {x : Except Failure α} : failure? x = none ↔ ∃ a, x = .ok a := by
  cases x <;> simp [failure?]

theorem failure?_map {α β : Type} (f : α → β) (x : Except Failure α) : failure? (x.map f) = failure? x := by
  cases x <;> rfl

namespace Value

open Datum (Visit firstBlame visits visitsOfItems visitsOfEntries)

mutual

/-- Values in the data are checked as their plain data are. -/
theorem ofDatum_unwrapped (path : String) (d : Datum) : ofDatum path d.unwrapped = ofDatum path d := by
  cases d with
  | list items | tuple items => rw [Datum.unwrapped, ofDatum, ofDatum, ofItems_unwrapped]
  | table entries => rw [Datum.unwrapped, ofDatum, ofDatum, ofEntries_unwrapped]
  | value v => exact ofDatum_toDatum path v
  | _ => rfl

theorem ofItems_unwrapped (path : String) (index : Nat) (items : List Datum) :
    ofItems path index (Datum.unwrappedItems items) = ofItems path index items := by
  cases items with
  | nil => rfl
  | cons item rest => rw [Datum.unwrappedItems, ofItems, ofItems, ofDatum_unwrapped, ofItems_unwrapped]

theorem ofEntries_unwrapped (path : String) (fields : Fields Value) (entries : List (Datum × Datum)) :
    ofEntries path fields (Datum.unwrappedEntries entries) = ofEntries path fields entries := by
  cases entries with
  | nil => rfl
  | cons entry rest =>
    obtain ⟨key, item⟩ := entry
    cases key with
    | text k =>
      rw [Datum.unwrappedEntries, ofEntries, ofEntries, ofDatum_unwrapped]
      cases ofDatum (fieldPath path k) item with
      | error _ => rfl
      | ok v => exact ofEntries_unwrapped path _ rest
    | _ => rfl

end

mutual

/-- **Data is refused for the first thing in it that does not fit.** -/
theorem failure?_ofDatum (path : String) (route : List Place) (d : Datum) :
    failure? (ofDatum (pathAlong path route) d) = firstBlame path (d.visits route) := by
  cases d with
  | float x => cases x <;> rfl
  | list items | tuple items =>
    rw [ofDatum, failure?_map, failure?_ofItems, visits, Datum.firstBlame_cons_of_fits rfl]
  | table entries =>
    rw [ofDatum, failure?_map, failure?_ofEntries, visits, Datum.firstBlame_cons_of_fits rfl]
  | _ => rfl

theorem failure?_ofItems (path : String) (route : List Place) (index : Nat) (items : List Datum) :
    failure? (ofItems (pathAlong path route) index items) = firstBlame path (visitsOfItems route index items) := by
  cases items with
  | nil => rfl
  | cons item rest =>
    have first := failure?_ofDatum path (route ++ [.item index]) item
    have others := failure?_ofItems path route (index + 1) rest
    rw [pathAlong_concat, Place.below] at first
    rw [visitsOfItems, Datum.firstBlame_append, ← first, ← others, ofItems]
    cases ofDatum (itemPath (pathAlong path route) index) item with
    | error _ => rfl
    | ok _ => cases ofItems (pathAlong path route) (index + 1) rest <;> rfl

theorem failure?_ofEntries (path : String) (route : List Place) (fields : Fields Value)
    (entries : List (Datum × Datum)) :
    failure? (ofEntries (pathAlong path route) fields entries) = firstBlame path (visitsOfEntries route entries) := by
  cases entries with
  | nil => rfl
  | cons entry rest =>
    obtain ⟨key, item⟩ := entry
    cases key with
    | text k =>
      have first := failure?_ofDatum path (route ++ [.field k]) item
      rw [pathAlong_concat, Place.below] at first
      rw [visitsOfEntries, Datum.firstBlame_cons_of_fits rfl, Datum.firstBlame_append]
      change _ = (firstBlame path (item.visits (route ++ [.field k]))).or _
      rw [← first, ofEntries]
      cases ofDatum (fieldPath (pathAlong path route) k) item with
      | error _ => rfl
      | ok v => exact failure?_ofEntries path route (fields.insert k v) rest
    | _ => rfl

end

/-! ## What is accepted -/

/-- An entry that is accepted as a field of the node at `path`. -/
def AcceptsEntry (path : String) (entry : Datum × Datum) (field : String × Value) : Prop :=
  entry.1 = .text field.1 ∧ ofDatum (fieldPath path field.1) entry.2 = .ok field.2

theorem exists_of_ofEntries {path : String} {fields all : Fields Value} {entries : List (Datum × Datum)}
    (accepted : ofEntries path fields entries = .ok all) :
    ∃ es, List.Forall₂ (AcceptsEntry path) entries es ∧ all = fields.insertAll es := by
  induction entries generalizing fields with
  | nil =>
    cases accepted
    exact ⟨[], .nil, rfl⟩
  | cons entry rest ih =>
    obtain ⟨key, item⟩ := entry
    cases key with
    | text k =>
      rw [ofEntries] at accepted
      split at accepted
      · cases accepted
      · rename_i v first
        obtain ⟨es, others, rfl⟩ := ih accepted
        exact ⟨(k, v) :: es, .cons ⟨rfl, first⟩ others, rfl⟩
    | _ => cases accepted

theorem keys_of_accepts {path : String} {entries : List (Datum × Datum)} {es : List (String × Value)}
    (accepts : List.Forall₂ (AcceptsEntry path) entries es) :
    entries.map Prod.fst = es.map fun e => .text e.1 := by
  induction accepts with
  | nil => rfl
  | cons first _ ih => rw [List.map_cons, List.map_cons, ih, first.1]

/-- Entries under different keys become fields under different keys. -/
theorem nodup_of_accepts {path : String} {entries : List (Datum × Datum)} {es : List (String × Value)}
    (accepts : List.Forall₂ (AcceptsEntry path) entries es)
    (distinct : entries.Pairwise fun e f => e.1.sameKey f.1 = false) : (es.map Prod.fst).Nodup := by
  have keys : (entries.map Prod.fst).Pairwise fun j k => j.sameKey k = false := List.pairwise_map.mpr distinct
  rw [keys_of_accepts accepts, List.pairwise_map] at keys
  exact List.pairwise_map.mpr (keys.imp fun differ => beq_eq_false_iff_ne.mp differ)

end Value

namespace Datum

mutual

theorem listed_ofJson (j : Json) : (ofJson j).listed = ofJson j := by
  cases j with
  | number n => cases n <;> rfl
  | array items => rw [ofJson, listed, listedItems_ofItems]
  | object fields => rw [ofJson, listed, listedEntries_ofFields]
  | _ => rfl

theorem listedItems_ofItems (items : List Json) : listedItems (ofItems items) = ofItems items := by
  cases items with
  | nil => rfl
  | cons item rest => rw [ofItems, listedItems, listed_ofJson, listedItems_ofItems]

theorem listedEntries_ofFields (fields : List (String × Json)) : listedEntries (ofFields fields) = ofFields fields := by
  cases fields with
  | nil => rfl
  | cons field rest =>
    obtain ⟨k, item⟩ := field
    rw [ofFields, listedEntries, listed_ofJson, listedEntries_ofFields]

end

end Datum

namespace Value

open Datum (Visit firstBlame visits visitsOfItems visitsOfEntries)

mutual

/-- **What is accepted has the plain data that was handed over**, tuples as lists. -/
theorem toDatum_of_ofDatum {path : String} {d : Datum} {v : Value} (accepted : ofDatum path d = .ok v)
    (distinct : d.Distinct) : v.toDatum = d.unwrapped.listed := by
  cases d with
  | float x =>
    cases x with
    | finite d =>
      cases accepted
      rfl
    | _ => cases accepted
  | list items | tuple items =>
    obtain ⟨vs, items_ok, rfl⟩ := map_eq_ok accepted
    exact congrArg Datum.list (toDatum_of_ofItems items_ok distinct)
  | table entries =>
    obtain ⟨all, entries_ok, rfl⟩ := map_eq_ok accepted
    obtain ⟨es, accepts, rfl⟩ := exists_of_ofEntries entries_ok
    -- keys that were distinct stay so, so no entry is lost in the fields
    have entries_eq := Fields.entries_ofList (nodup_of_accepts accepts distinct.1)
    refine congrArg Datum.table (Eq.trans ?_ (toDatum_of_accepts accepts distinct.2))
    change Datum.ofFields ((Fields.ofList es).entries.map _) = _
    rw [entries_eq]
  | value w =>
    cases accepted
    exact (Datum.listed_ofJson w.json).symm
  | bytes _ | buffer _ | set _ | handle => cases accepted
  | _ =>
    cases accepted
    rfl

theorem toDatum_of_ofItems {path : String} {index : Nat} {items : List Datum} {vs : List Value}
    (accepted : ofItems path index items = .ok vs) (distinct : Datum.DistinctItems items) :
    Datum.ofItems (vs.map json) = Datum.listedItems (Datum.unwrappedItems items) := by
  cases items with
  | nil =>
    cases accepted
    rfl
  | cons item rest =>
    rw [ofItems] at accepted
    split at accepted
    · cases accepted
    · rename_i v first
      split at accepted
      · cases accepted
      · rename_i vs others
        cases accepted
        have head : Datum.ofJson v.json = item.unwrapped.listed := toDatum_of_ofDatum first distinct.1
        rw [List.map_cons, Datum.ofItems, head, toDatum_of_ofItems others distinct.2]
        rfl

theorem toDatum_of_accepts {path : String} {entries : List (Datum × Datum)} {es : List (String × Value)}
    (accepts : List.Forall₂ (AcceptsEntry path) entries es) (distinct : Datum.DistinctEntries entries) :
    Datum.ofFields (es.map fun e => (e.1, e.2.json)) = Datum.listedEntries (Datum.unwrappedEntries entries) := by
  cases entries with
  | nil =>
    cases accepts
    rfl
  | cons entry rest =>
    obtain ⟨key, item⟩ := entry
    obtain _ | ⟨⟨rfl, first⟩, others⟩ := accepts
    rename_i e es
    have head : Datum.ofJson e.2.json = item.unwrapped.listed := toDatum_of_ofDatum first distinct.1
    rw [List.map_cons, Datum.ofFields, head, toDatum_of_accepts others distinct.2]
    rfl

end

end Value

/-! ## States -/

namespace State

/-- The value of a field of a state: a value stays as it is, other data is checked at the path of its key below the
root. -/
def kept (k : String) : Datum → Except Failure Value
  | .value v => .ok v
  | d => Value.ofDatum (Value.fieldPath Value.rootPath k) d

/-- An entry that becomes a field of a state. -/
def Keeps (entry : Datum × Datum) (field : String × Value) : Prop :=
  entry.1 = .text field.1 ∧ kept field.1 entry.2 = .ok field.2

theorem failure?_kept (k : String) (d : Datum) :
    failure? (kept k d) = failure? (Value.ofDatum (Value.fieldPath Value.rootPath k) d) := by
  cases d <;> rfl

theorem freezeEntries_cons (state : State) (k : String) (d : Datum) (rest : List (Datum × Datum)) :
    freezeEntries state ((.text k, d) :: rest) = kept k d >>= fun v => freezeEntries (state.insert k v) rest := by
  cases d with
  | value v => rfl
  | _ =>
    simp only [freezeEntries, kept]
    split <;> rename_i outcome <;> rw [outcome] <;> rfl

/-- A state is refused for what a value would be refused for, at the root. -/
theorem failure?_freezeEntries (state : State) (fields : Fields Value) (entries : List (Datum × Datum)) :
    failure? (freezeEntries state entries) = failure? (Value.ofEntries Value.rootPath fields entries) := by
  -- the fields kept so far do not bear on what is refused
  induction entries generalizing state fields with
  | nil => rfl
  | cons entry rest ih =>
    obtain ⟨key, d⟩ := entry
    cases key with
    | text k =>
      have first := failure?_kept k d
      rw [freezeEntries_cons, Value.ofEntries]
      cases checked : Value.ofDatum (Value.fieldPath Value.rootPath k) d with
      | error f =>
        rw [checked] at first
        rw [failure?_eq_some_iff.mp first]
        rfl
      | ok v =>
        rw [checked] at first
        obtain ⟨w, kept⟩ := failure?_eq_none_iff.mp first
        rw [kept]
        exact ih _ _
    | _ => rfl

/-- **A state is checked entry by entry.** -/
theorem freezeEntries_eq_ok_iff {state s : State} {entries : List (Datum × Datum)} :
    freezeEntries state entries = .ok s ↔ ∃ es, List.Forall₂ Keeps entries es ∧ s = state.insertAll es := by
  induction entries generalizing state with
  | nil =>
    constructor
    · rintro ⟨⟩
      exact ⟨[], .nil, rfl⟩
    · rintro ⟨_, ⟨⟩, rfl⟩
      rfl
  | cons entry rest ih =>
    obtain ⟨key, d⟩ := entry
    constructor
    · intro frozen
      cases key with
      | text k =>
        rw [freezeEntries_cons] at frozen
        obtain ⟨v, first, others⟩ := bind_eq_ok frozen
        obtain ⟨es, rest_kept, rfl⟩ := ih.mp others
        exact ⟨(k, v) :: es, .cons ⟨rfl, first⟩ rest_kept, rfl⟩
      | _ => cases frozen
    · rintro ⟨_, keeps, rfl⟩
      cases keeps with
      | @cons _ field _ es first others =>
        obtain ⟨key_eq, first⟩ := first
        rw [show key = .text field.1 from key_eq, freezeEntries_cons, first]
        exact ih.mpr ⟨es, others, rfl⟩

end State

/-! ## Construction -/

/-- Data is accepted as a value exactly if every node of it, those of values in it included, is one of JSON, and every
key of a table a text; else it is refused for the first that is not, with its path.  What is accepted has the plain data
that was handed over, tuples as lists; these are accepted again, at any path, as an equal value; and every node of it
stands at the path of the root with its route behind it.  So it does where the path is stored in every node when the node
is built: the nodes are those that the value shows, and of a value inside the data, whatever its paths were, only the
plain data go into them.  A table is accepted as a state under the same conditions as a value at the root; every entry is
a field, and values stay as they are. -/
theorem Value.construction :
    (∀ path d, (∃ v, ofDatum path d = .ok v) ↔ ∀ visit ∈ d.unwrapped.visits [], visit.fits = true) ∧
    (∀ path d f, ofDatum path d = .error f ↔ ∃ before visit after,
      d.unwrapped.visits [] = before ++ visit :: after ∧ (∀ earlier ∈ before, earlier.fits = true) ∧
        visit.fits = false ∧ f = visit.blame path) ∧
    (∀ path d v, ofDatum path d = .ok v →
      (d.Distinct → v.toDatum = d.unwrapped.listed) ∧ (∀ p, ∃ w, ofDatum p v.toDatum = .ok w ∧ w.same v = true) ∧
        ∀ route, (v.at? route).map toDatum = v.toDatum.at? route ∧
          ∀ w, v.at? route = some w → w.path = pathAlong path route) ∧
    (∀ path d, Node.ofDatum path d = (ofDatum path d).map nodes) ∧
    (∀ (v : Value) route, v.nodes.at? route = (v.at? route).map nodes) ∧
    (∀ path d n, Node.ofDatum path d = .ok n →
      (∀ p, Node.ofDatum p (Datum.ofJson n.plain) = .ok (.build p n.plain)) ∧
        ∀ route m, n.at? route = some m → m.path = pathAlong path route) ∧
    (∀ path v, Node.ofDatum path (.value v) = Node.ofDatum path v.toDatum) ∧
    (∀ d : Datum, d.isVacant = true → State.freeze d = .ok .empty) ∧
    (∀ entries f, State.freeze (.table entries) = .error f ↔ ofDatum rootPath (.table entries) = .error f) ∧
    ∀ entries s, State.freeze (.table entries) = .ok s ↔
      ∃ es, List.Forall₂ State.Keeps entries es ∧ s = .ofList es := by
  have blamed : ∀ path d, failure? (ofDatum path d) = Datum.firstBlame path (d.unwrapped.visits []) := by
    intro path d
    rw [← failure?_ofDatum, ofDatum_unwrapped]
    rfl
  have frozen : ∀ entries, State.freeze (.table entries) = State.freezeEntries .empty entries := by
    intro entries
    cases entries <;> rfl
  refine ⟨fun path d => ?_, fun path d f => ?_, fun path d v accepted => ⟨toDatum_of_ofDatum accepted, ?_, ?_⟩,
    Node.ofDatum_eq, nodes_at?, fun path d n built => ⟨Node.ofDatum_plain built, fun _ _ => Node.path_of_at? built⟩,
    Node.ofDatum_value, fun _ vacant => if_pos vacant, fun entries f => ?_, fun entries s => ?_⟩
  · rw [← failure?_eq_none_iff, blamed, Datum.firstBlame_eq_none_iff]
  · rw [← failure?_eq_some_iff, blamed, Datum.firstBlame_eq_some_iff]
  · exact fun p => ⟨_, ofDatum_toDatum p v, Json.same_self v.distinct⟩
  · refine fun route => ⟨toDatum_at? v route, fun w found => ?_⟩
    rw [path_of_at? found, ofDatum_path accepted]
  · rw [frozen, ← failure?_eq_some_iff, State.failure?_freezeEntries .empty .empty, ← failure?_eq_some_iff, ofDatum,
      failure?_map]
  · rw [frozen]
    exact State.freezeEntries_eq_ok_iff

/-- A value that was checked elsewhere. -/
def labelled : Value := .object "$.store" (.ofList [("price", .number "$" (.int 3))])

/-- A parcel with a tuple, and with that value in it. -/
def parcel : Datum := .table [(.text "goods", .tuple [.null, .value labelled]), (.text "note", .text "fragile")]

/-- A parcel with two things that JSON does not have. -/
def damagedParcel : Datum :=
  .table [(.text "goods", .list [.value labelled, .float .nan]), (.int 1, .null), (.text "note", .handle)]

theorem parcel_construction :
    (∃ v, Value.ofDatum "$" parcel = .ok v ∧ v.toDatum = parcel.unwrapped.listed ∧
      ∃ w, v.at? [.field "goods", .item 1, .field "price"] = some w ∧ w.path = "$.goods[1].price") ∧
    (labelled.nodes.at? [.field "price"]).map Node.path = some "$.store.price" ∧
    (∃ n, Node.ofDatum "$" parcel = .ok n ∧
      ∃ m, n.at? [.field "goods", .item 1, .field "price"] = some m ∧ m.path = "$.goods[1].price") ∧
    (∃ before visit after, damagedParcel.unwrapped.visits [] = before ++ visit :: after ∧
      (∀ earlier ∈ before, earlier.fits = true) ∧ visit.fits = false ∧
      .decode "finite number" (some "nan") "$.goods[1]" = visit.blame "$") := by
  obtain ⟨-, refused, accepted, -, -, built, -⟩ := Value.construction
  refine ⟨?_, rfl, ?_, (refused "$" damagedParcel _).mp rfl⟩
  · obtain ⟨plain, -, routes⟩ := accepted "$" parcel _ rfl
    have route := (routes [.field "goods", .item 1, .field "price"]).2 _ rfl
    exact ⟨_, rfl, plain ⟨by decide, ⟨trivial, trivial, trivial⟩, trivial, trivial⟩, _, rfl,
      route.trans (by decide +kernel)⟩
  · obtain ⟨-, routes⟩ := built "$" parcel _ rfl
    exact ⟨_, rfl, _, rfl, (routes [.field "goods", .item 1, .field "price"] _ rfl).trans (by decide +kernel)⟩

end Stepflow
