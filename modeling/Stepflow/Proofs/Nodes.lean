import Stepflow.Proofs.Routes
import Stepflow.Value.Node

/-!
# Stepflow.Proofs.Nodes — the stored paths are those that a value shows

* `Node.ofDatum_eq`: what data is built as, node by node with the paths handed down, is the nodes of the value that the
  data is checked as; both are refused with the same failure.
* `Node.ofDatum_value`: a value in the data is built anew from its plain data, at its new place.
* `Node.path_of_at?`: the node at the end of a route was stored with the path of the root and the route behind it.
* `Value.nodes_at?`: the parts that a value computes have the nodes that are stored below its own.
-/

namespace Stepflow

namespace Node

/-! ## Plain trees -/

@[simp] theorem path_build (path : String) (j : Json) : (build path j).path = path := by
  cases j <;> rfl

mutual

@[simp] theorem plain_build (path : String) (j : Json) : (build path j).plain = j := by
  cases j with
  | array items => rw [build, plain, plainItems_buildItems]
  | object fields => rw [build, plain, plainFields_buildFields]
  | _ => rfl

theorem plainItems_buildItems (path : String) (index : Nat) (items : List Json) :
    plainItems (buildItems path index items) = items := by
  cases items with
  | nil => rfl
  | cons item rest => rw [buildItems, plainItems, plain_build, plainItems_buildItems]

theorem plainFields_buildFields (path : String) (fields : List (String × Json)) :
    plainFields (buildFields path fields) = fields := by
  cases fields with
  | nil => rfl
  | cons field rest =>
    obtain ⟨k, item⟩ := field
    rw [buildFields, plainFields, plain_build, plainFields_buildFields]

end

end Node

namespace Value

@[simp] theorem plain_nodes (v : Value) : v.nodes.plain = v.json := Node.plain_build v.path v.json

@[simp] theorem path_nodes (v : Value) : v.nodes.path = v.path := Node.path_build v.path v.json

/-! ## Nodes of containers -/

/-- Where every item stands at its place, the nodes of the items are those below the array. -/
theorem buildItems_map_json {path : String} {index : Nat} {vs : List Value}
    (placed : ∀ i v, vs[i]? = some v → v.path = itemPath path (index + i)) :
    Node.buildItems path index (vs.map json) = vs.map nodes := by
  induction vs generalizing index with
  | nil => rfl
  | cons v rest ih =>
    have here : v.path = itemPath path index := placed 0 v rfl
    have later : Node.buildItems path (index + 1) (rest.map json) = rest.map nodes :=
      ih fun i w found => by rw [placed (i + 1) w found, Nat.add_right_comm, Nat.add_assoc]
    rw [List.map_cons, Node.buildItems, later, ← here]
    rfl

/-- Where every field stands at its key, the nodes of the fields are those below the object. -/
theorem buildFields_map_json {path : String} {fields : List (String × Value)}
    (placed : ∀ e ∈ fields, e.2.path = fieldPath path e.1) :
    Node.buildFields path (fields.map fun e => (e.1, e.2.json)) = fields.map fun e => (e.1, e.2.nodes) := by
  induction fields with
  | nil => rfl
  | cons e rest ih =>
    have here : e.2.path = fieldPath path e.1 := placed e List.mem_cons_self
    rw [List.map_cons, Node.buildFields, ih fun e mem => placed e (List.mem_cons_of_mem _ mem), ← here]
    rfl

/-- Items are checked at their places. -/
theorem path_of_ofItems {path : String} {index : Nat} {items : List Datum} {vs : List Value}
    (accepted : ofItems path index items = .ok vs) (i : Nat) (v : Value) (found : vs[i]? = some v) :
    v.path = itemPath path (index + i) := by
  induction items generalizing index vs i with
  | nil =>
    cases accepted
    cases found
  | cons item rest ih =>
    rw [ofItems] at accepted
    split at accepted
    · cases accepted
    · rename_i first first_ok
      split at accepted
      · cases accepted
      · rename_i others others_ok
        cases accepted
        cases i with
        | zero =>
          cases found
          exact ofDatum_path first_ok
        | succ i => rw [ih others_ok i found, Nat.add_right_comm, Nat.add_assoc]

/-- Entries are checked at their keys. -/
theorem path_of_ofEntries {path : String} {fields all : Fields Value} {entries : List (Datum × Datum)}
    (accepted : ofEntries path fields entries = .ok all)
    (placed : ∀ e ∈ fields.entries, e.2.path = fieldPath path e.1) :
    ∀ e ∈ all.entries, e.2.path = fieldPath path e.1 := by
  induction entries generalizing fields with
  | nil =>
    cases accepted
    exact placed
  | cons entry rest ih =>
    obtain ⟨key, item⟩ := entry
    cases key with
    | text k =>
      rw [ofEntries] at accepted
      split at accepted
      · cases accepted
      · rename_i v first_ok
        refine ih accepted fun e mem => ?_
        obtain rfl | before := Fields.mem_assign mem
        · exact ofDatum_path first_ok
        · exact placed e before
    | _ => cases accepted

end Value

namespace Node

/-! ## Building -/

open Value (nodes)

mutual

/-- **The nodes that data is built as are those of the value that it is checked as.** -/
theorem ofDatum_eq (path : String) (d : Datum) : ofDatum path d = (Value.ofDatum path d).map nodes := by
  cases d with
  | float x => cases x <;> rfl
  | list items | tuple items =>
    rw [ofDatum, Value.ofDatum, ofItems_eq]
    cases checked : Value.ofItems path 0 items with
    | error f => rfl
    | ok vs =>
      have below := Value.buildItems_map_json (Value.path_of_ofItems checked)
      exact congrArg (fun items => Except.ok (Node.array path items)) below.symm
  | table entries =>
    have built := ofEntries_eq path .empty entries
    rw [ofDatum, Value.ofDatum, show (Fields.empty : Fields Node) = Fields.empty.map nodes from rfl, built]
    cases checked : Value.ofEntries path .empty entries with
    | error f => rfl
    | ok all =>
      have below := Value.buildFields_map_json (Value.path_of_ofEntries checked fun _ mem => nomatch mem)
      exact congrArg (fun fields => Except.ok (Node.object path fields)) below.symm
  | value v => exact congrArg (fun j => Except.ok (build path j)) v.plain_nodes
  | _ => rfl

theorem ofItems_eq (path : String) (index : Nat) (items : List Datum) :
    ofItems path index items = (Value.ofItems path index items).map (List.map nodes) := by
  cases items with
  | nil => rfl
  | cons item rest =>
    rw [ofItems, Value.ofItems, ofDatum_eq, ofItems_eq]
    cases Value.ofDatum (Value.itemPath path index) item with
    | error f => rfl
    | ok v => cases Value.ofItems path (index + 1) rest <;> rfl

theorem ofEntries_eq (path : String) (fields : Fields Value) (entries : List (Datum × Datum)) :
    ofEntries path (fields.map nodes) entries = (Value.ofEntries path fields entries).map (Fields.map nodes) := by
  cases entries with
  | nil => rfl
  | cons entry rest =>
    obtain ⟨key, item⟩ := entry
    cases key with
    | text k =>
      rw [ofEntries, Value.ofEntries, ofDatum_eq]
      cases Value.ofDatum (Value.fieldPath path k) item with
      | error f => rfl
      | ok v =>
        change ofEntries path ((fields.map nodes).insert k v.nodes) rest = _
        rw [← Fields.map_insert]
        exact ofEntries_eq path _ rest
    | _ => rfl

end

/-- **A value in the data is built anew** from its plain data, whatever paths its nodes have. -/
theorem ofDatum_value (path : String) (v : Value) : ofDatum path (.value v) = ofDatum path v.toDatum := by
  rw [ofDatum_eq, ofDatum_eq, Value.ofDatum_toDatum]
  rfl

/-- The plain data of what was built can be built again, at any path. -/
theorem ofDatum_plain {path : String} {d : Datum} {n : Node} (built : ofDatum path d = .ok n) (p : String) :
    ofDatum p (Datum.ofJson n.plain) = .ok (build p n.plain) := by
  rw [ofDatum_eq] at built
  obtain ⟨v, -, rfl⟩ := map_eq_ok built
  rw [Value.plain_nodes, ofDatum_eq]
  exact congrArg (Except.map nodes) (Value.ofDatum_toDatum p v)

/-! ## Parts -/

/-- The part at a place, if there is one. -/
def child? : Node → Place → Option Node
  | .object _ fields, .field k => fields.lookup k
  | .array _ items, .item i => items[i]?
  | _, _ => none

/-- The part at the end of a route, if there is one. -/
def at? (n : Node) : List Place → Option Node
  | [] => some n
  | place :: route => (n.child? place).bind fun part => part.at? route

end Node

namespace Value

theorem buildItems_locateItems (path : String) (index : Nat) (items : List Json) (h : Json.DistinctItems items) :
    Node.buildItems path index items = (locateItems path index items h).map nodes := by
  induction items generalizing index with
  | nil => rfl
  | cons item rest ih => rw [Node.buildItems, locateItems, List.map_cons, ih (index + 1) h.2]; rfl

theorem buildFields_locateFields (path : String) (fields : List (String × Json)) (h : Json.DistinctFields fields) :
    Node.buildFields path fields = (locateFields path fields h).map fun e => (e.1, e.2.nodes) := by
  induction fields with
  | nil => rfl
  | cons field rest ih => rw [Node.buildFields, locateFields, List.map_cons, ih h.2]; rfl

theorem nodes_child? (v : Value) (place : Place) : v.nodes.child? place = (v.child? place).map nodes := by
  obtain ⟨path, j, distinct⟩ := v
  cases place with
  | field k => cases j with
    | object fields =>
      change (Node.buildFields path fields).lookup k = ((locateFields path fields distinct.2).lookup k).map nodes
      rw [buildFields_locateFields path fields distinct.2, Fields.lookup_map_snd]
    | _ => rfl
  | item i => cases j with
    | array items =>
      change (Node.buildItems path 0 items)[i]? = (locateItems path 0 items distinct)[i]?.map nodes
      rw [buildItems_locateItems path 0 items distinct, List.getElem?_map]
    | _ => rfl

/-- **The parts of a value have the nodes that are stored below its own.** -/
theorem nodes_at? (v : Value) (route : List Place) : v.nodes.at? route = (v.at? route).map nodes := by
  induction route generalizing v with
  | nil => rfl
  | cons place route ih =>
    rw [Node.at?, at?, nodes_child?]
    cases v.child? place with
    | none => rfl
    | some part => exact ih part

end Value

namespace Node

/-- **A node is stored with its route**, also where a value in the data was built at other paths before. -/
theorem path_of_at? {path : String} {d : Datum} {n m : Node} {route : List Place} (built : ofDatum path d = .ok n)
    (found : n.at? route = some m) : m.path = pathAlong path route := by
  rw [ofDatum_eq] at built
  obtain ⟨v, accepted, rfl⟩ := map_eq_ok built
  rw [Value.nodes_at?, Option.map_eq_some_iff] at found
  obtain ⟨w, here, rfl⟩ := found
  rw [Value.path_nodes, Value.path_of_at? here, Value.ofDatum_path accepted]

end Node

end Stepflow
