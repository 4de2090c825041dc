import Stepflow.Value.Checked

/-!
# Stepflow.Value.Node — values as they are stored, with a path in every node

A `Value` stores the path of its root only.  A `Node` stores the path of every node below as well, given to it when it
was built: `Node.ofDatum` hands every part its path before it is checked, and a value inside the data is taken apart and
built anew, since its nodes carry the paths at which it was built before.
-/

namespace Stepflow

/-- A tree with a path in every node. -/
inductive Node where
  | null (path : String)
  | bool (path : String) (b : Bool)
  | number (path : String) (n : Number)
  | text (path : String) (s : String)
  | array (path : String) (items : List Node)
  | object (path : String) (fields : List (String × Node))

namespace Node

/-- The path of the root. -/
def path : Node → String
  | null path | bool path _ | number path _ | text path _ | array path _ | object path _ => path

mutual
/-- The tree without its paths. -/
def plain : Node → Json
  | .null _ => .null
  | .bool _ b => .bool b
  | .number _ n => .number n
  | .text _ s => .text s
  | .array _ items => .array (plainItems items)
  | .object _ fields => .object (plainFields fields)

/-- `plain` for every item. -/
def plainItems : List Node → List Json
  | [] => []
  | item :: rest => plain item :: plainItems rest

/-- `plain` for the node of every field. -/
def plainFields : List (String × Node) → List (String × Json)
  | [] => []
  | (k, item) :: rest => (k, plain item) :: plainFields rest
end

mutual
/-- The nodes of a tree that is built at `path`. -/
def build (path : String) : Json → Node
  | .null => .null path
  | .bool b => .bool path b
  | .number n => .number path n
  | .text s => .text path s
  | .array items => .array path (buildItems path 0 items)
  | .object fields => .object path (buildFields path fields)

/-- The nodes of items, the first of them at position `index`. -/
def buildItems (path : String) (index : Nat) : List Json → List Node
  | [] => []
  | item :: rest => build (Value.itemPath path index) item :: buildItems path (index + 1) rest

/-- The nodes of fields. -/
def buildFields (path : String) : List (String × Json) → List (String × Node)
  | [] => []
  | (k, item) :: rest => (k, build (Value.fieldPath path k) item) :: buildFields path rest
end

end Node

/-- The nodes of a value. -/
def Value.nodes (v : Value) : Node := Node.build v.path v.json

namespace Node

mutual
/-- Check a datum and store the path in every node of it. -/
def ofDatum (path : String) : Datum → Except Failure Node
  | .null => .ok (.null path)
  | .bool b => .ok (.bool path b)
  | .int n => .ok (.number path (.int n))
  | .float (.finite d) => .ok (.number path (.double d))
  | .float x => .error (.decode "finite number" (some x.text) path)
  | .text s => .ok (.text path s)
  | .list items => (ofItems path 0 items).map (.array path)
  | .tuple items => (ofItems path 0 items).map (.array path)
  | .table entries => (ofEntries path Fields.empty entries).map fun fields => .object path fields.entries
  -- the nodes of the value stay behind with their paths
  | .value v => .ok (build path v.nodes.plain)
  | .bytes bs => .error (.decode "JSON value" (some (Datum.bytes bs).typeName) path)
  | .buffer bs => .error (.decode "JSON value" (some (Datum.buffer bs).typeName) path)
  | .set items => .error (.decode "JSON value" (some (Datum.set items).typeName) path)
  | .handle => .error (.decode "JSON value" (some Datum.handle.typeName) path)

/-- Check items, the first of them at position `index`. -/
def ofItems (path : String) (index : Nat) : List Datum → Except Failure (List Node)
  | [] => .ok []
  | item :: rest =>
    match ofDatum (Value.itemPath path index) item with
    | .error f => .error f
    | .ok n => match ofItems path (index + 1) rest with
      | .error f => .error f
      | .ok ns => .ok (n :: ns)

/-- Check entries and write them over `fields`. -/
def ofEntries (path : String) (fields : Fields Node) : List (Datum × Datum) → Except Failure (Fields Node)
  | [] => .ok fields
  | (.text k, item) :: rest =>
    match ofDatum (Value.fieldPath path k) item with
    | .error f => .error f
    | .ok n => ofEntries path (fields.insert k n) rest
  | (k, _) :: _ => .error (.decode "string key" (some k.typeName) path)
end

end Node

end Stepflow
