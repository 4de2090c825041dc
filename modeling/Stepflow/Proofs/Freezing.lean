import Stepflow.Proofs.Json.Sameness
import Stepflow.Value.Checked

/-!
# Stepflow.Proofs.Freezing — trees of the JSON model pass every check

`Value.ofDatum` refuses what is not JSON-shaped, and `State.freeze` what is no table of such data under text keys.  The
data of a tree is neither: `Value.ofDatum_ofJson` at any path, `State.freeze_ofJson` for the data of an object as a
state.

Where no key is repeated the tree comes back as it was: `Value.ofDatum_toDatum` for a value, `State.freeze_thaw` for a
state, whose values get the paths of their keys.
-/

namespace Stepflow

section Outcomes

variable {ε α β : Type} {x : Except ε α} {b : β}

/-- Of two parts of a computation both succeed if the whole does. -/
theorem bind_eq_ok {f : α → Except ε β} (h : x >>= f = .ok b) : ∃ a, x = .ok a ∧ f a = .ok b := by
  cases x with
  | error _ => cases h
  | ok a => exact ⟨a, rfl, h⟩

theorem map_eq_ok {f : α → β} (h : x.map f = .ok b) : ∃ a, x = .ok a ∧ f a = b := by
  cases x with
  | error _ => cases h
  | ok a => exact ⟨a, rfl, Except.ok.inj h⟩

end Outcomes

mutual

/-- The data of a tree is accepted as a value at any path. -/
theorem Value.ofDatum_ofJson (path : String) (j : Json) : ∃ v, Value.ofDatum path (Datum.ofJson j) = .ok v := by
  cases j with
  | null => exact ⟨_, rfl⟩
  | bool b => exact ⟨_, rfl⟩
  | text s => exact ⟨_, rfl⟩
  | number n =>
    cases n with
    | int i => exact ⟨_, rfl⟩
    | double d => exact ⟨_, rfl⟩
  | array items =>
    obtain ⟨vs, accepted⟩ := Value.ofItems_ofItems path 0 items
    exact ⟨_, by simp only [Datum.ofJson, Value.ofDatum, accepted]; rfl⟩
  | object fields =>
    obtain ⟨vs, accepted⟩ := Value.ofEntries_ofFields path Fields.empty fields
    exact ⟨_, by simp only [Datum.ofJson, Value.ofDatum, accepted]; rfl⟩

theorem Value.ofItems_ofItems (path : String) (index : Nat) (items : List Json) :
    ∃ vs, Value.ofItems path index (Datum.ofItems items) = .ok vs := by
  cases items with
  | nil => exact ⟨[], rfl⟩
  | cons item rest =>
    obtain ⟨v, first⟩ := Value.ofDatum_ofJson (Value.itemPath path index) item
    obtain ⟨vs, others⟩ := Value.ofItems_ofItems path (index + 1) rest
    exact ⟨v :: vs, by simp only [Datum.ofItems, Value.ofItems, first, others]⟩

theorem Value.ofEntries_ofFields (path : String) (fields : Fields Value) (more : List (String × Json)) :
    ∃ all, Value.ofEntries path fields (Datum.ofFields more) = .ok all := by
  cases more with
  | nil => exact ⟨fields, rfl⟩
  | cons field rest =>
    obtain ⟨k, item⟩ := field
    obtain ⟨v, first⟩ := Value.ofDatum_ofJson (Value.fieldPath path k) item
    obtain ⟨all, others⟩ := Value.ofEntries_ofFields path (fields.insert k v) rest
    exact ⟨all, by simp only [Datum.ofFields, Value.ofEntries, first, others]⟩

end

namespace Value

/-- What a datum is checked as stands where it was checked. -/
theorem ofDatum_path {path : String} {d : Datum} {v : Value} (h : ofDatum path d = .ok v) : v.path = path := by
  cases d with
  | null | bool _ | int _ | text _ | value _ =>
    cases h
    rfl
  | float x =>
    cases x with
    | finite _ =>
      cases h
      rfl
    | infinite _ | nan => cases h
  | list _ | tuple _ | table _ =>
    obtain ⟨_, -, rfl⟩ := map_eq_ok h
    rfl
  | bytes _ | buffer _ | set _ | handle => cases h

/-! ## Values come back -/

theorem map_json_locateItems (path : String) (index : Nat) (items : List Json) (h : Json.DistinctItems items) :
    (locateItems path index items h).map json = items := by
  induction items generalizing index with
  | nil => rfl
  | cons item rest ih => rw [locateItems, List.map_cons, ih (index + 1) h.2]

theorem map_json_locateFields (path : String) (fields : List (String × Json)) (h : Json.DistinctFields fields) :
    (locateFields path fields h).map (fun e => (e.1, e.2.json)) = fields := by
  induction fields with
  | nil => rfl
  | cons field rest ih => rw [locateFields, List.map_cons, ih h.2]

theorem array_locateItems (path : String) {items : List Json} (h : Json.DistinctItems items) :
    array path (locateItems path 0 items h) = ⟨path, .array items, h⟩ := by
  simp only [array, map_json_locateItems]

theorem object_locateFields (path : String) {fields : List (String × Json)} (h : (Json.object fields).Distinct) :
    object path (Fields.ofList (locateFields path fields h.2)) = ⟨path, .object fields, h⟩ := by
  have distinct : ((locateFields path fields h.2).map Prod.fst).Nodup := by
    rw [map_fst_locateFields]
    exact h.1
  simp only [object, Fields.map, Fields.entries_ofList distinct, map_json_locateFields]

/-- The tree of an array is made of the trees of its items. -/
theorem json_of_items? {v : Value} {items : List Value} (view : v.items? = some items) :
    v.json = .array (items.map json) := by
  obtain ⟨path, j, distinct⟩ := v
  cases j with
  | array trees =>
    cases view
    exact congrArg Json.array (map_json_locateItems path 0 trees distinct).symm
  | _ => cases view

/-- The tree of an object is made of the trees of its fields. -/
theorem json_of_fields? {v : Value} {fields : Fields Value} (view : v.fields? = some fields) :
    v.json = .object (fields.map json).entries := by
  obtain ⟨path, j, distinct⟩ := v
  cases j with
  | object trees =>
    cases view
    exact congrArg Json.object (map_json_locateFields path trees distinct.2).symm
  | _ => cases view

mutual

/-- The data of a tree without repeated keys is accepted as that tree. -/
theorem ofDatum_of_distinct (path : String) {j : Json} (h : j.Distinct) :
    ofDatum path (Datum.ofJson j) = .ok ⟨path, j, h⟩ := by
  cases j with
  | null | bool _ | text _ => rfl
  | number n => cases n with
    | int i => rfl
    | double d => rfl
  | array items =>
    rw [Datum.ofJson, ofDatum, ofItems_of_distinct path 0 h]
    exact congrArg Except.ok (array_locateItems path h)
  | object fields =>
    rw [Datum.ofJson, ofDatum, ofEntries_of_distinct path Fields.empty h.2]
    exact congrArg Except.ok (object_locateFields path h)

theorem ofItems_of_distinct (path : String) (index : Nat) {items : List Json} (h : Json.DistinctItems items) :
    ofItems path index (Datum.ofItems items) = .ok (locateItems path index items h) := by
  cases items with
  | nil => rfl
  | cons item rest =>
    rw [Datum.ofItems, ofItems, ofDatum_of_distinct _ h.1]
    dsimp only
    rw [ofItems_of_distinct path (index + 1) h.2]
    rfl

theorem ofEntries_of_distinct (path : String) (fields : Fields Value) {more : List (String × Json)}
    (h : Json.DistinctFields more) :
    ofEntries path fields (Datum.ofFields more) = .ok (fields.insertAll (locateFields path more h)) := by
  cases more with
  | nil => rfl
  | cons field rest =>
    obtain ⟨k, item⟩ := field
    rw [Datum.ofFields, ofEntries, ofDatum_of_distinct _ h.1]
    dsimp only
    rw [ofEntries_of_distinct path _ h.2]
    rfl

end

/-- **The plain data of a value is accepted as that value**, at any path. -/
theorem ofDatum_toDatum (path : String) (v : Value) : ofDatum path v.toDatum = .ok (v.relocate path) :=
  ofDatum_of_distinct path v.distinct

theorem toDatum_ne_value (v w : Value) : v.toDatum ≠ .value w := by
  obtain ⟨path, j, h⟩ := v
  cases j with
  | number n => cases n <;> simp [toDatum, Datum.ofJson, Datum.ofNumber]
  | _ => simp [toDatum, Datum.ofJson]

theorem wrap_toDatum (v : Value) : wrap v.toDatum = .ok (v.relocate rootPath) := by
  rw [wrap]
  · exact ofDatum_toDatum rootPath v
  · exact toDatum_ne_value v

end Value

namespace State

theorem freezeEntries_ofFields (state : State) (fields : List (String × Json)) :
    ∃ all, freezeEntries state (Datum.ofFields fields) = .ok all := by
  induction fields generalizing state with
  | nil => exact ⟨state, rfl⟩
  | cons field rest ih =>
    obtain ⟨k, item⟩ := field
    obtain ⟨v, first⟩ := Value.ofDatum_ofJson (Value.fieldPath Value.rootPath k) item
    obtain ⟨all, others⟩ := ih (state.insert k v)
    have plain : ∀ w, Datum.ofJson item ≠ .value w := by
      intro w
      cases item with
      | number n => cases n <;> simp [Datum.ofJson, Datum.ofNumber]
      | _ => simp [Datum.ofJson]
    refine ⟨all, ?_⟩
    rw [Datum.ofFields, freezeEntries, first]
    · exact others
    · exact plain

/-- **The data of a JSON object is accepted as a state.** -/
theorem freeze_ofJson (fields : List (String × Json)) : ∃ state, freeze (.ofJson (.object fields)) = .ok state := by
  unfold freeze
  split
  · exact ⟨_, rfl⟩
  · exact freezeEntries_ofFields Fields.empty fields

/-! ## States come back -/

/-- Every value at the path of its key below the root. -/
def located (state : State) : State :=
  ⟨state.entries.map fun e => (e.1, e.2.relocate (Value.fieldPath Value.rootPath e.1)), by
    rw [List.map_map]
    exact state.distinct⟩

theorem map_json_located (state : State) : state.located.map Value.json = state.map Value.json := by
  ext1
  simp only [located, Fields.map, List.map_map]
  rfl

theorem isEmpty_located (state : State) : state.located.isEmpty = state.isEmpty := by
  simp [located, Fields.isEmpty]

/-- The plain data of a state says nothing of paths. -/
theorem thaw_located (state : State) : thaw state.located = thaw state := by
  have values : state.located.map Value.toDatum = state.map Value.toDatum := by
    ext1
    simp only [located, Fields.map, List.map_map]
    rfl
  rw [thaw, thaw, values]

theorem same_located (state : State) : state.located.same state = true := by
  have length : state.located.entries.length = state.entries.length := List.length_map _
  rw [State.same, length, beq_self_eq_true, Bool.true_and, List.all_eq_true]
  intro e he
  obtain ⟨⟨k, v⟩, mem, rfl⟩ := List.mem_map.mp he
  dsimp only
  rw [Fields.get?_of_mem mem]
  exact Json.same_self v.distinct

theorem freezeEntries_toDatum (state : State) (es : List (String × Value)) :
    freezeEntries state (es.map fun e => (.text e.1, e.2.toDatum)) =
      .ok (state.insertAll (es.map fun e => (e.1, e.2.relocate (Value.fieldPath Value.rootPath e.1)))) := by
  induction es generalizing state with
  | nil => rfl
  | cons e rest ih =>
    rw [List.map_cons, freezeEntries, Value.ofDatum_toDatum]
    · exact ih _
    · exact Value.toDatum_ne_value e.2

/-- **The plain data of a state is accepted as that state.** -/
theorem freeze_thaw (state : State) : freeze (thaw state) = .ok state.located := by
  have entries_eq : thaw state = .table (state.entries.map fun e => (.text e.1, e.2.toDatum)) := by
    simp only [thaw, Datum.ofTextFields, Fields.map, List.map_map, Function.comp_def]
  have located_eq : Fields.ofList (state.located).entries = state.located := Fields.ofList_entries _
  rw [entries_eq, freeze]
  split
  · rename_i vacant
    have none_left : state.entries = [] := by
      simpa [Datum.isVacant] using vacant
    refine congrArg Except.ok (Fields.ext ?_)
    simp [located, none_left, Fields.empty]
  · rw [freezeEntries_toDatum]
    exact congrArg Except.ok located_eq

end State

end Stepflow
