import Mathlib.Data.List.Forall2
import Stepflow.Processing
import Stepflow.Proofs.Refusals

/-!
# Stepflow.Proofs.Overlay — processing lays a change over the state that does not depend on it

* `Fields.entries_update`: fields written over a map, entry by entry: present keys keep their places and take the new
  values, the other entries stay, and new keys go to the end.
* `Changes`: the change that a step makes with an output, told by the fields of the output and of the payload;
  `changeOf_iff`: processing computes it without looking at the state.
* `processing_overlays`: the outcome of a step with an output is the same for every state, a failure or a change and
  a list of workflows; a second time it does nothing more; and along a sequence every key has what the last change
  that says anything about it says.
-/

namespace Stepflow

namespace Fields

variable {α : Type}

/-! ## Writing fields over a map -/

/-- The map with one entry. -/
def single (k : String) (a : α) : Fields α := ⟨[(k, a)], by simp⟩

theorem lookup_of_notMem {k : String} {es : List (String × α)} (h : k ∉ es.map Prod.fst) : es.lookup k = none := by
  rw [List.lookup_eq_none_iff]
  rintro e mem
  rw [bne_iff_ne]
  rintro rfl
  exact h (List.mem_map_of_mem mem)

theorem entries_insert (m : Fields α) (k : String) (a : α) :
    (m.insert k a).entries =
      if k ∈ m.keys then m.entries.map (fun e => (e.1, if e.1 = k then a else e.2)) else m.entries ++ [(k, a)] := by
  split
  · rename_i present
    obtain ⟨es, distinct⟩ := m
    change k ∈ es.map Prod.fst at present
    change assign k a es = _
    induction es with
    | nil => cases present
    | cons e rest ih =>
      obtain ⟨j, b⟩ := e
      obtain ⟨fresh, distinct'⟩ : j ∉ rest.map Prod.fst ∧ (rest.map Prod.fst).Nodup := List.nodup_cons.mp distinct
      by_cases here : j = k
      · have others : rest.map (fun e => (e.1, if e.1 = k then a else e.2)) = rest := by
          refine (List.map_congr_left fun e mem => ?_).trans (List.map_id rest)
          have ne : e.1 ≠ k := fun same => fresh (by rw [here, ← same]; exact List.mem_map_of_mem mem)
          rw [if_neg ne, id]
        rw [assign, if_pos here, List.map_cons, others, if_pos here, here]
      · have later : k ∈ rest.map Prod.fst := (List.mem_cons.mp present).resolve_left (Ne.symm here)
        rw [assign, if_neg here, List.map_cons, if_neg here]
        exact congrArg _ (ih distinct' later)
  · rename_i absent
    exact assign_of_notMem absent a

theorem entries_insertAll_of_nodup (m : Fields α) {es : List (String × α)} (h : (es.map Prod.fst).Nodup) :
    (m.insertAll es).entries = m.entries.map (fun e => (e.1, (es.lookup e.1).getD e.2)) ++
      es.filter (fun e => !m.keys.contains e.1) := by
  -- each entry is written at its place or at the end; no later one has its key
  induction es generalizing m with
  | nil => simp [insertAll]
  | cons e rest ih =>
    obtain ⟨k, a⟩ := e
    obtain ⟨fresh, distinct⟩ : k ∉ rest.map Prod.fst ∧ (rest.map Prod.fst).Nodup := List.nodup_cons.mp h
    have unsaid : rest.lookup k = none := lookup_of_notMem fresh
    have values : ∀ e : String × α, (rest.lookup e.1).getD (if e.1 = k then a else e.2) =
        (((k, a) :: rest).lookup e.1).getD e.2 := by
      rintro ⟨j, b⟩
      by_cases here : j = k
      · simp [here, unsaid]
      · have ne : (j == k) = false := by simpa using here
        simp [List.lookup_cons, here, ne]
    change ((m.insert k a).insertAll rest).entries = _
    rw [ih (m.insert k a) distinct, entries_insert, keys_insert]
    by_cases present : k ∈ m.keys
    · simp [present, values]
    · have kept : m.entries.map (fun e => (e.1, (rest.lookup e.1).getD e.2)) =
          m.entries.map (fun e => (e.1, (((k, a) :: rest).lookup e.1).getD e.2)) := by
        refine List.map_congr_left fun e mem => ?_
        have ne : e.1 ≠ k := fun same => present (same ▸ List.mem_map_of_mem mem)
        rw [← values e, if_neg ne]
      have new : rest.filter (fun e => !(m.keys ++ [k]).contains e.1) =
          rest.filter (fun e => !m.keys.contains e.1) := by
        refine List.filter_congr fun e mem => ?_
        have ne : e.1 ≠ k := fun same => fresh (same ▸ List.mem_map_of_mem mem)
        simp [ne]
      rw [if_neg present, if_neg present, List.map_append, kept, new, List.filter_cons]
      simp [present, unsaid]

/-- What is under a key after fields were written over a map. -/
theorem get?_update (m other : Fields α) (k : String) : (m.update other).get? k = (other.get? k).or (m.get? k) := by
  rw [update, get?_insertAll, ← get?_ofList, ofList_entries]

/-- Present keys keep their places and take the new values, other entries stay, new keys go to the end. -/
theorem entries_update (m other : Fields α) :
    (m.update other).entries = m.entries.map (fun e => (e.1, (other.get? e.1).getD e.2)) ++
      other.entries.filter (fun e => !m.keys.contains e.1) :=
  entries_insertAll_of_nodup m other.distinct

/-- Writing the same fields a second time changes nothing. -/
theorem update_update (m other : Fields α) : (m.update other).update other = m.update other := by
  ext1
  have present : ∀ e ∈ other.entries, e.1 ∈ (m.update other).keys := by
    intro e mem
    have held : (m.update other).contains e.1 = true := by
      rw [contains, get?_update, get?_of_mem mem]
      rfl
    exact (contains_iff _ _).mp held
  have nothing_new : other.entries.filter (fun e => !(m.update other).keys.contains e.1) = [] := by
    rw [List.filter_eq_nil_iff]
    intro e mem
    simp [present e mem]
  rw [entries_update (m.update other), nothing_new, List.append_nil]
  refine (List.map_congr_left fun e mem => ?_).trans (List.map_id (m.update other).entries)
  have held := get?_of_mem (show (e.1, e.2) ∈ (m.update other).entries from mem)
  rw [get?_update] at held
  cases written : other.get? e.1 with
  | none => rfl
  | some b =>
    rw [written, Option.some_or] at held
    rw [Option.getD_some, Option.some.inj held, id]

end Fields

/-! ## Fields under their names -/

/-- The field of an object under a name or else under its camel case spelling; other values have no fields. -/
def Value.named? (v : Value) (name : String) : Option Value :=
  v.fields?.bind fun fields => (fields.get? name).or (fields.get? (FieldName.toCamel name))

theorem Value.asObject_iff {v : Value} {fields : Fields Value} : v.asObject = .ok fields ↔ v.fields? = some fields := by
  unfold Value.asObject
  cases v.fields? <;> simp

theorem Value.asArray_iff {v : Value} {items : List Value} : v.asArray = .ok items ↔ v.items? = some items := by
  unfold Value.asArray
  cases v.items? <;> simp

theorem Value.asText_iff {v : Value} {s : String} : v.asText = .ok s ↔ v.json = .text s := by
  unfold Value.asText
  cases v.json <;> simp

theorem Value.asBool_iff {v : Value} {b : Bool} : v.asBool = .ok b ↔ v.json = .bool b := by
  unfold Value.asBool
  cases v.json <;> simp

namespace Processing

theorem isObject_iff (v : Value) : isObject v = true ↔ ∃ fields, v.fields? = some fields := by
  obtain ⟨path, json, distinct⟩ := v
  cases json <;> simp [isObject, Value.kind, Json.kind, Value.fields?]

theorem isNull_iff (v : Value) : v.isNull = true ↔ v.json = .null := by
  obtain ⟨path, json, distinct⟩ := v
  cases json <;> simp [Value.isNull, Value.kind, Json.kind]

theorem items?_of_null {v : Value} (null : v.json = .null) : v.items? = none := by
  obtain ⟨path, json, distinct⟩ := v
  cases null
  rfl

theorem find?_of_isObject {v : Value} (object : isObject v = true) (name : String) :
    FieldName.find? v name = .ok (v.named? name) := by
  obtain ⟨fields, isFields⟩ := (isObject_iff v).mp object
  unfold FieldName.find? Value.named? Value.asObject
  rw [isFields]
  dsimp only [Bind.bind, Except.bind, Option.bind]
  cases fields.get? name <;> rfl

theorem named?_of_not_isObject {v : Value} (plain : isObject v = false) (name : String) : v.named? name = none := by
  cases isFields : v.fields? with
  | none => rw [Value.named?, isFields]; rfl
  | some fields =>
    rw [(isObject_iff v).mpr ⟨fields, isFields⟩] at plain
    cases plain

/-! ## Changes -/

/-- What a step with its output does to a state. -/
inductive Change where
  /-- Another state takes the place of the state. -/
  | replace (state : State)
  /-- Entries are written over the state. -/
  | write (entries : Fields Value)

namespace Change

/-- The state after a change. -/
def apply : Change → State → State
  | .replace state, _ => state
  | .write entries, state => state.update entries

/-- What a change decides about a key: nothing, or which value the key has then, if any. -/
def decides (key : String) : Change → Option (Option Value)
  | .replace state => some (state.get? key)
  | .write entries => (entries.get? key).map some

theorem get?_apply (change : Change) (state : State) (key : String) :
    (change.apply state).get? key = (change.decides key).getD (state.get? key) := by
  cases change with
  | replace _ => rfl
  | write entries =>
    rw [apply, decides, Fields.get?_update]
    cases entries.get? key <;> rfl

theorem apply_apply (change : Change) (state : State) : change.apply (change.apply state) = change.apply state := by
  cases change with
  | replace _ => rfl
  | write entries => exact Fields.update_update state entries

/-- Along a sequence of changes the last one that says anything about a key decides. -/
theorem get?_foldl_apply (changes : List Change) (state : State) (key : String) :
    (changes.foldl (fun state change => change.apply state) state).get? key =
      (changes.reverse.findSome? (decides key)).getD (state.get? key) := by
  induction changes generalizing state with
  | nil => rfl
  | cons change rest ih =>
    rw [List.foldl_cons, ih, List.reverse_cons, List.findSome?_append, get?_apply]
    cases rest.reverse.findSome? (decides key) with
    | some _ => rfl
    | none => simp only [List.findSome?_singleton, Option.none_or, Option.getD_none]

end Change

/-- A payload chooses by a field of its own; without the field the choice is the default. -/
def Chooses {α : Type} (payload : Value) (name : String) (form : α → Json) (default chosen : α) : Prop :=
  match payload.named? name with
  | some v => v.json = form chosen
  | none => chosen = default

/-- The change that a step makes with an output. -/
inductive Changes (step : Step) : Option Value → Change → Prop
  /-- Without an output nothing is written. -/
  | nothing : Changes step none (.write .empty)
  /-- Nor is null. -/
  | null {output : Value} (null : output.json = .null) : Changes step (some output) (.write .empty)
  /-- A new state in the output takes the place of the state. -/
  | replaces {output replacement : Value} {state : State} (declared : output.named? "new_state" = some replacement)
      (object : replacement.fields? = some state) : Changes step (some output) (.replace state)
  /-- The fields of an output are merged where the payload says so. -/
  | merges {output : Value} {fields : Fields Value} (object : output.fields? = some fields)
      (undeclared : output.named? "new_state" = none) (merging : Chooses step.payload "merge_state" .bool false true) :
      Changes step (some output) (.write fields)
  /-- Any other output is stored. -/
  | keeps {output : Value} {key : String} (present : output.json ≠ .null) (undeclared : output.named? "new_state" = none)
      (whole : isObject output = true → Chooses step.payload "merge_state" .bool false false)
      (under : Chooses step.payload "state_key" .text step.stepType key) :
      Changes step (some output) (.write (.single key output))

/-- The change of an output that is an object. -/
def changeOfObject (step : Step) (output : Value) : Except Failure Change :=
  match output.named? "new_state" with
  | some replacement => return .replace (← replacement.asObject)
  | none => do
    if ← mergeRequested step.payload then return .write (← output.asObject)
    else return .write (.single (← stateKey step) output)

/-- The change of an output, by the rules of processing but without a state. -/
def changeOf (step : Step) : Option Value → Except Failure Change
  | none => .ok (.write .empty)
  | some output =>
    if isObject output then changeOfObject step output
    else if output.isNull then .ok (.write .empty)
    else return .write (.single (← stateKey step) output)

theorem mergeRequested_iff (payload : Value) (b : Bool) :
    mergeRequested payload = .ok b ↔ Chooses payload "merge_state" .bool false b := by
  unfold mergeRequested Chooses
  cases object : isObject payload with
  | false =>
    rw [named?_of_not_isObject object]
    simp [eq_comm]
  | true =>
    rw [find?_of_isObject object]
    cases payload.named? "merge_state" with
    | some flag => exact Value.asBool_iff
    | none => simp [Bind.bind, Except.bind, pure, Except.pure, eq_comm]

theorem stateKey_iff (step : Step) (key : String) :
    stateKey step = .ok key ↔ Chooses step.payload "state_key" .text step.stepType key := by
  unfold stateKey Chooses
  cases object : isObject step.payload with
  | false =>
    rw [named?_of_not_isObject object]
    simp [eq_comm]
  | true =>
    rw [find?_of_isObject object]
    cases step.payload.named? "state_key" with
    | some flag => exact Value.asText_iff
    | none => simp [Bind.bind, Except.bind, pure, Except.pure, eq_comm]

theorem changeOfObject_iff {step : Step} {output : Value} (object : isObject output = true) (change : Change) :
    changeOfObject step output = .ok change ↔ Changes step (some output) change := by
  obtain ⟨fields, isFields⟩ := (isObject_iff output).mp object
  have present : output.json ≠ .null := by
    rintro null
    rw [isObject, Value.kind, null] at object
    cases object
  unfold changeOfObject
  constructor
  · intro made
    split at made
    · rename_i replacement declared
      obtain ⟨state, isState, rfl⟩ := map_eq_ok (f := Change.replace) made
      exact .replaces declared (Value.asObject_iff.mp isState)
    · rename_i undeclared
      obtain ⟨merging, asked, made⟩ := bind_eq_ok made
      cases merging with
      | true =>
        obtain ⟨written, isWritten, rfl⟩ := map_eq_ok (f := Change.write) made
        exact .merges (Value.asObject_iff.mp isWritten) undeclared ((mergeRequested_iff _ _).mp asked)
      | false =>
        obtain ⟨key, under, rfl⟩ := map_eq_ok (f := fun key => Change.write (.single key output)) made
        exact .keeps present undeclared (fun _ => (mergeRequested_iff _ _).mp asked) ((stateKey_iff _ _).mp under)
  · intro changes
    cases changes with
    | null null => exact absurd null present
    | replaces declared isState => simp only [declared, Value.asObject_iff.mpr isState]; rfl
    | merges isWritten undeclared merging =>
      simp only [undeclared, (mergeRequested_iff _ _).mpr merging, Value.asObject_iff.mpr isWritten]
      rfl
    | keeps _ undeclared whole under =>
      simp only [undeclared, (mergeRequested_iff _ _).mpr (whole object), (stateKey_iff _ _).mpr under]
      rfl

/-- The change is the one that the fields of the output and of the payload tell. -/
theorem changeOf_iff (step : Step) (output : Option Value) (change : Change) :
    changeOf step output = .ok change ↔ Changes step output change := by
  cases output with
  | none =>
    refine ⟨fun made => ?_, fun changes => ?_⟩
    · cases made
      exact .nothing
    · cases changes
      rfl
  | some output =>
    unfold changeOf
    dsimp only
    split
    · rename_i object
      exact changeOfObject_iff object change
    · rename_i plain
      -- what is no object declares nothing, so only null and the step of its own are left
      have undeclared : ∀ name, output.named? name = none := named?_of_not_isObject (by simpa using plain)
      split
      · rename_i null
        refine ⟨fun made => ?_, fun changes => ?_⟩
        · cases made
          exact .null ((isNull_iff output).mp null)
        · cases changes with
          | null _ => rfl
          | replaces declared _ => rw [undeclared] at declared; cases declared
          | merges isFields _ _ => exact absurd ((isObject_iff output).mpr ⟨_, isFields⟩) plain
          | keeps present _ _ _ => exact absurd ((isNull_iff output).mp null) present
      · rename_i present
        refine ⟨fun made => ?_, fun changes => ?_⟩
        · obtain ⟨key, under, rfl⟩ := map_eq_ok (f := fun key => Change.write (.single key output)) made
          exact .keeps (fun null => present ((isNull_iff output).mpr null)) (undeclared _)
            (fun object => absurd object plain) ((stateKey_iff _ _).mp under)
        · cases changes with
          | null null => exact absurd ((isNull_iff output).mpr null) present
          | replaces declared _ => rw [undeclared] at declared; cases declared
          | merges isFields _ _ => exact absurd ((isObject_iff output).mpr ⟨_, isFields⟩) plain
          | keeps _ _ _ under => rw [(stateKey_iff _ _).mpr under]; rfl

theorem decodesOnly_find? (v : Value) (name : String) : DecodesOnly (FieldName.find? v name) :=
  v.decodesOnly_asObject.bind fun fields _ => by split <;> exact .ok _

theorem decodesOnly_mergeRequested (payload : Value) : DecodesOnly (mergeRequested payload) := by
  unfold mergeRequested
  split
  · refine (decodesOnly_find? _ _).bind fun flag _ => ?_
    split
    · exact Value.decodesOnly_asBool _
    · exact .ok _
  · exact .ok _

theorem decodesOnly_stateKey (step : Step) : DecodesOnly (stateKey step) := by
  unfold stateKey
  split
  · refine (decodesOnly_find? _ _).bind fun key _ => ?_
    split
    · exact Value.decodesOnly_asText _
    · exact .ok _
  · exact .ok _

theorem decodesOnly_changeOf (step : Step) (output : Option Value) : DecodesOnly (changeOf step output) := by
  have store (output : Value) : DecodesOnly (do return Change.write (.single (← stateKey step) output)) :=
    (decodesOnly_stateKey step).bind fun _ _ => .ok _
  unfold changeOf
  split
  · exact .ok _
  · split
    · unfold changeOfObject
      split
      · exact (Value.decodesOnly_asObject _).bind fun _ _ => .ok _
      · refine (decodesOnly_mergeRequested _).bind fun merging _ => ?_
        split
        · exact (Value.decodesOnly_asObject _).bind fun _ _ => .ok _
        · exact store _
    · split
      · exact .ok _
      · exact store _

/-! ## Workflows -/

/-- The items that a value declares as workflows: those of an array, none where the field is missing or null. -/
def Declares (v : Option Value) (items : List Value) : Prop :=
  match v.bind (·.named? "workflows_to_run") with
  | none => items = []
  | some listed => listed.json = .null ∧ items = [] ∨ listed.items? = some items

/-- Items are decoded as workflows one by one. -/
abbrev Decoded (items : List Value) (workflows : List Workflow) : Prop :=
  List.Forall₂ (fun item w => Workflow.ofWire (.value item) = .ok w) items workflows

theorem workflowsOfWire_iff (items : List Value) (workflows : List Workflow) :
    Transition.workflowsOfWire (items.map .value) = .ok workflows ↔ Decoded items workflows := by
  rw [Transition.workflowsOfWire_iff, List.forall₂_map_left_iff]

theorem workflowsOfWire_error {items : List Value} {f : Failure}
    (fails : Transition.workflowsOfWire (items.map .value) = .error f) :
    ∃ item ∈ items, Workflow.ofWire (.value item) = .error f := by
  obtain ⟨earlier, d, later, whole, -, refused⟩ := Transition.workflowsOfWire_eq_error_iff.mp fails
  obtain ⟨item, mem, rfl⟩ := List.mem_map.mp (show d ∈ items.map Datum.value by simp [whole])
  exact ⟨item, mem, refused⟩

/-- The workflows of a field that is declared are decoded in order. -/
theorem workflowsOf_iff (v : Option Value) (workflows : List Workflow) :
    workflowsOf (v.bind (·.named? "workflows_to_run")) = .ok workflows ↔
      ∃ items, Declares v items ∧ Decoded items workflows := by
  unfold workflowsOf Declares
  cases v.bind (·.named? "workflows_to_run") with
  | none =>
    refine ⟨fun made => ?_, ?_⟩
    · cases made
      exact ⟨[], rfl, .nil⟩
    · rintro ⟨_, rfl, decoded⟩
      cases decoded
      rfl
  | some listed =>
    dsimp only
    split
    · rename_i null
      have isNull := (isNull_iff listed).mp null
      refine ⟨fun made => ?_, ?_⟩
      · cases made
        exact ⟨[], .inl ⟨isNull, rfl⟩, .nil⟩
      · rintro ⟨_, ⟨-, rfl⟩ | isArray, decoded⟩
        · cases decoded
          rfl
        · rw [(items?_of_null isNull)] at isArray
          cases isArray
    · rename_i present
      refine ⟨fun made => ?_, ?_⟩
      · obtain ⟨items, isArray, made⟩ := bind_eq_ok made
        exact ⟨items, .inr (Value.asArray_iff.mp isArray), (workflowsOfWire_iff _ _).mp made⟩
      · rintro ⟨items, ⟨null, -⟩ | isArray, decoded⟩
        · exact absurd ((isNull_iff listed).mpr null) present
        · rw [Value.asArray_iff.mpr isArray]
          exact (workflowsOfWire_iff _ _).mpr decoded

/-- Where the workflows of a field fail, they are no array or one of them is not decoded. -/
theorem workflowsOf_error {v : Option Value} {f : Failure}
    (fails : workflowsOf (v.bind (·.named? "workflows_to_run")) = .error f) :
    f.family? = some .decode ∨ ∃ items, Declares v items ∧ ∃ item ∈ items, Workflow.ofWire (.value item) = .error f := by
  unfold workflowsOf at fails
  unfold Declares
  cases declared : v.bind (·.named? "workflows_to_run") with
  | none => rw [declared] at fails; cases fails
  | some listed =>
    rw [declared] at fails
    dsimp only at fails
    split at fails
    · cases fails
    · cases isArray : listed.items? with
      | none =>
        simp only [Value.asArray, isArray] at fails
        cases fails
        exact .inl rfl
      | some items =>
        simp only [Value.asArray, isArray] at fails
        exact .inr ⟨items, .inr isArray, workflowsOfWire_error fails⟩

/-! ## Processing -/

theorem adoptObject_eq {output : Value} (object : isObject output = true) (state : State) (step : Step) :
    adoptObject state step output = (changeOfObject step output).map (·.apply state) := by
  unfold adoptObject changeOfObject
  rw [find?_of_isObject object]
  cases output.named? "new_state" with
  | some replacement =>
    dsimp only [Bind.bind, Except.bind]
    cases replacement.asObject <;> rfl
  | none =>
    cases mergeRequested step.payload with
    | error _ => rfl
    | ok merging =>
      cases merging with
      | true => cases output.asObject <;> rfl
      | false => cases stateKey step <;> rfl

/-- Processing lays the change over the state; the workflows are those of the output, then those of the payload. -/
theorem process_eq (state : State) (step : Step) (output : Option Value) :
    process state step output = (do
      let change ← changeOf step output
      let own ← workflowsOf (output.bind (·.named? "workflows_to_run"))
      let more ← workflowsOf (step.payload.named? "workflows_to_run")
      return ⟨change.apply state, own ++ more⟩) := by
  have payload : scheduledByPayload step.payload = workflowsOf (step.payload.named? "workflows_to_run") := by
    unfold scheduledByPayload
    cases object : isObject step.payload with
    | false => rw [named?_of_not_isObject object]; rfl
    | true => rw [find?_of_isObject object]; rfl
  -- the program reads the fields of an object on the way; a lookup by name says the same for any value
  have adopted : adopt state step output = (do
      let change ← changeOf step output
      let own ← workflowsOf (output.bind (·.named? "workflows_to_run"))
      return (change.apply state, own)) := by
    cases output with
    | none => rfl
    | some output =>
      unfold adopt changeOf
      dsimp only [Option.bind_some]
      cases object : isObject output with
      | true =>
        rw [if_pos rfl, if_pos rfl, find?_of_isObject object, adoptObject_eq object]
        cases changeOfObject step output <;> rfl
      | false =>
        rw [if_neg Bool.false_ne_true, if_neg Bool.false_ne_true, named?_of_not_isObject object]
        cases output.isNull with
        | true => rfl
        | false => cases stateKey step <;> rfl
  unfold process
  rw [adopted, payload]
  cases changeOf step output with
  | error _ => rfl
  | ok change => cases workflowsOf (output.bind (·.named? "workflows_to_run")) <;> rfl

/-- What a step with its output comes to, whatever the state: a change, and the workflows that the output declares,
followed by those that the payload declares. -/
structure Overlays (step : Step) (output : Option Value) (change : Change) (workflows : List Workflow) : Prop where
  change : Changes step output change
  workflows : ∃ items own items' more, Declares output items ∧ Decoded items own ∧
    Declares (some step.payload) items' ∧ Decoded items' more ∧ workflows = own ++ more

/-- A failure of a step with its output: to decode what they say, or to decode a workflow that they declare. -/
def Refuses (step : Step) (output : Option Value) (f : Failure) : Prop :=
  f.family? = some .decode ∨ ∃ v ∈ [output, some step.payload], ∃ items, Declares v items ∧
    ∃ item ∈ items, Workflow.ofWire (.value item) = .error f

theorem process_ok_iff (state : State) (step : Step) (output : Option Value) (t : Transition) :
    process state step output = .ok t ↔
      ∃ change, Overlays step output change t.workflows ∧ t.newState = change.apply state := by
  rw [process_eq]
  constructor
  · intro made
    obtain ⟨change, changed, made⟩ := bind_eq_ok made
    obtain ⟨own, declared, made⟩ := bind_eq_ok made
    obtain ⟨more, scheduled, made⟩ := bind_eq_ok made
    cases made
    obtain ⟨items, listed, decoded⟩ := (workflowsOf_iff output own).mp declared
    obtain ⟨items', listed', decoded'⟩ := (workflowsOf_iff (some step.payload) more).mp scheduled
    exact ⟨change, ⟨(changeOf_iff _ _ _).mp changed, items, own, items', more, listed, decoded, listed', decoded', rfl⟩,
      rfl⟩
  · rintro ⟨change, ⟨changed, items, own, items', more, listed, decoded, listed', decoded', workflows⟩, newState⟩
    have declared := (workflowsOf_iff output own).mpr ⟨items, listed, decoded⟩
    have scheduled := (workflowsOf_iff (some step.payload) more).mpr ⟨items', listed', decoded'⟩
    rw [Option.bind_some] at scheduled
    rw [(changeOf_iff _ _ _).mpr changed, declared, scheduled]
    obtain ⟨new, ws⟩ := t
    cases workflows
    cases newState
    rfl

/-- A step with an output that fails in one state fails in every state, in the same way. -/
theorem process_error {state : State} {step : Step} {output : Option Value} {f : Failure}
    (fails : process state step output = .error f) :
    Refuses step output f ∧ ∀ state', process state' step output = .error f := by
  rw [process_eq] at fails
  simp only [process_eq]
  cases changed : changeOf step output with
  | error f' =>
    rw [changed] at fails
    cases fails
    exact ⟨.inl (decodesOnly_changeOf step output f changed), fun _ => rfl⟩
  | ok change =>
    rw [changed] at fails
    cases declared : workflowsOf (output.bind (·.named? "workflows_to_run")) with
    | error f' =>
      rw [declared] at fails
      cases fails
      exact ⟨(workflowsOf_error declared).imp_right fun refused => ⟨output, by simp, refused⟩, fun _ => rfl⟩
    | ok own =>
      rw [declared] at fails
      cases scheduled : workflowsOf (step.payload.named? "workflows_to_run") with
      | error f' =>
        rw [scheduled] at fails
        cases fails
        exact ⟨(workflowsOf_error (v := some step.payload) scheduled).imp_right fun refused =>
          ⟨some step.payload, by simp, refused⟩, fun _ => rfl⟩
      | ok more =>
        rw [scheduled] at fails
        cases fails

/-- A step with an output comes to the same in every state. -/
theorem process_cases (step : Step) (output : Option Value) :
    (∃ f, Refuses step output f ∧ ∀ state, process state step output = .error f) ∨
      ∃ change workflows, Overlays step output change workflows ∧
        ∀ state, process state step output = .ok ⟨change.apply state, workflows⟩ := by
  cases outcome : process Fields.empty step output with
  | error f => exact .inl ⟨f, process_error outcome⟩
  | ok t =>
    obtain ⟨change, overlays, -⟩ := (process_ok_iff _ _ _ _).mp outcome
    exact .inr ⟨change, t.workflows, overlays, fun state => (process_ok_iff _ _ _ _).mpr ⟨change, overlays, rfl⟩⟩

/-- Processing a step with an output a second time changes nothing. -/
theorem process_newState {state : State} {step : Step} {output : Option Value} {t : Transition}
    (made : process state step output = .ok t) : process t.newState step output = .ok t := by
  obtain ⟨change, overlays, newState⟩ := (process_ok_iff _ _ _ _).mp made
  exact (process_ok_iff _ _ _ _).mpr ⟨change, overlays, by rw [newState, change.apply_apply]⟩

/-! ## Sequences -/

/-- The state after processing steps with their outputs one after another. -/
def processAll (state : State) : List (Step × Option Value) → Except Failure State
  | [] => .ok state
  | (step, output) :: rest => do processAll (← process state step output).newState rest

/-- A sequence that is processed lays its changes over the state one after another. -/
theorem exists_changes_of_processAll {state final : State} {moves : List (Step × Option Value)}
    (made : processAll state moves = .ok final) :
    ∃ changes, List.Forall₂ (fun move change => Changes move.1 move.2 change) moves changes ∧
      final = changes.foldl (fun state change => change.apply state) state := by
  induction moves generalizing state with
  | nil =>
    cases made
    exact ⟨[], .nil, rfl⟩
  | cons move rest ih =>
    obtain ⟨t, first, made⟩ := bind_eq_ok made
    obtain ⟨change, overlays, newState⟩ := (process_ok_iff _ _ _ _).mp first
    obtain ⟨changes, all, rfl⟩ := ih made
    exact ⟨change :: changes, .cons overlays.change all, by rw [List.foldl_cons, newState]⟩

/-- A step with an output comes to the same in every state: it is refused, or lays a change over the state and
schedules workflows.  What is written keeps every key in its place and every other value, and new keys go to the end;
doing it twice is doing it once; and after a sequence every key has what the last change that decides about it gives
it, and the value it had before where none does. -/
theorem processing_overlays :
    (∀ step output,
      (∃ f, Refuses step output f ∧ ∀ state, process state step output = .error f) ∨
        ∃ change workflows, Overlays step output change workflows ∧
          ∀ state, process state step output = .ok ⟨change.apply state, workflows⟩) ∧
    (∀ state written,
      ((Change.write written).apply state).entries =
        state.entries.map (fun e => (e.1, (written.get? e.1).getD e.2)) ++
          written.entries.filter (fun e => !state.keys.contains e.1)) ∧
    (∀ state step output t, process state step output = .ok t → process t.newState step output = .ok t) ∧
    ∀ state moves final, processAll state moves = .ok final →
      ∃ changes, List.Forall₂ (fun move change => Changes move.1 move.2 change) moves changes ∧
        ∀ key, final.get? key = (changes.reverse.findSome? (Change.decides key)).getD (state.get? key) := by
  refine ⟨process_cases, Fields.entries_update, fun _ _ _ _ => process_newState, fun state moves final made => ?_⟩
  obtain ⟨changes, all, rfl⟩ := exists_changes_of_processAll made
  exact ⟨changes, all, Change.get?_foldl_apply changes state⟩

/-- A text that is stored, a receipt whose fields are merged, a state of its own, a text under the key of another, and a
step without an output. -/
def tidyMoves : List (Step × Option Value) :=
  let two := Value.number "$" (.int 2)
  let receipt := Value.object "$" (.ofList [("cart", two), ("total", two)])
  let merging := Value.object "$" (.single "mergeState" (.bool "$" true))
  let keyed := Value.object "$" (.single "state_key" (.text "$" "cart"))
  [(⟨"cart", .null, .empty, by decide⟩, some (.text "$" "tea")), (⟨"pay", merging, .empty, by decide⟩, some receipt),
    (⟨"clear", .null, .empty, by decide⟩, some (.object "$" (.single "new_state" receipt))),
    (⟨"note", keyed, .empty, by decide⟩, some (.text "$" "milk")), (⟨"rest", .null, .empty, by decide⟩, none)]

theorem tidyMoves_overlay : ∃ final, processAll .empty tidyMoves = .ok final ∧ final.keys = ["cart", "total"] ∧
    final.get? "cart" = some (.text "$" "milk") ∧
    ∃ changes, List.Forall₂ (fun move change => Changes move.1 move.2 change) tidyMoves changes ∧
      ∀ key, final.get? key = (changes.reverse.findSome? (Change.decides key)).getD none :=
  ⟨_, rfl, rfl, rfl, processing_overlays.2.2.2 .empty tidyMoves _ rfl⟩

end Processing

end Stepflow
