import Mathlib.Data.List.Forall2
import Stepflow.Workflow
import Stepflow.Proofs.FieldNames
import Stepflow.Proofs.Freezing
import Stepflow.Proofs.Json.Sameness

/-!
# Stepflow.Proofs.Wire — what is read, written and read again

Steps, guards and workflows are written as documents that are read as the same parts again (`Step.ofWire_toWire`,
`Condition.ofWire_toWire`, `Workflow.ofWire_toWire`).  Three things differ after the second reading: a value stands at
the path where it was read, a guard with an expected value has forgotten its presence, and a name is in snake case
already.  The second writing differs in nothing.

* `Workflow.reading_of_ofWire`: both readings of a document side by side, and where its fields are in the writing.
-/

namespace Stepflow

open FieldName (InSnake lastUnder entriesOf)

/-! ## Steps -/

namespace Step

/-- The fields of a document that a step understands. -/
def knownFields : List String := ["type", "payload"]

/-- The step as it is read from its document: the payload stands at the root. -/
def reread (s : Step) : Step := { s with payload := s.payload.relocate Value.rootPath }

/-- What was not understood is kept under names in snake case that have no meaning for a step. -/
structure Decoded (s : Step) : Prop where
  inSnake : InSnake s.extra
  unknown : ∀ name ∈ knownFields, name ∉ s.extra.keys

theorem extra_of_make {stepType payload : Datum} {extra : Fields Datum} {s : Step}
    (h : make stepType payload extra = .ok s) : s.extra = extra := by
  unfold make at h
  split at h
  · split at h
    · obtain ⟨v, -, rfl⟩ := map_eq_ok h
      rfl
    · cases h
  · cases h

theorem ofWire_inv {d : Datum} {s : Step} (h : ofWire d = .ok s) :
    ∃ fields, FieldName.ofRecord "step object" d = .ok fields ∧ s.extra = knownFields.foldl Fields.erase fields := by
  obtain ⟨fields, record, h⟩ := bind_eq_ok h
  refine ⟨fields, record, ?_⟩
  cases stepType : fields.get? "type" with
  | none =>
    rw [stepType] at h
    cases h
  | some t =>
    rw [stepType] at h
    obtain ⟨payload, -, made⟩ := bind_eq_ok h
    exact extra_of_make made

theorem decoded_of_ofWire {d : Datum} {s : Step} (h : ofWire d = .ok s) : s.Decoded := by
  obtain ⟨fields, record, extra⟩ := ofWire_inv h
  have inSnake := FieldName.inSnake_of_normalize (FieldName.normalize_of_ofRecord record)
  refine ⟨extra ▸ inSnake.foldl_erase knownFields, fun name known mem => ?_⟩
  rw [extra, Fields.mem_keys_foldl_erase] at mem
  exact mem.2 known

theorem inSnake_wireFields {s : Step} (h : s.Decoded) : InSnake s.wireFields :=
  (h.inSnake.insert (by decide +kernel) _).insert (by decide +kernel) _

/-- **A step that was read is written as a document that is read as the same step.** -/
theorem ofWire_toWire {s : Step} (h : s.Decoded) : ofWire s.toWire = .ok s.reread := by
  have stepType : s.wireFields.get? "type" = some (.text s.stepType) := by
    rw [wireFields, Fields.get?_insert, if_neg (by decide), Fields.get?_insert, if_pos rfl]
  have payload : s.wireFields.get? "payload" = some s.payload.toDatum := by
    rw [wireFields, Fields.get?_insert, if_pos rfl]
  have extra : (s.wireFields.erase "type").erase "payload" = s.extra := by
    show knownFields.foldl Fields.erase s.wireFields = s.extra
    rw [wireFields, Fields.foldl_erase_insert (by decide), Fields.foldl_erase_insert (by decide)]
    exact Fields.foldl_erase_of_disjoint h.unknown
  unfold ofWire toWire
  rw [FieldName.ofRecord_ofTextFields _ (inSnake_wireFields h)]
  dsimp only [bind, Except.bind]
  rw [stepType, payload, extra]
  dsimp only
  rw [Option.getD_some, Value.wrap_toDatum]
  dsimp only [make]
  rw [dif_pos s.named]
  rfl

theorem same_reread (s : Step) : s.reread.same s = true := by
  have payload : s.payload.json.same s.payload.json = true := Json.same_self s.payload.distinct
  simp [same, reread, Value.same, Value.relocate, payload]

/-- What a step does not understand is written as it was read. -/
theorem get?_wireFields_of_ofWire {d : Datum} {s : Step} (h : ofWire d = .ok s) {name : String}
    (unknown : name ∉ knownFields) : s.wireFields.get? name = lastUnder name (entriesOf d) := by
  obtain ⟨fields, record, extra⟩ := ofWire_inv h
  obtain ⟨not_type, not_payload⟩ : name ≠ "type" ∧ name ≠ "payload" := by
    simpa [knownFields] using unknown
  rw [wireFields, Fields.get?_insert, if_neg not_payload, Fields.get?_insert, if_neg not_type, extra,
    Fields.get?_foldl_erase, if_neg unknown]
  exact FieldName.get?_of_normalize (FieldName.normalize_of_ofRecord record) name

end Step

/-! ## Guards -/

namespace Condition

/-- The guard as it is read from its document: beside an expected value no presence is written. -/
def reread (c : Condition) : Condition :=
  match c.expected with
  | some v => ⟨c.key, some (v.relocate Value.rootPath), true⟩
  | none => c

/-- A guard is read from three fields, one after another. -/
theorem ofWire_of_fields {d : Datum} {fields : Fields Datum} {key : String} {expected : Option Value} {presence : Bool}
    (record : FieldName.ofRecord "condition object" d = .ok fields) (hkey : fields.get? "key" = some (.text key))
    (hexpected : (fields.get? "equals").map Value.wrap = expected.map Except.ok)
    (hpresence : (fields.get? "exists").getD (.bool true) = .bool presence) :
    ofWire d = .ok ⟨key, expected, presence⟩ := by
  unfold ofWire
  rw [record]
  dsimp only [bind, Except.bind]
  rw [hkey]
  dsimp only
  rw [hpresence]
  cases found : fields.get? "equals" with
  | none =>
    rw [found] at hexpected
    cases expected with
    | none => rfl
    | some v => cases hexpected
  | some e =>
    rw [found] at hexpected
    cases expected with
    | none => cases hexpected
    | some v =>
      have wrapped : Value.wrap e = .ok v := Option.some.inj hexpected
      dsimp only
      rw [wrapped]
      rfl

/-- **A guard is written as a document that is read as the same guard.** -/
theorem ofWire_toWire (c : Condition) : ofWire c.toWire = .ok c.reread := by
  obtain ⟨key, expected, presence⟩ := c
  have key_eq : FieldName.toSnake "key" = "key" := by decide +kernel
  have equals_eq : FieldName.toSnake "equals" = "equals" := by decide +kernel
  have exists_eq : FieldName.toSnake "exists" = "exists" := by decide +kernel
  cases expected with
  | some v =>
    have record : FieldName.ofRecord "condition object" (toWire ⟨key, some v, presence⟩) =
        .ok ((Fields.empty.insert "key" (.text key)).insert "equals" v.toDatum) := by
      simp only [toWire, FieldName.ofRecord, FieldName.normalize, FieldName.normalizeOver, key_eq, equals_eq]
    refine ofWire_of_fields record ?_ ?_ ?_
    · simp [Fields.get?_insert]
    · simp [Fields.get?_insert, Value.wrap_toDatum]
    · simp [Fields.get?_insert]
  | none =>
    have record : FieldName.ofRecord "condition object" (toWire ⟨key, none, presence⟩) =
        .ok ((Fields.empty.insert "key" (.text key)).insert "exists" (.bool presence)) := by
      simp only [toWire, FieldName.ofRecord, FieldName.normalize, FieldName.normalizeOver, key_eq, exists_eq]
    refine ofWire_of_fields record ?_ ?_ ?_
    · simp [Fields.get?_insert]
    · simp [Fields.get?_insert]
    · simp [Fields.get?_insert]

theorem toWire_reread (c : Condition) : c.reread.toWire = c.toWire := by
  obtain ⟨key, expected, presence⟩ := c
  cases expected <;> rfl

/-- A guard holds where it held: with an expected value its presence does not count. -/
theorem holds_reread (c : Condition) (state : State) : c.reread.holds state = c.holds state := by
  obtain ⟨key, expected, presence⟩ := c
  cases expected <;> rfl

theorem same_reread (c : Condition) : c.reread.same c = true ↔ (c.expected.isSome = true → c.presence = true) := by
  obtain ⟨key, expected, presence⟩ := c
  cases expected with
  | none => simp [reread, same]
  | some v =>
    have value : v.json.same v.json = true := Json.same_self v.distinct
    cases presence <;> simp [reread, same, Value.same, Value.relocate, value]

/-- Two guards ask the same: key and expected value are the same, and where no value is expected the presence. -/
structure Agrees (c d : Condition) : Prop where
  key : c.key = d.key
  expected : c.expected.map Value.json = d.expected.map Value.json
  presence : d.expected = none → c.presence = d.presence

theorem agrees_reread (c : Condition) : c.reread.Agrees c := by
  obtain ⟨key, expected, presence⟩ := c
  cases expected with
  | none => exact ⟨rfl, rfl, fun _ => rfl⟩
  | some v => exact ⟨rfl, rfl, nofun⟩

end Condition

/-! ## Fields that may be missing -/

namespace Fields

variable {α : Type}

/-- Write a field if there is something to write. -/
def insert? (m : Fields α) (k : String) : Option α → Fields α
  | some a => m.insert k a
  | none => m

theorem get?_insert? (m : Fields α) (k j : String) (a? : Option α) :
    (m.insert? k a?).get? j = if j = k then a?.or (m.get? k) else m.get? j := by
  cases a? with
  | some a => exact get?_insert m k j a
  | none =>
    show m.get? j = _
    split
    · rename_i eq
      rw [eq, Option.none_or]
    · rfl

theorem foldl_erase_insert? {names : List String} {k : String} (h : k ∈ names) (m : Fields α) (a? : Option α) :
    names.foldl erase (m.insert? k a?) = names.foldl erase m := by
  cases a? with
  | some a => exact foldl_erase_insert h m a
  | none => rfl

end Fields

theorem FieldName.InSnake.insert? {α : Type} {fields : Fields α} {k : String} (h : InSnake fields)
    (hk : FieldName.toSnake k = k) (a? : Option α) : InSnake (fields.insert? k a?) := by
  cases a? with
  | some a => exact h.insert hk a
  | none => exact h

/-! ## Workflows -/

namespace Workflow

/-- The workflow as it is read from its document. -/
def reread (w : Workflow) : Workflow :=
  { w with
    steps := w.steps.map Step.reread
    condition := w.condition.map Condition.reread
    metadata := w.metadata.located }

/-- What was not understood is kept under names in snake case that have no meaning, here and in every step. -/
structure Decoded (w : Workflow) : Prop where
  steps : ∀ s ∈ w.steps, s.Decoded
  inSnake : InSnake w.extra
  unknown : ∀ name ∈ knownFields, name ∉ w.extra.keys

theorem forall₂_of_stepsOfWire {items : List Datum} {steps : List Step} (h : stepsOfWire items = .ok steps) :
    List.Forall₂ (fun item s => Step.ofWire item = .ok s) items steps := by
  induction items generalizing steps with
  | nil =>
    cases h
    exact .nil
  | cons item rest ih =>
    unfold stepsOfWire at h
    cases first : Step.ofWire item with
    | error f =>
      rw [first] at h
      cases h
    | ok s =>
      rw [first] at h
      dsimp only at h
      cases others : stepsOfWire rest with
      | error f =>
        rw [others] at h
        cases h
      | ok ss =>
        rw [others] at h
        cases h
        exact .cons first (ih others)

theorem stepsOfWire_toWire {steps : List Step} (h : ∀ s ∈ steps, s.Decoded) :
    stepsOfWire (steps.map Step.toWire) = .ok (steps.map Step.reread) := by
  induction steps with
  | nil => rfl
  | cons s rest ih =>
    rw [List.map_cons, stepsOfWire, Step.ofWire_toWire (h s List.mem_cons_self)]
    dsimp only
    rw [ih fun t ht => h t (List.mem_cons_of_mem s ht)]
    rfl

/-- What a workflow takes from the fields of its document. -/
theorem ofWire_inv {d : Datum} {w : Workflow} (h : ofWire d = .ok w) :
    ∃ fields items, FieldName.ofRecord "workflow object" d = .ok fields ∧ fields.get? "steps" = some (.list items) ∧
      stepsOfWire items = .ok w.steps ∧ w.extra = knownFields.foldl Fields.erase fields := by
  obtain ⟨fields, record, h⟩ := bind_eq_ok h
  dsimp only at h
  split at h
  · rename_i items found
    have field : fields.get? "steps" = some (.list items) := by
      cases present : fields.get? "steps" with
      | none =>
        rw [present] at found
        cases found
      | some steps =>
        rw [present] at found
        exact congrArg some found
    obtain ⟨steps, accepted, h⟩ := bind_eq_ok h
    obtain ⟨condition, -, h⟩ := bind_eq_ok h
    obtain ⟨metadata, -, h⟩ := bind_eq_ok h
    cases h
    exact ⟨fields, items, record, field, accepted, rfl⟩
  · cases h

theorem decoded_of_ofWire {d : Datum} {w : Workflow} (h : ofWire d = .ok w) : w.Decoded := by
  obtain ⟨fields, items, record, -, steps, extra⟩ := ofWire_inv h
  have inSnake := FieldName.inSnake_of_normalize (FieldName.normalize_of_ofRecord record)
  have accepted : List.Forall₂ (fun s item => s.Decoded ∧ Step.ofWire item = .ok s) w.steps items :=
    (forall₂_of_stepsOfWire steps).flip.imp fun s item h => ⟨Step.decoded_of_ofWire h, h⟩
  refine ⟨?_, extra ▸ inSnake.foldl_erase knownFields, fun name known mem => ?_⟩
  · exact ((List.forall₂_and_left _ _).mp accepted).1
  · rw [extra, Fields.mem_keys_foldl_erase] at mem
    exact mem.2 known

/-- The name as a field, unless it is null. -/
def nameField? (w : Workflow) : Option Datum :=
  match w.name with
  | .null => none
  | name => some name

/-- The metadata as a field, unless there are none. -/
def metadataField? (w : Workflow) : Option Datum :=
  if w.metadata.isEmpty then none else some (State.thaw w.metadata)

theorem wireFields_eq (w : Workflow) :
    w.wireFields = (((w.extra.insert "steps" (.list (w.steps.map Step.toWire))).insert? "name" w.nameField?).insert?
      "condition" (w.condition.map Condition.toWire)).insert? "metadata" w.metadataField? := by
  have last : ∀ m : Fields Datum, (if w.metadata.isEmpty then m else m.insert "metadata" (State.thaw w.metadata)) =
      m.insert? "metadata" w.metadataField? := by
    intro m
    unfold metadataField?
    by_cases none_left : w.metadata.isEmpty = true
    · rw [if_pos none_left, if_pos none_left]
      rfl
    · rw [if_neg none_left, if_neg none_left]
      rfl
  obtain ⟨steps, name, condition, data, extra⟩ := w
  cases name <;> cases condition <;> exact last _

theorem inSnake_wireFields {w : Workflow} (h : w.Decoded) : InSnake w.wireFields := by
  rw [wireFields_eq]
  refine FieldName.InSnake.insert? (FieldName.InSnake.insert? (FieldName.InSnake.insert? ?_ ?_ _) ?_ _) ?_ _
  · exact h.inSnake.insert (by decide +kernel) _
  · decide +kernel
  · decide +kernel
  · decide +kernel

theorem erase_wireFields {w : Workflow} (h : w.Decoded) : knownFields.foldl Fields.erase w.wireFields = w.extra := by
  rw [wireFields_eq, Fields.foldl_erase_insert? (by decide), Fields.foldl_erase_insert? (by decide),
    Fields.foldl_erase_insert? (by decide), Fields.foldl_erase_insert (by decide)]
  exact Fields.foldl_erase_of_disjoint h.unknown

theorem get?_extra {w : Workflow} (h : w.Decoded) {name : String} (known : name ∈ knownFields) :
    w.extra.get? name = none := by
  have absent : ¬ w.extra.contains name = true := by
    rw [Fields.contains_iff]
    exact h.unknown name known
  simpa [Fields.contains] using absent

theorem get?_wireFields_steps (w : Workflow) :
    w.wireFields.get? "steps" = some (.list (w.steps.map Step.toWire)) := by
  simp [wireFields_eq, Fields.get?_insert?, Fields.get?_insert]

theorem get?_wireFields_name {w : Workflow} (h : w.Decoded) : w.wireFields.get? "name" = w.nameField? := by
  simp [wireFields_eq, Fields.get?_insert?, Fields.get?_insert, get?_extra h (by decide : "name" ∈ knownFields)]

theorem get?_wireFields_condition {w : Workflow} (h : w.Decoded) :
    w.wireFields.get? "condition" = w.condition.map Condition.toWire := by
  simp [wireFields_eq, Fields.get?_insert?, Fields.get?_insert, get?_extra h (by decide : "condition" ∈ knownFields)]

theorem get?_wireFields_metadata {w : Workflow} (h : w.Decoded) : w.wireFields.get? "metadata" = w.metadataField? := by
  simp [wireFields_eq, Fields.get?_insert?, Fields.get?_insert, get?_extra h (by decide : "metadata" ∈ knownFields)]

theorem getD_nameField? (w : Workflow) : w.nameField?.getD .null = w.name := by
  unfold nameField?
  split
  · rename_i null
    exact null.symm
  · rfl

theorem conditionOfWire_toWire (condition : Option Condition) :
    conditionOfWire ((condition.map Condition.toWire).getD .null) = .ok (condition.map Condition.reread) := by
  cases condition with
  | none => rfl
  | some c =>
    have table : ∃ entries, c.toWire = .table entries := by
      unfold Condition.toWire
      split
      · exact ⟨_, rfl⟩
      · exact ⟨_, rfl⟩
    obtain ⟨entries, eq⟩ := table
    have accepted := Condition.ofWire_toWire c
    rw [eq] at accepted
    rw [Option.map_some, Option.getD_some, eq, conditionOfWire, accepted]
    · rfl
    · nofun

theorem freeze_metadataField? (w : Workflow) : State.freeze (w.metadataField?.getD .null) = .ok w.metadata.located := by
  unfold metadataField?
  split
  · rename_i none_left
    have entries_eq : w.metadata.entries = [] := by
      simpa [Fields.isEmpty] using none_left
    refine congrArg Except.ok (Fields.ext ?_)
    simp [State.located, entries_eq, Fields.empty]
  · exact State.freeze_thaw w.metadata

/-- **A workflow that was read is written as a document that is read as the same workflow.** -/
theorem ofWire_toWire {w : Workflow} (h : w.Decoded) : ofWire w.toWire = .ok w.reread := by
  unfold ofWire toWire
  rw [FieldName.ofRecord_ofTextFields _ (inSnake_wireFields h)]
  dsimp only [bind, Except.bind]
  rw [get?_wireFields_steps, get?_wireFields_name h, get?_wireFields_condition h, get?_wireFields_metadata h,
    getD_nameField?, conditionOfWire_toWire, freeze_metadataField?, erase_wireFields h]
  dsimp only [Option.getD_some]
  rw [stepsOfWire_toWire h.steps]
  rfl

theorem toWire_reread (w : Workflow) : w.reread.toWire = w.toWire := by
  have steps : w.reread.steps.map Step.toWire = w.steps.map Step.toWire := by
    show (w.steps.map Step.reread).map Step.toWire = w.steps.map Step.toWire
    rw [List.map_map]
    rfl
  have condition : w.reread.condition.map Condition.toWire = w.condition.map Condition.toWire := by
    show (w.condition.map Condition.reread).map Condition.toWire = w.condition.map Condition.toWire
    rw [Option.map_map]
    exact congrFun (congrArg Option.map (funext Condition.toWire_reread)) w.condition
  have metadata : w.reread.metadataField? = w.metadataField? := by
    have thawed : State.thaw w.metadata.located = State.thaw w.metadata := State.thaw_located w.metadata
    show (if (w.metadata.located).isEmpty then none else some (State.thaw w.metadata.located)) = w.metadataField?
    rw [thawed, State.isEmpty_located]
    rfl
  unfold toWire
  rw [wireFields_eq, wireFields_eq, steps, condition, metadata]
  rfl

theorem shouldRun_reread (w : Workflow) (state : State) : w.reread.shouldRun state = w.shouldRun state := by
  unfold shouldRun reread
  cases w.condition with
  | none => rfl
  | some c => exact Condition.holds_reread c state

/-- Read again a workflow is the same, unless its guard expects a value and was declared for an absent key. -/
theorem same_reread (w : Workflow) :
    w.reread.same w = true ↔
      ∀ c, w.condition = some c → c.expected.isSome = true → c.presence = true := by
  have steps : ((w.steps.map Step.reread).zip w.steps).all (fun p => p.1.same p.2) = true := by
    induction w.steps with
    | nil => rfl
    | cons s rest ih => rw [List.map_cons, List.zip_cons_cons, List.all_cons, Step.same_reread, ih, Bool.true_and]
  have metadata : w.metadata.located.same w.metadata = true := State.same_located w.metadata
  unfold same reread
  simp only [List.length_map, beq_self_eq_true, steps, metadata, Bool.and_true, Bool.true_and]
  cases w.condition with
  | none => simp
  | some c => simpa using Condition.same_reread c

/-- What a workflow does not understand is written as it was read. -/
theorem get?_wireFields_of_ofWire {d : Datum} {w : Workflow} (h : ofWire d = .ok w) {name : String}
    (unknown : name ∉ knownFields) : w.wireFields.get? name = lastUnder name (entriesOf d) := by
  obtain ⟨fields, items, record, -, -, extra⟩ := ofWire_inv h
  obtain ⟨not_steps, not_name, not_condition, not_metadata⟩ :
      name ≠ "steps" ∧ name ≠ "name" ∧ name ≠ "condition" ∧ name ≠ "metadata" := by
    simpa [knownFields] using unknown
  rw [wireFields_eq, Fields.get?_insert?, if_neg not_metadata, Fields.get?_insert?, if_neg not_condition,
    Fields.get?_insert?, if_neg not_name, Fields.get?_insert, if_neg not_steps, extra, Fields.get?_foldl_erase,
    if_neg unknown]
  exact FieldName.get?_of_normalize (FieldName.normalize_of_ofRecord record) name

/-- Two workflows have the same parts, wherever their values stand, and guards that ask the same. -/
structure SameParts (v w : Workflow) : Prop where
  stepTypes : v.steps.map Step.stepType = w.steps.map Step.stepType
  payloads : v.steps.map (fun s => s.payload.json) = w.steps.map (fun s => s.payload.json)
  stepExtras : v.steps.map Step.extra = w.steps.map Step.extra
  name : v.name = w.name
  condition : Option.Rel Condition.Agrees v.condition w.condition
  metadata : v.metadata.map Value.json = w.metadata.map Value.json
  extra : v.extra = w.extra

theorem sameParts_reread (w : Workflow) : w.reread.SameParts w where
  stepTypes := List.map_map
  payloads := List.map_map
  stepExtras := List.map_map
  name := rfl
  condition := by
    show Option.Rel Condition.Agrees (w.condition.map Condition.reread) w.condition
    cases w.condition with
    | none => exact .none
    | some c => exact .some (Condition.agrees_reread c)
  metadata := State.map_json_located w.metadata
  extra := rfl

/-- **Reading a document, writing it and reading that.**  A workflow `w` that is read from a document is written as a
document that is read too, as a workflow with the same parts that is written in the same way and runs in the same
states.  The two are equal unless the guard of `w` expects a value and was declared for an absent key.  A field without
a meaning stands in the writing under its name in snake case, with the value of the last field of that name in the
document, and so it is with every step. -/
theorem reading_of_ofWire {d : Datum} {w : Workflow} (h : ofWire d = .ok w) :
    ∃ v, ofWire w.toWire = .ok v ∧ v.SameParts w ∧ v.toWire = w.toWire ∧
      (v.same w = true ↔ ¬ ∃ c, w.condition = some c ∧ c.expected.isSome = true ∧ c.presence = false) ∧
      (∀ state, v.shouldRun state = w.shouldRun state) ∧
      (∀ name, name ∉ knownFields → w.wireFields.get? name = lastUnder name (entriesOf d)) ∧
      ∃ items, lastUnder "steps" (entriesOf d) = some (.list items) ∧
        w.wireFields.get? "steps" = some (.list (w.steps.map Step.toWire)) ∧
        List.Forall₂ (fun item s => ∀ name, name ∉ Step.knownFields →
          s.wireFields.get? name = lastUnder name (entriesOf item)) items w.steps := by
  obtain ⟨fields, items, record, found, steps, -⟩ := ofWire_inv h
  have same : w.reread.same w = true ↔
      ¬ ∃ c, w.condition = some c ∧ c.expected.isSome = true ∧ c.presence = false := by
    rw [same_reread]
    simp only [not_exists, not_and, Bool.not_eq_false]
  have stepsField : lastUnder "steps" (entriesOf d) = some (.list items) := by
    rw [← FieldName.get?_of_normalize (FieldName.normalize_of_ofRecord record), found]
  exact ⟨w.reread, ofWire_toWire (decoded_of_ofWire h), sameParts_reread w, toWire_reread w, same, shouldRun_reread w,
    fun _ unknown => get?_wireFields_of_ofWire h unknown, items, stepsField, get?_wireFields_steps w,
    (forall₂_of_stepsOfWire steps).imp fun _ _ accepted _ unknown => Step.get?_wireFields_of_ofWire accepted unknown⟩

/-- A document in camel case that names a field twice, with a guard that expects null of an absent key. -/
def guardedDocument : Datum :=
  .table [(.text "retryCount", .int 1),
    (.text "steps", .list [.table [(.text "type", .text "log"), (.text "dryRun", .bool true)]]),
    (.text "condition", .table [(.text "key", .text "done"), (.text "equals", .null), (.text "exists", .bool false)]),
    (.text "retry_count", .int 2)]

/-- The workflow of that document. -/
def guardedWorkflow : Workflow where
  steps := [⟨"log", .null, Fields.ofList [("dry_run", .bool true)], by decide⟩]
  name := .null
  condition := some ⟨"done", some .null, false⟩
  metadata := Fields.empty
  extra := Fields.ofList [("retry_count", .int 2)]

theorem guardedWorkflow_reading : ofWire guardedDocument = .ok guardedWorkflow ∧
    ∃ v, ofWire guardedWorkflow.toWire = .ok v ∧ v.same guardedWorkflow = false ∧
      (∀ state, v.shouldRun state = guardedWorkflow.shouldRun state) ∧
      guardedWorkflow.wireFields.get? "retry_count" = lastUnder "retry_count" (entriesOf guardedDocument) := by
  have accepted : ofWire guardedDocument = .ok guardedWorkflow := by rfl
  obtain ⟨v, second, -, -, same, runs, fields, -⟩ := reading_of_ofWire accepted
  refine ⟨accepted, v, second, ?_, runs, fields "retry_count" (by decide)⟩
  rw [← Bool.not_eq_true, same, not_not]
  exact ⟨_, rfl, rfl, rfl⟩

end Workflow

end Stepflow
