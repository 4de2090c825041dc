import Stepflow.Proofs.Equality
import Stepflow.Proofs.Overlay
import Stepflow.Proofs.Routes

/-!
# Stepflow.Proofs.Decoders — a new state and workflows to run are decoded alike by processing and from a document

An output with a new state of its own is taken apart by `Processing.process`, which looks its fields up by either
spelling; the same fields make a document that `Transition.ofWire` decodes after normalizing all keys.

* `Agree`: two computations succeed with related results, or fail with failures of one class.
* `ofRecord_toDatum`, `Workflow.ofWire_agree`: a record is read alike from a value and from its plain data.
* `get?_of_spelledOnce`: where a name is spelled once, the normalized fields hold under it what the lookup by either
  spelling finds.
* `process_agrees_ofWire`: both decoders agree on every output with a new state.
-/

namespace Stepflow

/-! ## Agreement of computations -/

/-- Failures of one class: the same failure, or two failures to decode. -/
def Failure.SameClass (f g : Failure) : Prop := f = g ∨ f.family? = some .decode ∧ g.family? = some .decode

/-- Both computations succeed with related results, or both fail with failures of one class. -/
def Agree {α β : Type} (R : α → β → Prop) : Except Failure α → Except Failure β → Prop
  | .ok a, .ok b => R a b
  | .error f, .error g => f.SameClass g
  | _, _ => False

namespace Agree

variable {α β γ δ : Type} {R : α → β → Prop} {S : γ → δ → Prop}

theorem of_eq {x y : Except Failure α} (h : x = y) : Agree Eq x y := by
  subst h
  cases x with
  | ok a => rfl
  | error f => exact .inl rfl

theorem bind {x : Except Failure α} {y : Except Failure β} {f : α → Except Failure γ} {g : β → Except Failure δ}
    (h : Agree R x y) (hfg : ∀ a b, R a b → Agree S (f a) (g b)) : Agree S (x >>= f) (y >>= g) := by
  cases x with
  | error e => cases y with
    | error e' => exact h
    | ok b => exact h.elim
  | ok a => cases y with
    | error e' => exact h.elim
    | ok b => exact hfg a b h

end Agree

/-! ## Records from values and from plain data -/

/-- The fields of an object are the same record as its plain data. -/
theorem FieldName.ofRecord_toDatum (what : String) {v : Value} {fields : Fields Value} (object : v.fields? = some fields) :
    ofRecord what (.value v) = ofRecord what v.toDatum := by
  obtain ⟨path, json, distinct⟩ := v
  cases json with
  | object members => rfl
  | _ => cases object

/-- What is no object is no record, neither as a value nor as plain data. -/
theorem FieldName.ofRecord_refused (what : String) {v : Value} (plain : v.fields? = none) :
    (∃ f, ofRecord what (.value v) = .error f ∧ f.family? = some .decode) ∧
      ∃ f, ofRecord what v.toDatum = .error f ∧ f.family? = some .decode := by
  obtain ⟨path, json, distinct⟩ := v
  cases json with
  | object members => cases plain
  | number n => cases n <;> exact ⟨⟨_, rfl, rfl⟩, ⟨_, rfl, rfl⟩⟩
  | _ => exact ⟨⟨_, rfl, rfl⟩, ⟨_, rfl, rfl⟩⟩

/-- A workflow is decoded alike from a value and from its plain data. -/
theorem Workflow.ofWire_agree (v : Value) : Agree Eq (ofWire (.value v)) (ofWire v.toDatum) := by
  cases object : v.fields? with
  | some fields =>
    refine .of_eq ?_
    unfold ofWire
    rw [FieldName.ofRecord_toDatum _ object]
  | none =>
    obtain ⟨⟨f, fails, decoding⟩, ⟨g, fails', decoding'⟩⟩ := FieldName.ofRecord_refused "workflow object" object
    unfold ofWire
    rw [fails, fails']
    exact .inr ⟨decoding, decoding'⟩

namespace Transition

/-- Workflows one after another are decoded alike from values and from their plain data. -/
theorem workflowsOfWire_agree (items : List Value) :
    Agree Eq (workflowsOfWire (items.map .value)) (workflowsOfWire (items.map Value.toDatum)) := by
  induction items with
  | nil => exact .of_eq rfl
  | cons item rest ih =>
    have step (first : Datum) (more : List Datum) : workflowsOfWire (first :: more) =
        (Workflow.ofWire first >>= fun w => workflowsOfWire more >>= fun ws => .ok (w :: ws)) := by
      rw [workflowsOfWire]
      cases Workflow.ofWire first with
      | error _ => rfl
      | ok w => cases workflowsOfWire more <;> rfl
    rw [List.map_cons, List.map_cons, step, step]
    refine (Workflow.ofWire_agree item).bind ?_
    rintro w _ rfl
    refine ih.bind ?_
    rintro ws _ rfl
    exact .of_eq rfl

/-- The workflows of a list are those of its items. -/
theorem scheduledOfWire_list (items : List Datum) : scheduledOfWire (.list items) = workflowsOfWire items := by
  cases items with
  | nil => rfl
  | cons item rest =>
    unfold scheduledOfWire
    rw [if_neg (by simp [Datum.isVacant]), Datum.itemsOf]
    change (workflowsOfWire (item :: rest) >>= fun workflows => .ok workflows) = _
    cases workflowsOfWire (item :: rest) <;> rfl

/-- Workflows that are missing, null or an array are decoded alike from the field and from its plain data. -/
theorem scheduledOfWire_agree {listed : Option Value}
    (fits : ∀ v, listed = some v → v.isNull = true ∨ ∃ items, v.items? = some items) :
    Agree Eq (Processing.workflowsOf listed) (scheduledOfWire ((listed.map Value.toDatum).getD .null)) := by
  cases listed with
  | none => exact .of_eq rfl
  | some v =>
    change Agree Eq _ (scheduledOfWire v.toDatum)
    -- null counts as missing in both decoders
    rcases fits v rfl with null | ⟨items, array⟩
    · have json := (Processing.isNull_iff v).mp null
      have vacant : v.toDatum = .null := by rw [Value.toDatum, json]; rfl
      rw [Processing.workflowsOf, if_pos null, vacant]
      exact .of_eq rfl
    · have notNull : ¬ v.isNull = true := fun null => by
        rw [Processing.items?_of_null ((Processing.isNull_iff v).mp null)] at array
        cases array
      have own : Processing.workflowsOf (some v) = workflowsOfWire (items.map .value) := by
        rw [Processing.workflowsOf, if_neg notNull, Value.asArray_iff.mpr array]
        rfl
      rw [own, Value.toDatum_of_items? array, scheduledOfWire_list]
      exact workflowsOfWire_agree items

end Transition

/-! ## Names that are spelled once -/

namespace FieldName

/-- The fields of an object make a record. -/
theorem exists_ofRecord (what : String) {v : Value} {fields : Fields Value} (object : v.fields? = some fields) :
    ∃ normal, ofRecord what v.toDatum = .ok normal := by
  rw [Value.toDatum_of_fields? object]
  refine exists_normalizeOver (fun e mem => ?_) .empty
  obtain ⟨field, -, rfl⟩ := List.mem_map.mp mem
  exact ⟨field.1, rfl⟩

/-- **Where a name is spelled once, normalizing finds what the lookup by either spelling finds.** -/
theorem get?_of_spelledOnce {what name : String} (own : toSnake name = name) (camel : toSnake (toCamel name) = name)
    {v : Value} {fields : Fields Value} (object : v.fields? = some fields) (once : SpelledOnce name fields.keys)
    {normal : Fields Datum} (record : ofRecord what v.toDatum = .ok normal) :
    normal.get? name = (v.named? name).map Value.toDatum := by
  have entries : entriesOf v.toDatum = (fields.map Value.toDatum).entries.map fun e => (.text e.1, e.2) := by
    rw [Value.toDatum_of_fields? object, entriesOf, Fields.map, List.map_map]
    rfl
  have normalized := normalize_of_ofRecord record
  rw [entries] at normalized
  rw [get?_normalized_of_spelledOnce own camel (by rwa [Fields.keys_map]) normalized, Fields.get?_map, Fields.get?_map,
    ← Option.map_or, Value.named?, object, Option.bind_some]

end FieldName

/-! ## Transitions that are the same -/

theorem Step.same_self (s : Step) : s.same s = true := by
  rw [same, beq_self_eq_true, Bool.true_and]
  exact Json.same_self s.payload.distinct

theorem State.same_of_json {s t : State} (h : s.map Value.json = t.map Value.json) : s.same t = true := by
  have content (state : State) (k : String) : (state.get? k).map Value.content =
      ((state.map Value.json).get? k).map Json.content := by
    rw [Fields.get?_map, Option.map_map]
    rfl
  exact State.same_iff.mpr fun k => by rw [content, content, h]

theorem Workflow.same_self (w : Workflow) : w.same w = true := by
  have steps : (w.steps.zip w.steps).all (fun p => p.1.same p.2) = true := by
    induction w.steps with
    | nil => rfl
    | cons s rest ih => rw [List.zip_cons_cons, List.all_cons, Step.same_self, ih, Bool.true_and]
  have metadata : w.metadata.same w.metadata = true := State.same_of_json rfl
  unfold same
  rw [beq_self_eq_true, beq_self_eq_true, steps, metadata]
  cases w.condition with
  | none => rfl
  | some c =>
    have guard : c.same c = true := Condition.same_iff.mpr ⟨rfl, rfl, rfl⟩
    simp [guard]

namespace Transition

/-- The same state, wherever its values stand, and the very same workflows: transitions that are equal. -/
structure Coincides (s t : Transition) : Prop where
  newState : s.newState.map Value.json = t.newState.map Value.json
  workflows : s.workflows = t.workflows
  same : s.same t = true

theorem coincides {s t : Transition} (newState : s.newState.map Value.json = t.newState.map Value.json)
    (workflows : s.workflows = t.workflows) : s.Coincides t := by
  refine ⟨newState, workflows, ?_⟩
  have all : (t.workflows.zip t.workflows).all (fun p => p.1.same p.2) = true := by
    induction t.workflows with
    | nil => rfl
    | cons w rest ih => rw [List.zip_cons_cons, List.all_cons, Workflow.same_self, ih, Bool.true_and]
  rw [Transition.same, State.same_of_json newState, workflows, beq_self_eq_true, all]
  rfl

/-- A document with a state is decoded as its workflows and that state. -/
theorem ofWire_of_state {d : Datum} {fields : Fields Datum}
    (record : FieldName.ofRecord "state processor response" d = .ok fields) {state : State}
    (isState : fields.get? "new_state" = some (State.thaw state)) :
    ofWire d = (scheduledOfWire ((fields.get? "workflows_to_run").getD .null)).map (⟨state.located, ·⟩) := by
  obtain ⟨entries, table⟩ : ∃ entries, State.thaw state = .table entries := ⟨_, rfl⟩
  have frozen := State.freeze_thaw state
  unfold ofWire
  rw [record]
  dsimp only [Bind.bind, Except.bind]
  rw [isState, Option.getD_some]
  rw [table] at frozen ⊢
  unfold State.freeze at frozen
  cases vacant : (Datum.table entries).isVacant with
  | true =>
    rw [if_pos vacant] at frozen
    rw [← Except.ok.inj frozen]
    cases scheduledOfWire ((fields.get? "workflows_to_run").getD .null) <;> rfl
  | false =>
    rw [vacant, if_neg Bool.false_ne_true] at frozen
    cases scheduledOfWire ((fields.get? "workflows_to_run").getD .null) with
    | error _ => rfl
    | ok workflows =>
      dsimp only
      rw [show State.freezeEntries Fields.empty entries = .ok state.located from frozen]
      rfl

end Transition

/-! ## Both decoders -/

namespace Processing

/-- A step whose payload is no object makes of an output with a new state its workflows and that state. -/
theorem process_of_state {step : Step} (plain : isObject step.payload = false) {output replacement : Value}
    (object : isObject output = true) (replaced : output.named? "new_state" = some replacement) {fields : Fields Value}
    (isState : replacement.fields? = some fields) (state : State) :
    process state step (some output) = (workflowsOf (output.named? "workflows_to_run")).map (⟨fields, ·⟩) := by
  have change : changeOf step (some output) = .ok (.replace fields) := by
    rw [changeOf, if_pos object, changeOfObject, replaced]
    dsimp only
    rw [Value.asObject_iff.mpr isState]
    rfl
  rw [process_eq, change, Option.bind_some, named?_of_not_isObject plain]
  cases workflowsOf (output.named? "workflows_to_run") with
  | error _ => rfl
  | ok workflows => exact congrArg (fun ws => Except.ok (Transition.mk fields ws)) (List.append_nil workflows)

/-- An output with a new state that is an object, whose workflows to run are missing, null or an array, and in which each
of the two names is spelled once, is decoded alike in three ways: by processing it after a step whose payload is no
object, in any state; as a document of its own; and as its plain data.  Either each gives the same new state and the
same workflows in the same order, or each fails with a failure of one class. -/
theorem process_agrees_ofWire {output replacement : Value} {fields : Fields Value} (object : output.fields? = some fields)
    (replaced : output.named? "new_state" = some replacement) (isState : isObject replacement = true)
    (listed : ∀ v, output.named? "workflows_to_run" = some v → v.isNull = true ∨ ∃ items, v.items? = some items)
    (once : ∀ name ∈ ["new_state", "workflows_to_run"], FieldName.SpelledOnce name fields.keys)
    {step : Step} (plain : isObject step.payload = false) (state : State) :
    Agree Transition.Coincides (process state step (some output)) (Transition.ofWire (.value output)) ∧
      Transition.ofWire (.value output) = Transition.ofWire output.toDatum := by
  have asValue : Transition.ofWire (.value output) = Transition.ofWire output.toDatum := by
    unfold Transition.ofWire
    rw [FieldName.ofRecord_toDatum _ object]
  refine ⟨?_, asValue⟩
  obtain ⟨members, isFields⟩ := (isObject_iff replacement).mp isState
  obtain ⟨normal, record⟩ := FieldName.exists_ofRecord "state processor response" object
  have newState : normal.get? "new_state" = some (State.thaw members) := by
    rw [FieldName.get?_of_spelledOnce (by decide +kernel) (by decide +kernel) object (once _ (by simp)) record, replaced,
      Option.map_some, Value.toDatum_of_fields? isFields, State.thaw, Datum.ofTextFields, Fields.map, List.map_map]
    rfl
  have workflows : normal.get? "workflows_to_run" = (output.named? "workflows_to_run").map Value.toDatum :=
    FieldName.get?_of_spelledOnce (by decide +kernel) (by decide +kernel) object (once _ (by simp)) record
  have isOutput : isObject output = true := (isObject_iff output).mpr ⟨fields, object⟩
  rw [asValue, process_of_state plain isOutput replaced isFields, Transition.ofWire_of_state record newState, workflows]
  refine (Transition.scheduledOfWire_agree listed).bind ?_
  rintro ws _ rfl
  exact Transition.coincides (State.map_json_located members).symm rfl

/-- An output with a new state and a workflow to run, spelled in two ways, and a field of its own. -/
def pricedOutput : Value :=
  let steps := Value.array "$" [.object "$" (.single "type" (.text "$" "pay"))]
  .object "$" (.ofList [("newState", .object "$" (.single "total" (.number "$" (.int 2)))), ("note", .null),
    ("workflows_to_run", .array "$" [.object "$" (.ofList [("name", .text "$" "checkout"), ("steps", steps)])])])

/-- A step without a payload. -/
def priceStep : Step := ⟨"price", .null, .empty, by decide⟩

theorem pricedOutput_decoded : ∃ t s, process .empty priceStep (some pricedOutput) = .ok t ∧
    Transition.ofWire (.value pricedOutput) = .ok s ∧ Transition.ofWire pricedOutput.toDatum = .ok s ∧
    t.workflows.length = 1 ∧ t.Coincides s := by
  obtain ⟨fields, object, keys⟩ : ∃ fields, pricedOutput.fields? = some fields ∧
      fields.keys = ["newState", "note", "workflows_to_run"] := ⟨_, rfl, rfl⟩
  have once : ∀ name ∈ ["new_state", "workflows_to_run"], FieldName.SpelledOnce name fields.keys := by
    intro name mem
    rw [keys]
    rcases List.mem_pair.mp mem with rfl | rfl
    · exact ⟨by decide, by decide +kernel⟩
    · exact ⟨by decide +kernel, by decide +kernel⟩
  obtain ⟨agree, asValue⟩ : Agree Transition.Coincides (process .empty priceStep (some pricedOutput))
      (Transition.ofWire (.value pricedOutput)) ∧
        Transition.ofWire (.value pricedOutput) = Transition.ofWire pricedOutput.toDatum :=
    process_agrees_ofWire object rfl rfl (fun v found => .inr ⟨_, by cases found; rfl⟩) once rfl .empty
  obtain ⟨t, made⟩ : ∃ t, process .empty priceStep (some pricedOutput) = .ok t ∧ t.workflows.length = 1 :=
    ⟨_, rfl, rfl⟩
  obtain ⟨s, decoded⟩ : ∃ s, Transition.ofWire (.value pricedOutput) = .ok s := ⟨_, rfl⟩
  rw [made.1, decoded] at agree
  exact ⟨t, s, made.1, decoded, asValue ▸ decoded, made.2, agree⟩

end Processing

end Stepflow
