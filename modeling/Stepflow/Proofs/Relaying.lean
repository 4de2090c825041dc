import Stepflow.Proofs.Decoders
import Stepflow.Proofs.Wire

/-!
# Stepflow.Proofs.Relaying — what is left of a document that is read and written again

Steps and workflows write back the fields that have no meaning for them.  Transitions and guards write their own fields
only, so what else such a document holds is lost to whoever reads the writing.

* `Carries`, `Understood`: a writing holds all fields without a meaning; a document has no such fields.
* `Workflow.Relays`, `Transition.Relays`: a writing holds them at every level.
* `Transition.ofWire_toWire`: the writing is read as the same transition, to the presence that a guard with an expected
  value declares.
* `Transition.relays_iff_of_ofWire`: the writing relays the document just where transition and guards understand it all.
* `tracedDocument_lost`: a document that is not relayed.
-/

namespace Stepflow

open FieldName (InSnake lastUnder entriesOf namesIn)

/-! ## Fields without a meaning -/

/-- Another document holds every field of a document that has no meaning: under its name in snake case, with the value of
the last field of that name. -/
def Carries (known : List String) (d written : Datum) : Prop :=
  ∀ name item, name ∉ known → lastUnder name (entriesOf d) = some item → (.text name, item) ∈ entriesOf written

/-- Every field of a document has a meaning. -/
def Understood (known : List String) (d : Datum) : Prop := ∀ k ∈ namesIn d, FieldName.toSnake k ∈ known

instance (known : List String) (d : Datum) : Decidable (Understood known d) :=
  inferInstanceAs (Decidable (∀ k ∈ namesIn d, FieldName.toSnake k ∈ known))

/-- A writing with no other fields than those with a meaning carries a document just where that has no others either. -/
theorem carries_iff_understood {known : List String} {d written : Datum}
    (own : ∀ name ∈ namesIn written, name ∈ known) : Carries known d written ↔ Understood known d := by
  constructor
  · intro carried k mem
    by_contra unknown
    obtain ⟨item, mem⟩ := FieldName.mem_namesIn.mp mem
    obtain ⟨value, last⟩ := Option.isSome_iff_exists.mp (FieldName.isSome_lastUnder mem)
    exact unknown (own _ (FieldName.mem_namesIn.mpr ⟨value, carried _ value unknown last⟩))
  · intro understood name item unknown last
    obtain ⟨k, mem, rfl⟩ := FieldName.exists_of_lastUnder last
    exact absurd (understood k (FieldName.mem_namesIn.mpr ⟨item, mem⟩)) unknown

theorem mem_entriesOf_ofTextFields {fields : Fields Datum} {name : String} {item : Datum} :
    (.text name, item) ∈ entriesOf (Datum.ofTextFields fields) ↔ fields.get? name = some item := by
  rw [← Fields.mem_entries_iff]
  simp [entriesOf, Datum.ofTextFields]

/-- A record written with keys in snake case holds under a name what its field of that name does. -/
theorem lastUnder_ofTextFields {fields : Fields Datum} (h : InSnake fields) (name : String) :
    lastUnder name (entriesOf (Datum.ofTextFields fields)) = fields.get? name :=
  (FieldName.get?_of_normalize (FieldName.normalize_of_inSnake h) name).symm

/-! ## Guards -/

namespace Condition

/-- The fields of a document that a guard understands. -/
def knownFields : List String := ["key", "equals", "exists"]

theorem namesIn_toWire (c : Condition) : ∀ name ∈ namesIn c.toWire, name ∈ knownFields := by
  obtain ⟨key, expected, presence⟩ := c
  cases expected with
  | some v =>
    show ∀ name ∈ ["key", "equals"], name ∈ knownFields
    decide
  | none =>
    show ∀ name ∈ ["key", "exists"], name ∈ knownFields
    decide

theorem presence_reread (c : Condition) (expecting : c.reread.expected.isSome = true) : c.reread.presence = true := by
  obtain ⟨key, expected, presence⟩ := c
  cases expected with
  | some v => rfl
  | none => cases expecting

end Condition

/-! ## Workflows -/

namespace Workflow

/-- The documents of the steps in the document of a workflow. -/
def stepsIn (d : Datum) : List Datum :=
  match lastUnder "steps" (entriesOf d) with
  | some (.list items) => items
  | _ => []

/-- The document of the guard in the document of a workflow, null if there is none. -/
def guardIn (d : Datum) : Datum := (lastUnder "condition" (entriesOf d)).getD .null

/-- Another document holds what has no meaning for a workflow or for one of its steps. -/
structure Keeps (d written : Datum) : Prop where
  fields : Carries knownFields d written
  steps : List.Forall₂ (Carries Step.knownFields) (stepsIn d) (stepsIn written)

/-- Another document holds what has no meaning for a workflow, for one of its steps or for its guard. -/
structure Relays (d written : Datum) : Prop extends Keeps d written where
  guard : Carries Condition.knownFields (guardIn d) (guardIn written)

theorem guardIn_toWire {w : Workflow} (h : w.Decoded) :
    guardIn w.toWire = (w.condition.map Condition.toWire).getD .null := by
  rw [guardIn, toWire, lastUnder_ofTextFields (inSnake_wireFields h), get?_wireFields_condition h]

theorem stepsIn_toWire {w : Workflow} (h : w.Decoded) : stepsIn w.toWire = w.steps.map Step.toWire := by
  rw [stepsIn, toWire, lastUnder_ofTextFields (inSnake_wireFields h), get?_wireFields_steps]

theorem keeps_of_ofWire {d : Datum} {w : Workflow} (h : ofWire d = .ok w) : Keeps d w.toWire := by
  have decoded := decoded_of_ofWire h
  obtain ⟨fields, items, record, found, accepted, -⟩ := ofWire_inv h
  constructor
  · intro name item unknown last
    rw [toWire, mem_entriesOf_ofTextFields, get?_wireFields_of_ofWire h unknown, last]
  · have itemsEq : stepsIn d = items := by
      rw [stepsIn, ← FieldName.get?_of_normalize (FieldName.normalize_of_ofRecord record), found]
    rw [itemsEq, stepsIn_toWire decoded, List.forall₂_map_right_iff]
    refine (forall₂_of_stepsOfWire accepted).imp fun item s made name value unknown last => ?_
    rw [Step.toWire, mem_entriesOf_ofTextFields, Step.get?_wireFields_of_ofWire made unknown, last]

theorem relays_iff {d : Datum} {w : Workflow} (h : ofWire d = .ok w) :
    Relays d w.toWire ↔ Understood Condition.knownFields (guardIn d) := by
  have guard : Carries Condition.knownFields (guardIn d) (guardIn w.toWire) ↔
      Understood Condition.knownFields (guardIn d) := by
    refine carries_iff_understood ?_
    rw [guardIn_toWire (decoded_of_ofWire h)]
    cases w.condition with
    | none => exact nofun
    | some c => exact c.namesIn_toWire
  exact ⟨fun relayed => guard.mp relayed.guard, fun understood => ⟨keeps_of_ofWire h, guard.mpr understood⟩⟩

theorem forall₂_relays_iff {items : List Datum} {workflows : List Workflow}
    (h : List.Forall₂ (fun d w => ofWire d = .ok w) items workflows) :
    List.Forall₂ Relays items (workflows.map toWire) ↔
      ∀ item ∈ items, Understood Condition.knownFields (guardIn item) := by
  induction h with
  | nil => simp
  | cons made _ ih => rw [List.map_cons, List.forall₂_cons, ih, relays_iff made, List.forall_mem_cons]

end Workflow

/-! ## Transitions -/

namespace Transition

/-- The fields of a document that a transition understands. -/
def knownFields : List String := ["new_state", "workflows_to_run"]

/-- The documents of the workflows that a field schedules. -/
def itemsIn (field : Datum) : List Datum :=
  if field.isVacant then []
  else match field.itemsOf with
    | .ok (items, _) => items
    | .error _ => []

/-- The documents of the workflows in the document of a transition. -/
def scheduledIn (d : Datum) : List Datum := itemsIn ((lastUnder "workflows_to_run" (entriesOf d)).getD .null)

/-- Another document holds what has no meaning for a transition, and for each of its workflows in its place. -/
structure Relays (d written : Datum) : Prop where
  fields : Carries knownFields d written
  workflows : List.Forall₂ Workflow.Relays (scheduledIn d) (scheduledIn written)

/-- The transition as it is read from its document. -/
def reread (t : Transition) : Transition := ⟨t.newState.located, t.workflows.map Workflow.reread⟩

theorem itemsIn_list (items : List Datum) : itemsIn (.list items) = items := by
  cases items <;> rfl

theorem scheduled_of_scheduledOfWire {field : Datum} {workflows : List Workflow}
    (h : scheduledOfWire field = .ok workflows) :
    List.Forall₂ (fun d w => Workflow.ofWire d = .ok w) (itemsIn field) workflows := by
  unfold scheduledOfWire at h
  unfold itemsIn
  split at h
  · rename_i vacant
    cases h
    rw [if_pos vacant]
    exact .nil
  · rename_i present
    obtain ⟨⟨items, trouble⟩, gone, h⟩ := bind_eq_ok h
    obtain ⟨made, accepted, h⟩ := bind_eq_ok h
    rw [if_neg present, gone]
    cases trouble with
    | some f => cases h
    | none =>
      cases h
      exact (workflowsOfWire_iff _ _).mp accepted

/-- The workflows of a transition are those of the documents in its document. -/
theorem scheduled_of_ofWire {d : Datum} {t : Transition} (h : ofWire d = .ok t) :
    List.Forall₂ (fun d w => Workflow.ofWire d = .ok w) (scheduledIn d) t.workflows := by
  obtain ⟨fields, record, h⟩ := bind_eq_ok h
  have scheduled : scheduledOfWire ((fields.get? "workflows_to_run").getD .null) = .ok t.workflows := by
    dsimp only at h
    split at h
    · obtain ⟨workflows, scheduled, h⟩ := bind_eq_ok h
      cases h
      exact scheduled
    · obtain ⟨workflows, scheduled, h⟩ := bind_eq_ok h
      obtain ⟨state, -, h⟩ := bind_eq_ok h
      cases h
      exact scheduled
    · cases h
  rw [FieldName.get?_of_normalize (FieldName.normalize_of_ofRecord record)] at scheduled
  exact scheduled_of_scheduledOfWire scheduled

/-- The fields of a transition as a document. -/
def wireFields (t : Transition) : Fields Datum :=
  (Fields.empty.insert "new_state" (State.thaw t.newState)).insert "workflows_to_run"
    (.list (t.workflows.map Workflow.toWire))

theorem toWire_eq (t : Transition) : t.toWire = Datum.ofTextFields t.wireFields := rfl

theorem inSnake_wireFields (t : Transition) : InSnake t.wireFields :=
  (FieldName.inSnake_empty.insert (by decide +kernel) _).insert (by decide +kernel) _

theorem get?_wireFields_workflows (t : Transition) :
    t.wireFields.get? "workflows_to_run" = some (.list (t.workflows.map Workflow.toWire)) := by
  simp [wireFields, Fields.get?_insert]

theorem get?_wireFields_newState (t : Transition) : t.wireFields.get? "new_state" = some (State.thaw t.newState) := by
  simp [wireFields, Fields.get?_insert]

theorem namesIn_toWire (t : Transition) : ∀ name ∈ namesIn t.toWire, name ∈ knownFields := by
  show ∀ name ∈ ["new_state", "workflows_to_run"], name ∈ knownFields
  decide

theorem scheduledIn_toWire (t : Transition) : scheduledIn t.toWire = t.workflows.map Workflow.toWire := by
  rw [scheduledIn, toWire_eq, lastUnder_ofTextFields t.inSnake_wireFields, get?_wireFields_workflows, Option.getD_some,
    itemsIn_list]

theorem scheduledOfWire_toWire {workflows : List Workflow} (h : ∀ w ∈ workflows, w.Decoded) :
    scheduledOfWire (.list (workflows.map Workflow.toWire)) = .ok (workflows.map Workflow.reread) := by
  rw [scheduledOfWire_list, workflowsOfWire_iff, List.forall₂_map_left_iff, List.forall₂_map_right_iff, List.forall₂_same]
  exact fun w mem => Workflow.ofWire_toWire (h w mem)

/-- **A transition whose workflows were read is written as a document that is read as the same transition.** -/
theorem ofWire_toWire {t : Transition} (h : ∀ w ∈ t.workflows, w.Decoded) : ofWire t.toWire = .ok t.reread := by
  have record : FieldName.ofRecord "state processor response" t.toWire = .ok t.wireFields :=
    FieldName.ofRecord_ofTextFields _ t.inSnake_wireFields
  rw [ofWire_of_state record t.get?_wireFields_newState, get?_wireFields_workflows, Option.getD_some,
    scheduledOfWire_toWire h]
  rfl

theorem keeps_of_ofWire {d : Datum} {t : Transition} (h : ofWire d = .ok t) :
    List.Forall₂ Workflow.Keeps (scheduledIn d) (scheduledIn t.toWire) := by
  rw [scheduledIn_toWire, List.forall₂_map_right_iff]
  exact (scheduled_of_ofWire h).imp fun _ _ => Workflow.keeps_of_ofWire

theorem relays_iff {d : Datum} {t : Transition} (h : ofWire d = .ok t) :
    Relays d t.toWire ↔ Understood knownFields d ∧
      ∀ item ∈ scheduledIn d, Understood Condition.knownFields (Workflow.guardIn item) := by
  have fields : Carries knownFields d t.toWire ↔ Understood knownFields d :=
    carries_iff_understood t.namesIn_toWire
  have workflows : List.Forall₂ Workflow.Relays (scheduledIn d) (scheduledIn t.toWire) ↔
      ∀ item ∈ scheduledIn d, Understood Condition.knownFields (Workflow.guardIn item) := by
    rw [scheduledIn_toWire]
    exact Workflow.forall₂_relays_iff (scheduled_of_ofWire h)
  rw [← fields, ← workflows]
  exact ⟨fun relayed => ⟨relayed.fields, relayed.workflows⟩, fun both => ⟨both.1, both.2⟩⟩

/-- Read again a transition is the same, unless one of its guards expects a value and was declared for an absent key. -/
theorem same_reread (t : Transition) : t.reread.same t = true ↔
    ¬ ∃ w ∈ t.workflows, ∃ c, w.condition = some c ∧ c.expected.isSome = true ∧ c.presence = false := by
  have newState : t.newState.located.same t.newState = true := State.same_located t.newState
  have workflows : ((t.workflows.map Workflow.reread).zip t.workflows).all (fun p => p.1.same p.2) = true ↔
      ∀ w ∈ t.workflows, w.reread.same w = true := by
    induction t.workflows with
    | nil => simp
    | cons w rest ih =>
      rw [List.map_cons, List.zip_cons_cons, List.all_cons, Bool.and_eq_true, ih, List.forall_mem_cons]
  rw [same, reread, newState, List.length_map, beq_self_eq_true, Bool.true_and, Bool.true_and, workflows]
  simp [Workflow.same_reread]

/-- **Reading a document, writing the transition and reading that.**  The writing relays what has no meaning, at the level
of the transition, in its workflows, in their steps and in their guards, just where neither the transition nor a guard
has a field without a meaning; in workflows and steps it always keeps such fields.  And it is read, as a transition with
the same state and the same workflows, in which a guard with an expected value declares presence: so the two are equal
unless a guard expects a value and was declared for an absent key. -/
theorem relays_iff_of_ofWire {d : Datum} {t : Transition} (h : ofWire d = .ok t) :
    (Relays d t.toWire ↔ Understood knownFields d ∧
      ∀ item ∈ scheduledIn d, Understood Condition.knownFields (Workflow.guardIn item)) ∧
    List.Forall₂ Workflow.Keeps (scheduledIn d) (scheduledIn t.toWire) ∧
    ∃ u, ofWire t.toWire = .ok u ∧ u.newState.map Value.json = t.newState.map Value.json ∧
      List.Forall₂ Workflow.SameParts u.workflows t.workflows ∧
      (∀ w ∈ u.workflows, ∀ c, w.condition = some c → c.expected.isSome = true → c.presence = true) ∧
      (u.same t = true ↔
        ¬ ∃ w ∈ t.workflows, ∃ c, w.condition = some c ∧ c.expected.isSome = true ∧ c.presence = false) := by
  -- every workflow was read from an item, so its writing can be read again
  have decoded : ∀ w ∈ t.workflows, w.Decoded := by
    have both : List.Forall₂ (fun w item => w.Decoded ∧ Workflow.ofWire item = .ok w) t.workflows (scheduledIn d) :=
      (scheduled_of_ofWire h).flip.imp fun w item made => ⟨Workflow.decoded_of_ofWire made, made⟩
    exact ((List.forall₂_and_left _ _).mp both).1
  refine ⟨relays_iff h, keeps_of_ofWire h, t.reread, ofWire_toWire decoded, State.map_json_located t.newState, ?_, ?_,
    same_reread t⟩
  · show List.Forall₂ Workflow.SameParts (t.workflows.map Workflow.reread) t.workflows
    rw [List.forall₂_map_left_iff, List.forall₂_same]
    exact fun w _ => w.sameParts_reread
  · intro w mem c guarded expecting
    obtain ⟨v, -, rfl⟩ := List.mem_map.mp mem
    obtain ⟨b, -, rfl⟩ := Option.map_eq_some_iff.mp guarded
    exact Condition.presence_reread b expecting

/-- A transition that knows the trace it belongs to, and a workflow whose guard says which rollout it is for. -/
def tracedDocument : Datum :=
  .table [(.text "traceId", .int 7),
    (.text "workflowsToRun", .list [.table [(.text "steps", .list []),
      (.text "condition", .table [(.text "key", .text "paid"), (.text "rollout", .text "beta")])]])]

/-- The transition of that document. -/
def tracedTransition : Transition where
  newState := Fields.empty
  workflows := [⟨[], .null, some ⟨"paid", none, true⟩, Fields.empty, Fields.empty⟩]

/-- The writing holds neither the trace nor the rollout. -/
theorem tracedDocument_lost : tracedDocument.Shaped ∧ ofWire tracedDocument = .ok tracedTransition ∧
    ¬ Carries knownFields tracedDocument tracedTransition.toWire ∧
    ¬ List.Forall₂ Workflow.Relays (scheduledIn tracedDocument) (scheduledIn tracedTransition.toWire) := by
  refine ⟨⟨"$", _, rfl⟩, rfl, ?_, ?_⟩
  · intro carried
    have mem := carried "trace_id" (.int 7) (by decide) rfl
    simp [toWire, entriesOf] at mem
  · rintro (_ | ⟨relayed, -⟩)
    have mem := relayed.guard "rollout" (.text "beta") (by decide) rfl
    have written : Workflow.guardIn (Workflow.toWire ⟨[], .null, some ⟨"paid", none, true⟩, .empty, .empty⟩) =
        .table [(.text "key", .text "paid"), (.text "exists", .bool true)] := rfl
    rw [written] at mem
    simp [entriesOf] at mem

/-- A transition to the state with a total of two, and a workflow with fields of its own. -/
def totaledDocument : Datum :=
  .table [(.text "newState", .table [(.text "total", .int 2)]),
    (.text "workflowsToRun", .list [Workflow.guardedDocument])]

theorem totaledDocument_relayed : ∃ t u, ofWire totaledDocument = .ok t ∧ Relays totaledDocument t.toWire ∧
    ofWire t.toWire = .ok u ∧ u.same t = false := by
  obtain ⟨t, accepted, guarded⟩ : ∃ t, ofWire totaledDocument = .ok t ∧ t.workflows = [Workflow.guardedWorkflow] :=
    ⟨_, rfl, rfl⟩
  obtain ⟨relays, -, u, second, -, -, -, same⟩ := relays_iff_of_ofWire accepted
  have guards : ∀ item ∈ [Workflow.guardedDocument], Understood Condition.knownFields (Workflow.guardIn item) := by
    decide +kernel
  refine ⟨t, u, accepted, relays.mpr ⟨by decide +kernel, guards⟩, second, ?_⟩
  rw [← Bool.not_eq_true, same, not_not, guarded]
  exact ⟨_, List.mem_singleton_self _, _, rfl, rfl, rfl⟩

end Transition

end Stepflow
