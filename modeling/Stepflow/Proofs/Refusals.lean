import Mathlib.Data.List.Forall2
import Stepflow.Proofs.FieldNames
import Stepflow.Proofs.Freezing
import Stepflow.Transition

/-!
# Stepflow.Proofs.Refusals — how documents are refused

* `Datum.Shaped`: data that the check of values accepts, plain or with values in it; its parts are so too, and its keys
  are texts.
* `DecodesOnly`: a computation whose failures are all decoding failures.  Checks, projections, steps and guards are such.
* `refusals_of_shaped`: on such data a workflow fails in another way just where its metadata is there and no table, and
  a transition just where its workflows cannot be gone through or one of them fails so.
* `listedMetadata_raises`: a workflow that does.
-/

namespace Stepflow

/-! ## Decoding failures -/

/-- A computation that fails, fails to decode. -/
def DecodesOnly {α : Type} (x : Except Failure α) : Prop := ∀ f, x = .error f → f.family? = some .decode

namespace DecodesOnly

variable {α β : Type}

theorem ok (a : α) : DecodesOnly (.ok a : Except Failure α) := nofun

theorem error {f : Failure} (h : f.family? = some .decode) : DecodesOnly (.error f : Except Failure α) := by
  rintro f' ⟨⟩
  exact h

/-- A failure that is passed on. -/
theorem rethrow {x : Except Failure α} {f : Failure} (hx : DecodesOnly x) (fails : x = .error f) :
    DecodesOnly (.error f : Except Failure β) :=
  error (hx f fails)

theorem bind {x : Except Failure α} {g : α → Except Failure β} (hx : DecodesOnly x)
    (hg : ∀ a, x = .ok a → DecodesOnly (g a)) : DecodesOnly (x >>= g) := by
  cases x with
  | error f => exact hx.rethrow rfl
  | ok a => exact hg a rfl

theorem map {x : Except Failure α} (hx : DecodesOnly x) (g : α → β) : DecodesOnly (x.map g) := by
  cases x with
  | error f => exact hx.rethrow rfl
  | ok a => exact ok (g a)

end DecodesOnly

/-- Where a computation in two parts fails, the first part fails, or it does not and the second does. -/
theorem bind_eq_error {α β : Type} {x : Except Failure α} {g : α → Except Failure β} {f : Failure}
    (fails : x >>= g = .error f) : x = .error f ∨ ∃ a, x = .ok a ∧ g a = .error f := by
  cases x with
  | error f' =>
    cases fails
    exact .inl rfl
  | ok a => exact .inr ⟨a, rfl, fails⟩

namespace Value

theorem decodesOnly_asBool (v : Value) : DecodesOnly v.asBool := by
  unfold asBool
  split
  · exact .ok _
  · exact .error rfl

theorem decodesOnly_asText (v : Value) : DecodesOnly v.asText := by
  unfold asText
  split
  · exact .ok _
  · exact .error rfl

theorem decodesOnly_asArray (v : Value) : DecodesOnly v.asArray := by
  unfold asArray
  split
  · exact .ok _
  · exact .error rfl

theorem decodesOnly_asObject (v : Value) : DecodesOnly v.asObject := by
  unfold asObject
  split
  · exact .ok _
  · exact .error rfl

theorem decodesOnly_item (v : Value) (index : Int) (shown : String) : DecodesOnly (v.item index shown) := by
  refine v.decodesOnly_asArray.bind fun items _ => ?_
  split
  · exact .ok _
  · exact .error rfl

mutual

/-- The check of a value fails only to decode. -/
theorem decodesOnly_ofDatum (path : String) (d : Datum) : DecodesOnly (ofDatum path d) := by
  cases d with
  | null | bool _ | int _ | text _ | value _ => exact .ok _
  | float x =>
    cases x with
    | finite _ => exact .ok _
    | infinite _ | nan => exact .error rfl
  | list items | tuple items =>
    rw [ofDatum]
    exact (decodesOnly_ofItems path 0 items).map _
  | table entries =>
    rw [ofDatum]
    exact (decodesOnly_ofEntries path .empty entries).map _
  | bytes _ | buffer _ | set _ | handle => exact .error rfl

theorem decodesOnly_ofItems (path : String) (index : Nat) (items : List Datum) :
    DecodesOnly (ofItems path index items) := by
  cases items with
  | nil => exact .ok _
  | cons item rest =>
    have first := decodesOnly_ofDatum (itemPath path index) item
    have others := decodesOnly_ofItems path (index + 1) rest
    rw [ofItems]
    split
    · rename_i refused
      exact first.rethrow refused
    · split
      · rename_i refused
        exact others.rethrow refused
      · exact .ok _

theorem decodesOnly_ofEntries (path : String) (fields : Fields Value) (entries : List (Datum × Datum)) :
    DecodesOnly (ofEntries path fields entries) := by
  cases entries with
  | nil => exact .ok _
  | cons entry rest =>
    obtain ⟨key, item⟩ := entry
    cases key with
    | text k =>
      have first := decodesOnly_ofDatum (fieldPath path k) item
      rw [ofEntries]
      split
      · rename_i refused
        exact first.rethrow refused
      · exact decodesOnly_ofEntries path _ rest
    | _ => exact .error rfl

end

theorem decodesOnly_wrap (d : Datum) : DecodesOnly (wrap d) := by
  unfold wrap
  split
  · exact .ok _
  · exact decodesOnly_ofDatum rootPath d

end Value

theorem State.decodesOnly_freezeEntries (state : State) (entries : List (Datum × Datum)) :
    DecodesOnly (freezeEntries state entries) := by
  induction entries generalizing state with
  | nil => exact .ok _
  | cons entry rest ih =>
    obtain ⟨key, item⟩ := entry
    cases key with
    | text k =>
      cases item with
      | value v => exact ih _
      | _ =>
        simp only [freezeEntries]
        split
        · rename_i refused
          exact (Value.decodesOnly_ofDatum _ _).rethrow refused
        · exact ih _
    | _ => exact .error rfl

/-! ## JSON-shaped data -/

namespace Datum

/-- Data that is accepted as a value: plain, or with values in it. -/
def Shaped (d : Datum) : Prop := ∃ path v, Value.ofDatum path d = .ok v

theorem shaped_value (v : Value) : (Datum.value v).Shaped := ⟨"", _, rfl⟩

theorem shaped_text (s : String) : (Datum.text s).Shaped := ⟨"", _, rfl⟩

theorem shaped_null : Datum.null.Shaped := ⟨"", _, rfl⟩

theorem shaped_ofJson (j : Json) : (ofJson j).Shaped := ⟨"", Value.ofDatum_ofJson "" j⟩

theorem shaped_of_ofItems {path : String} {index : Nat} {items : List Datum} {vs : List Value}
    (accepted : Value.ofItems path index items = .ok vs) : ∀ item ∈ items, item.Shaped := by
  induction items generalizing index vs with
  | nil => exact nofun
  | cons first rest ih =>
    rw [Value.ofItems] at accepted
    split at accepted
    · cases accepted
    · rename_i v here
      split at accepted
      · cases accepted
      · rename_i vs' others
        rintro item (_ | ⟨_, later⟩)
        · exact ⟨_, v, here⟩
        · exact ih others item later

theorem shaped_of_ofEntries {path : String} {fields all : Fields Value} {entries : List (Datum × Datum)}
    (accepted : Value.ofEntries path fields entries = .ok all) :
    ∀ e ∈ entries, (∃ k, e.1 = .text k) ∧ e.2.Shaped := by
  induction entries generalizing fields with
  | nil => exact nofun
  | cons first rest ih =>
    obtain ⟨key, item⟩ := first
    cases key with
    | text k =>
      rw [Value.ofEntries] at accepted
      split at accepted
      · cases accepted
      · rename_i v here
        rintro e (_ | ⟨_, later⟩)
        · exact ⟨⟨k, rfl⟩, _, v, here⟩
        · exact ih accepted e later
    | _ => cases accepted

theorem Shaped.items {items : List Datum} (shaped : (Datum.list items).Shaped) : ∀ item ∈ items, item.Shaped := by
  obtain ⟨path, v, accepted⟩ := shaped
  obtain ⟨vs, accepted, -⟩ := map_eq_ok accepted
  exact shaped_of_ofItems accepted

theorem Shaped.entries {entries : List (Datum × Datum)} (shaped : (Datum.table entries).Shaped) :
    ∀ e ∈ entries, (∃ k, e.1 = .text k) ∧ e.2.Shaped := by
  obtain ⟨path, v, accepted⟩ := shaped
  obtain ⟨all, accepted, -⟩ := map_eq_ok accepted
  exact shaped_of_ofEntries accepted

theorem mem_ofFields {fields : List (String × Json)} {e : Datum × Datum} (h : e ∈ ofFields fields) :
    (∃ k, e.1 = .text k) ∧ e.2.Shaped := by
  induction fields with
  | nil => cases h
  | cons field rest ih =>
    rcases h with _ | ⟨_, later⟩
    · exact ⟨⟨_, rfl⟩, shaped_ofJson _⟩
    · exact ih later

/-- What comes up when data is gone through item by item is shaped as well; it ends, if at all, with a decoding
failure. -/
theorem Shaped.itemsOf {d : Datum} (shaped : d.Shaped) {items : List Datum} {trouble : Option Failure}
    (gone : d.itemsOf = .ok (items, trouble)) :
    (∀ item ∈ items, item.Shaped) ∧ ∀ f, trouble = some f → f.family? = some .decode := by
  cases d with
  | list | tuple =>
    cases gone
    refine ⟨?_, nofun⟩
    obtain ⟨path, v, accepted⟩ := shaped
    obtain ⟨vs, accepted, -⟩ := map_eq_ok accepted
    exact shaped_of_ofItems accepted
  | table entries =>
    cases gone
    refine ⟨fun item mem => ?_, nofun⟩
    obtain ⟨e, isEntry, rfl⟩ := List.mem_map.mp mem
    obtain ⟨⟨k, key⟩, -⟩ := shaped.entries e isEntry
    rw [key]
    exact shaped_text k
  | text s =>
    cases gone
    refine ⟨fun item mem => ?_, nofun⟩
    obtain ⟨c, -, rfl⟩ := List.mem_map.mp mem
    exact shaped_text _
  -- a value is gone through by position; where that ends early, it is for a projection
  | value v =>
    rw [Datum.itemsOf] at gone
    split at gone
    · cases gone
      refine ⟨fun item mem => ?_, fun f ends => ?_⟩
      · obtain ⟨w, -, rfl⟩ := List.mem_map.mp mem
        exact shaped_value w
      · split at ends
        · cases ends
        · rename_i past
          cases ends
          exact v.decodesOnly_item _ _ f past
    · cases gone
      exact ⟨nofun, fun f ends => by cases ends; rfl⟩
  | set | bytes | buffer =>
    obtain ⟨_, _, accepted⟩ := shaped
    cases accepted
  | null | bool | int | float | handle => cases gone

end Datum

namespace FieldName

theorem exists_normalizeOver {entries : List (Datum × Datum)} (keys : ∀ e ∈ entries, ∃ k, e.1 = .text k)
    (fields : Fields Datum) : ∃ normal, normalizeOver fields entries = .ok normal := by
  induction entries generalizing fields with
  | nil => exact ⟨fields, rfl⟩
  | cons entry rest ih =>
    obtain ⟨k, key⟩ := keys entry List.mem_cons_self
    obtain ⟨key', item⟩ := entry
    cases key
    exact ih (fun e mem => keys e (List.mem_cons_of_mem _ mem)) _

theorem decodesOnly_normalize {entries : List (Datum × Datum)} (keys : ∀ e ∈ entries, ∃ k, e.1 = .text k) :
    DecodesOnly (normalize entries) := by
  obtain ⟨normal, made⟩ := exists_normalizeOver keys .empty
  rw [normalize, made]
  exact .ok normal

theorem shaped_entriesOf {d : Datum} (shaped : d.Shaped) :
    ∀ e ∈ entriesOf d, (∃ k, e.1 = .text k) ∧ e.2.Shaped := by
  intro e mem
  unfold entriesOf at mem
  split at mem
  · exact shaped.entries e mem
  · split at mem
    · exact Datum.mem_ofFields mem
    · cases mem
  · cases mem

/-- Shaped data is no record only if it is no object. -/
theorem decodesOnly_ofRecord (what : String) {d : Datum} (shaped : d.Shaped) : DecodesOnly (ofRecord what d) := by
  have keys := fun e mem => (shaped_entriesOf shaped e mem).1
  unfold ofRecord
  split
  · exact decodesOnly_normalize keys
  · split
    · rename_i isObject
      rw [entriesOf, isObject] at keys
      exact decodesOnly_normalize keys
    · exact .error rfl
  · exact .error rfl

theorem shaped_field {what : String} {d : Datum} {fields : Fields Datum} (shaped : d.Shaped)
    (record : ofRecord what d = .ok fields) {name : String} {item : Datum} (field : fields.get? name = some item) :
    item.Shaped := by
  rw [get?_of_normalize (normalize_of_ofRecord record)] at field
  obtain ⟨k, mem, -⟩ := exists_of_lastUnder field
  exact (shaped_entriesOf shaped _ mem).2

theorem shaped_getD {what : String} {d : Datum} {fields : Fields Datum} (shaped : d.Shaped)
    (record : ofRecord what d = .ok fields) (name : String) : ((fields.get? name).getD .null).Shaped := by
  cases field : fields.get? name with
  | none => exact Datum.shaped_null
  | some item => exact shaped_field shaped record field

end FieldName

/-! ## Steps and guards -/

theorem Step.decodesOnly_make (stepType payload : Datum) (extra : Fields Datum) :
    DecodesOnly (make stepType payload extra) := by
  unfold make
  split
  · split
    · exact (Value.decodesOnly_wrap payload).map _
    · exact .error rfl
  · exact .error rfl

theorem Step.decodesOnly_ofWire {d : Datum} (shaped : d.Shaped) : DecodesOnly (ofWire d) := by
  refine (FieldName.decodesOnly_ofRecord _ shaped).bind fun fields _ => ?_
  split
  · exact .error rfl
  · exact (Value.decodesOnly_wrap _).bind fun payload _ => decodesOnly_make _ _ _

theorem Condition.decodesOnly_ofWire {d : Datum} (shaped : d.Shaped) : DecodesOnly (ofWire d) := by
  refine (FieldName.decodesOnly_ofRecord _ shaped).bind fun fields _ => ?_
  split
  · rename_i key _
    have presence (expected : Option Value) : DecodesOnly (do
        let presence ←
          Value.ofDatum "$.condition.exists" ((fields.get? "exists").getD (.bool true))
        let presence ← presence.asBool
        return Condition.mk key expected presence) :=
      (Value.decodesOnly_ofDatum _ _).bind fun v _ => v.decodesOnly_asBool.bind fun _ _ => .ok _
    dsimp only
    split
    · exact ((Value.decodesOnly_wrap _).map _).bind fun expected _ => presence expected
    · exact presence none
  · exact .error rfl

namespace Workflow

theorem decodesOnly_stepsOfWire {items : List Datum} (shaped : ∀ item ∈ items, item.Shaped) :
    DecodesOnly (stepsOfWire items) := by
  induction items with
  | nil => exact .ok _
  | cons item rest ih =>
    unfold stepsOfWire
    split
    · rename_i refused
      exact (Step.decodesOnly_ofWire (shaped item List.mem_cons_self)).rethrow refused
    · split
      · rename_i refused
        exact (ih fun d mem => shaped d (List.mem_cons_of_mem _ mem)).rethrow refused
      · exact .ok _

theorem decodesOnly_conditionOfWire {d : Datum} (shaped : d.Shaped) : DecodesOnly (conditionOfWire d) := by
  unfold conditionOfWire
  split
  · exact .ok _
  · exact (Condition.decodesOnly_ofWire shaped).map _

/-! ## Workflows -/

/-- Metadata that is there and no table: the failure of going on with it. -/
def StrayMetadata (metadata : Datum) (f : Failure) : Prop :=
  metadata.isVacant = false ∧ (∀ entries, metadata ≠ .table entries) ∧ f = .noMember metadata.typeName "items"

theorem freeze_eq_error_iff {metadata : Datum} {f : Failure} (foreign : f.family? ≠ some .decode) :
    State.freeze metadata = .error f ↔ StrayMetadata metadata f := by
  unfold State.freeze StrayMetadata
  cases vacant : metadata.isVacant with
  | true => simp
  | false =>
    cases metadata with
    | table entries =>
      refine ⟨fun fails => absurd (State.decodesOnly_freezeEntries _ _ f fails) foreign, ?_⟩
      rintro ⟨-, noTable, -⟩
      exact absurd rfl (noTable entries)
    | _ => simp [eq_comm]

/-- A workflow whose steps and guard are decoded, with stray metadata. -/
def Stray (d : Datum) (f : Failure) : Prop :=
  ∃ fields items steps condition, FieldName.ofRecord "workflow object" d = .ok fields ∧
    fields.get? "steps" = some (.list items) ∧ stepsOfWire items = .ok steps ∧
    conditionOfWire ((fields.get? "condition").getD .null) = .ok condition ∧
    StrayMetadata ((fields.get? "metadata").getD .null) f

theorem getD_null_eq_list {field : Option Datum} {items : List Datum} :
    field.getD .null = .list items ↔ field = some (.list items) := by
  cases field <;> simp

theorem ofWire_eq_error_iff {d : Datum} (shaped : d.Shaped) {f : Failure} (foreign : f.family? ≠ some .decode) :
    ofWire d = .error f ↔ Stray d f := by
  constructor
  · intro fails
    unfold ofWire at fails
    rcases bind_eq_error fails with refused | ⟨fields, record, fails⟩
    · exact absurd (FieldName.decodesOnly_ofRecord _ shaped f refused) foreign
    dsimp only at fails
    split at fails
    · rename_i items list
      have list := getD_null_eq_list.mp list
      have shapedItems := (FieldName.shaped_field shaped record list).items
      have shapedGuard := FieldName.shaped_getD shaped record "condition"
      rcases bind_eq_error fails with refused | ⟨steps, accepted, fails⟩
      · exact absurd (decodesOnly_stepsOfWire shapedItems f refused) foreign
      rcases bind_eq_error fails with refused | ⟨condition, guarded, fails⟩
      · exact absurd (decodesOnly_conditionOfWire shapedGuard f refused) foreign
      rcases bind_eq_error fails with stray | ⟨metadata, -, ⟨⟩⟩
      exact ⟨fields, items, steps, condition, record, list, accepted, guarded, (freeze_eq_error_iff foreign).mp stray⟩
    · cases fails
      exact absurd rfl foreign
  · rintro ⟨fields, items, steps, condition, record, list, accepted, guarded, stray⟩
    unfold ofWire
    simp only [record, list, accepted, guarded, (freeze_eq_error_iff foreign).mpr stray, Bind.bind, Except.bind,
      Option.getD_some]

end Workflow

/-! ## Transitions -/

namespace Transition

/-- A list of workflows is decoded one by one. -/
theorem workflowsOfWire_iff (items : List Datum) (workflows : List Workflow) :
    workflowsOfWire items = .ok workflows ↔ List.Forall₂ (fun d w => Workflow.ofWire d = .ok w) items workflows := by
  constructor
  · intro made
    induction items generalizing workflows with
    | nil =>
      cases made
      exact .nil
    | cons item rest ih =>
      rw [workflowsOfWire] at made
      split at made
      · cases made
      · rename_i w first
        split at made
        · cases made
        · rename_i ws others
          cases made
          exact .cons first (ih ws others)
  · intro decoded
    induction decoded with
    | nil => rfl
    | cons first _ ih => rw [workflowsOfWire, first, ih]

/-- A list of workflows fails with the first that is not decoded. -/
theorem workflowsOfWire_eq_error_iff {items : List Datum} {f : Failure} :
    workflowsOfWire items = .error f ↔ ∃ earlier item later, items = earlier ++ item :: later ∧
      (∀ d ∈ earlier, ∃ w, Workflow.ofWire d = .ok w) ∧ Workflow.ofWire item = .error f := by
  constructor
  · intro fails
    induction items with
    | nil => cases fails
    | cons first rest ih =>
      rw [workflowsOfWire] at fails
      split at fails
      · rename_i refused
        cases fails
        exact ⟨[], first, rest, rfl, nofun, refused⟩
      · rename_i w accepted
        split at fails
        · rename_i refused
          cases fails
          obtain ⟨earlier, item, later, rfl, before, last⟩ := ih refused
          refine ⟨first :: earlier, item, later, rfl, fun d mem => ?_, last⟩
          rcases List.mem_cons.mp mem with rfl | mem
          · exact ⟨w, accepted⟩
          · exact before d mem
        · cases fails
  · rintro ⟨earlier, item, later, rfl, before, refused⟩
    induction earlier with
    | nil => rw [List.nil_append, workflowsOfWire, refused]
    | cons first rest ih =>
      obtain ⟨w, accepted⟩ := before first List.mem_cons_self
      rw [List.cons_append, workflowsOfWire, accepted, ih fun d mem => before d (List.mem_cons_of_mem _ mem)]

/-- Workflows that are there and cannot be gone through, or one of which is stray after others that are decoded. -/
def StrayWorkflows (scheduled : Datum) (f : Failure) : Prop :=
  scheduled.isVacant = false ∧ (scheduled.itemsOf = .error f ∨ ∃ earlier item later trouble,
    scheduled.itemsOf = .ok (earlier ++ item :: later, trouble) ∧ (∀ d ∈ earlier, ∃ w, Workflow.ofWire d = .ok w) ∧
      Workflow.Stray item f)

theorem scheduledOfWire_eq_error_iff {d : Datum} (shaped : d.Shaped) {f : Failure}
    (foreign : f.family? ≠ some .decode) : scheduledOfWire d = .error f ↔ StrayWorkflows d f := by
  unfold scheduledOfWire StrayWorkflows
  cases vacant : d.isVacant with
  | true => simp
  | false =>
    rw [if_neg Bool.false_ne_true]
    constructor
    · intro fails
      refine ⟨rfl, ?_⟩
      rcases bind_eq_error fails with refused | ⟨⟨items, trouble⟩, gone, fails⟩
      · exact .inl refused
      -- the items may break off, which is a failure of decoding, or one of them is refused
      · obtain ⟨shapedItems, ends⟩ := shaped.itemsOf gone
        rcases bind_eq_error fails with refused | ⟨workflows, -, fails⟩
        · obtain ⟨earlier, item, later, rfl, before, refused⟩ := workflowsOfWire_eq_error_iff.mp refused
          have shapedItem := shapedItems item (by simp)
          exact .inr ⟨earlier, item, later, trouble, gone, before,
            (Workflow.ofWire_eq_error_iff shapedItem foreign).mp refused⟩
        · cases trouble with
          | none => cases fails
          | some f' =>
            cases fails
            exact absurd (ends f rfl) foreign
    · rintro ⟨-, refused | ⟨earlier, item, later, trouble, gone, before, stray⟩⟩
      · rw [refused]
        rfl
      · have shapedItem := (shaped.itemsOf gone).1 item (by simp)
        have refused := (Workflow.ofWire_eq_error_iff shapedItem foreign).mpr stray
        rw [gone]
        simp only [Bind.bind, Except.bind, workflowsOfWire_eq_error_iff.mpr ⟨_, _, _, rfl, before, refused⟩]

/-- A transition with a state, or none, and stray workflows. -/
def Stray (d : Datum) (f : Failure) : Prop :=
  ∃ fields, FieldName.ofRecord "state processor response" d = .ok fields ∧
    (((fields.get? "new_state").getD .null).isVacant = true ∨
      ∃ entries, (fields.get? "new_state").getD .null = .table entries) ∧
    StrayWorkflows ((fields.get? "workflows_to_run").getD .null) f

theorem ofWire_eq_error_iff {d : Datum} (shaped : d.Shaped) {f : Failure} (foreign : f.family? ≠ some .decode) :
    ofWire d = .error f ↔ Stray d f := by
  unfold ofWire Stray
  cases record : FieldName.ofRecord "state processor response" d with
  | error f' =>
    refine ⟨fun fails => ?_, ?_⟩
    · cases fails
      exact absurd (FieldName.decodesOnly_ofRecord _ shaped f record) foreign
    · rintro ⟨_, ⟨⟩, -⟩
  | ok fields =>
    have scheduled := scheduledOfWire_eq_error_iff (FieldName.shaped_getD shaped record "workflows_to_run") foreign
    simp only [Except.ok.injEq, exists_eq_left', ← scheduled]
    dsimp only [Bind.bind, Except.bind]
    generalize (fields.get? "new_state").getD .null = state
    generalize scheduledOfWire ((fields.get? "workflows_to_run").getD .null) = workflows
    cases vacant : state.isVacant with
    | true =>
      cases workflows <;> simp [pure, Except.pure]
    | false =>
      cases state with
      | table entries =>
        cases workflows with
        | error f' => simp
        | ok ws =>
          have frozen : DecodesOnly (do
              let state ← State.freezeEntries .empty entries
              return Transition.mk state ws) :=
            (State.decodesOnly_freezeEntries .empty entries).bind fun _ _ => .ok _
          exact ⟨fun fails => absurd (frozen f fails) foreign, by simp⟩
      | _ =>
        refine ⟨fun fails => ?_, ?_⟩
        · cases fails
          exact absurd rfl foreign
        · simp

end Transition

/-! ## Documents -/

/-- Of shaped data a step or a guard is decoded, or fails to decode.  A workflow fails in another way just where its
metadata is there and no table, after its steps and its guard have been decoded; and a transition just where its state is
a table, or missing, and its workflows are there and cannot be gone through, or one of them is the first to fail, and in
that way. -/
theorem refusals_of_shaped {d : Datum} (shaped : d.Shaped) :
    DecodesOnly (Step.ofWire d) ∧ DecodesOnly (Condition.ofWire d) ∧
      (∀ f, f.family? ≠ some .decode → (Workflow.ofWire d = .error f ↔ Workflow.Stray d f)) ∧
      ∀ f, f.family? ≠ some .decode → (Transition.ofWire d = .error f ↔ Transition.Stray d f) :=
  ⟨Step.decodesOnly_ofWire shaped, Condition.decodesOnly_ofWire shaped,
    fun _ foreign => Workflow.ofWire_eq_error_iff shaped foreign,
    fun _ foreign => Transition.ofWire_eq_error_iff shaped foreign⟩

/-- A workflow without steps whose metadata is a list. -/
def listedMetadata : Datum := .table [(.text "steps", .list []), (.text "metadata", .list [.int 1])]

/-- A transition that schedules it after another workflow. -/
def listedTransition : Datum :=
  .table [(.text "newState", .table [(.text "done", .bool true)]),
    (.text "workflowsToRun", .list [.table [(.text "steps", .list [])], listedMetadata])]

theorem listedMetadata_raises : listedMetadata.Shaped ∧ ¬ DecodesOnly (Workflow.ofWire listedMetadata) :=
  ⟨⟨"$", _, rfl⟩, fun only => nomatch only (.noMember "list" "items") rfl⟩

theorem listedTransition_stray : listedTransition.Shaped ∧ Transition.Stray listedTransition (.noMember "list" "items") :=
  have shaped : listedTransition.Shaped := ⟨"$", _, rfl⟩
  ⟨shaped, ((refusals_of_shaped shaped).2.2.2 (.noMember "list" "items") nofun).mp rfl⟩

end Stepflow
