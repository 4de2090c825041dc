import Stepflow.FieldName
import Stepflow.Proofs.Text.Lowering

/-!
# Stepflow.Proofs.FieldNames — snake case is final

* `toSnake_toSnake`: the snake case of a name is its own snake case.
* `get?_of_normalize`: normalized entries hold under every name what the last entry that spells it holds (`lastUnder`).
* `normalize_of_inSnake`: fields whose keys are in snake case are normal, to the order of their keys.
-/

namespace Stepflow.FieldName

/-! ## Names -/

/-- Characters that are no capitals are passed by, and the last of them stands before what follows. -/
theorem separate_append {cs : List Char} (h : ∀ c ∈ cs, isCapital c = false) (before : Option Char) (rest : List Char) :
    separate before (cs ++ rest) = cs ++ separate (cs.getLast?.or before) rest := by
  induction cs generalizing before with
  | nil => rfl
  | cons c after ih =>
    have here : isBoundary before c (after ++ rest) = false := by
      unfold isBoundary
      split
      · rfl
      · rw [h c List.mem_cons_self, Bool.false_and]
    have last : (c :: after).getLast?.or before = after.getLast?.or (some c) := by
      rw [List.getLast?_cons]
      cases after.getLast? <;> rfl
    rw [List.cons_append, separate, here, if_neg Bool.false_ne_true, last,
      ih fun d hd => h d (List.mem_cons_of_mem c hd)]
    rfl

theorem separate_of_no_capital {before : Option Char} {cs : List Char} (h : ∀ c ∈ cs, isCapital c = false) :
    separate before cs = cs := by
  have passed := separate_append h before []
  rwa [separate, List.append_nil] at passed

/-- Lower case leaves no capital, so the second time no word begins and no letter changes. -/
theorem snakeChars_snakeChars (cs : List Char) : snakeChars (snakeChars cs) = snakeChars cs := by
  have small : ∀ c ∈ snakeChars cs, isCapital c = false := by
    intro c hc
    have settled : Text.Settled c := Text.settled_lower c hc
    simpa [isCapital] using settled.not_capital
  rw [snakeChars, separate_of_no_capital small]
  exact Text.lower_lower _

/-- **Snake case is final.** -/
theorem toSnake_toSnake (name : String) : toSnake (toSnake name) = toSnake name := by
  rw [toSnake, toSnake, String.toList_ofList, snakeChars_snakeChars]

/-! ## Entries -/

/-- Whether a key spells a name. -/
def spells (name : String) : Datum → Bool
  | .text k => toSnake k == name
  | _ => false

/-- What the last entry that spells a name holds. -/
def lastUnder (name : String) (entries : List (Datum × Datum)) : Option Datum :=
  (entries.reverse.find? (fun e => spells name e.1)).map Prod.snd

theorem lastUnder_cons (name : String) (e : Datum × Datum) (rest : List (Datum × Datum)) :
    lastUnder name (e :: rest) = (lastUnder name rest).or (if spells name e.1 then some e.2 else none) := by
  rw [lastUnder, lastUnder, List.reverse_cons, List.find?_append, Option.map_or]
  cases h : spells name e.1 <;> simp [h]

theorem lastUnder_eq_none {name : String} {entries : List (Datum × Datum)} (h : ∀ e ∈ entries, spells name e.1 = false) :
    lastUnder name entries = none := by
  rw [lastUnder, List.find?_eq_none.mpr, Option.map_none]
  intro e mem
  rw [h e (List.mem_reverse.mp mem)]
  exact Bool.false_ne_true

/-- What stands last under a name stands under a spelling of it. -/
theorem exists_of_lastUnder {name : String} {entries : List (Datum × Datum)} {item : Datum}
    (last : lastUnder name entries = some item) : ∃ k, (.text k, item) ∈ entries ∧ toSnake k = name := by
  rw [lastUnder, Option.map_eq_some_iff] at last
  obtain ⟨⟨key, _⟩, found, rfl⟩ := last
  have mem := List.mem_reverse.mp (List.mem_of_find?_eq_some found)
  have spelled := List.find?_some found
  cases key with
  | text k => exact ⟨k, mem, beq_iff_eq.mp spelled⟩
  | _ => cases spelled

theorem isSome_lastUnder {k : String} {item : Datum} {entries : List (Datum × Datum)} (mem : (.text k, item) ∈ entries) :
    (lastUnder (toSnake k) entries).isSome = true := by
  rw [lastUnder, Option.isSome_map, List.find?_isSome]
  exact ⟨_, List.mem_reverse.mpr mem, beq_iff_eq.mpr rfl⟩

/-! ## Names that are spelled once -/

/-- A name is spelled once among keys: where both its spellings are there they are one key, and no other key has it as
its snake case. -/
structure SpelledOnce (name : String) (keys : List String) : Prop where
  once : name ∈ keys → toCamel name ∈ keys → toCamel name = name
  only : ∀ k ∈ keys, toSnake k = name → k = name ∨ k = toCamel name

theorem SpelledOnce.tail {name k : String} {rest : List String} (h : SpelledOnce name (k :: rest)) :
    SpelledOnce name rest where
  once own camel := h.once (List.mem_cons_of_mem k own) (List.mem_cons_of_mem k camel)
  only j mem := h.only j (List.mem_cons_of_mem k mem)

/-- Where a name is spelled once, the last entry that spells it is the one found under the name or else under its camel
case. -/
theorem lastUnder_of_spelledOnce {name : String} (own : toSnake name = name) (camel : toSnake (toCamel name) = name)
    {es : List (String × Datum)} (nodup : (es.map Prod.fst).Nodup) (h : SpelledOnce name (es.map Prod.fst)) :
    lastUnder name (es.map fun e => (.text e.1, e.2)) = (es.lookup name).or (es.lookup (toCamel name)) := by
  induction es with
  | nil => rfl
  | cons e rest ih =>
    obtain ⟨k, item⟩ := e
    obtain ⟨fresh, nodup⟩ := List.nodup_cons.mp nodup
    rw [List.map_cons, lastUnder_cons]
    by_cases spelled : toSnake k = name
    · have two := h.only k List.mem_cons_self spelled
      -- a second key that spells the name would be the other spelling, or `k` again
      have others : lastUnder name (rest.map fun e => (.text e.1, e.2)) = none := by
        refine lastUnder_eq_none fun e mem => ?_
        obtain ⟨⟨j, other⟩, isEntry, rfl⟩ := List.mem_map.mp mem
        have later : j ∈ rest.map Prod.fst := List.mem_map_of_mem isEntry
        refine beq_eq_false_iff_ne.mpr fun spelled' => fresh ?_
        rcases two, h.only j (List.mem_cons_of_mem k later) spelled' with ⟨rfl | rfl, rfl | rfl⟩
        · exact later
        · rwa [h.once List.mem_cons_self (List.mem_cons_of_mem _ later)] at later
        · rwa [h.once (List.mem_cons_of_mem _ later) List.mem_cons_self]
        · exact later
      have here : spells name (.text k) = true := beq_iff_eq.mpr spelled
      rw [others, here, Option.none_or, if_pos rfl]
      by_cases same : name = k
      · rw [List.lookup_cons, beq_iff_eq.mpr same]
        rfl
      · obtain rfl := two.resolve_left (Ne.symm same)
        have absent : rest.lookup name = none := by
          refine List.lookup_eq_none_iff.mpr fun e mem => bne_iff_ne.mpr ?_
          rintro rfl
          exact same (h.once (List.mem_cons_of_mem _ (List.mem_map_of_mem mem)) List.mem_cons_self).symm
        rw [List.lookup_cons, beq_eq_false_iff_ne.mpr same, List.lookup_cons, beq_self_eq_true, absent]
        rfl
    · have notHere : spells name (.text k) = false := beq_eq_false_iff_ne.mpr spelled
      have ne_own : (name == k) = false := beq_eq_false_iff_ne.mpr fun same => spelled (same ▸ own)
      have ne_camel : (toCamel name == k) = false := beq_eq_false_iff_ne.mpr fun same => spelled (same ▸ camel)
      rw [notHere, if_neg Bool.false_ne_true, Option.or_none, ih nodup h.tail, List.lookup_cons, List.lookup_cons,
        ne_own, ne_camel]

/-- All keys of a map are in snake case. -/
def InSnake {α : Type} (fields : Fields α) : Prop := ∀ k ∈ fields.keys, toSnake k = k

theorem inSnake_empty {α : Type} : InSnake (Fields.empty : Fields α) := by
  intro k hk
  cases hk

theorem InSnake.insert {α : Type} {fields : Fields α} {k : String} (h : InSnake fields) (hk : toSnake k = k) (a : α) :
    InSnake (fields.insert k a) := by
  intro j hj
  rcases (Fields.mem_keys_insert fields k j a).mp hj with rfl | hj
  · exact hk
  · exact h j hj

theorem InSnake.foldl_erase {α : Type} {fields : Fields α} (h : InSnake fields) (names : List String) :
    InSnake (names.foldl Fields.erase fields) :=
  fun j hj => h j ((Fields.mem_keys_foldl_erase names fields j).mp hj).1

theorem normalizeOver_cons {fields normal : Fields Datum} {e : Datum × Datum} {rest : List (Datum × Datum)}
    (h : normalizeOver fields (e :: rest) = .ok normal) :
    ∃ k, e.1 = .text k ∧ normalizeOver (fields.insert (toSnake k) e.2) rest = .ok normal := by
  obtain ⟨key, item⟩ := e
  cases key with
  | text k => exact ⟨k, rfl, h⟩
  | _ => cases h

theorem inSnake_of_normalizeOver {fields normal : Fields Datum} {entries : List (Datum × Datum)} (start : InSnake fields)
    (h : normalizeOver fields entries = .ok normal) : InSnake normal := by
  induction entries generalizing fields with
  | nil =>
    cases h
    exact start
  | cons e rest ih =>
    obtain ⟨k, -, h⟩ := normalizeOver_cons h
    exact ih (start.insert (toSnake_toSnake k) e.2) h

theorem get?_of_normalizeOver {fields normal : Fields Datum} {entries : List (Datum × Datum)}
    (h : normalizeOver fields entries = .ok normal) (name : String) :
    normal.get? name = (lastUnder name entries).or (fields.get? name) := by
  induction entries generalizing fields with
  | nil =>
    cases h
    rfl
  | cons e rest ih =>
    obtain ⟨k, key, h⟩ := normalizeOver_cons h
    rw [ih h, lastUnder_cons, Option.or_assoc, Fields.get?_insert, key]
    by_cases same : name = toSnake k
    · simp [spells, same]
    · have other : ¬ toSnake k = name := fun e => same e.symm
      simp [spells, same, other]

theorem inSnake_of_normalize {entries : List (Datum × Datum)} {normal : Fields Datum}
    (h : normalize entries = .ok normal) : InSnake normal :=
  inSnake_of_normalizeOver inSnake_empty h

/-- **Normalized entries hold under every name what the last entry that spells it holds.** -/
theorem get?_of_normalize {entries : List (Datum × Datum)} {normal : Fields Datum} (h : normalize entries = .ok normal)
    (name : String) : normal.get? name = lastUnder name entries := by
  rw [get?_of_normalizeOver h, Fields.get?_empty, Option.or_none]

/-- Keys in snake case are written as they are. -/
theorem normalizeOver_texts (fields : Fields Datum) {es : List (String × Datum)}
    (h : ∀ e ∈ es, toSnake e.1 = e.1) :
    normalizeOver fields (es.map fun e => (.text e.1, e.2)) = .ok (fields.insertAll es) := by
  induction es generalizing fields with
  | nil => rfl
  | cons e rest ih =>
    rw [List.map_cons, normalizeOver, h e List.mem_cons_self, ih _ fun d hd => h d (List.mem_cons_of_mem e hd)]
    rfl

/-- **Fields in snake case are normal.** -/
theorem normalize_of_inSnake {fields : Fields Datum} (h : InSnake fields) :
    normalize (fields.entries.map fun e => (.text e.1, e.2)) = .ok fields := by
  rw [normalize, normalizeOver_texts]
  · exact congrArg Except.ok (Fields.ofList_entries fields)
  · exact fun e he => h e.1 (List.mem_map_of_mem he)

/-- Under a name that is spelled once normalized fields hold what they held under it or else under its camel case. -/
theorem get?_normalized_of_spelledOnce {name : String} (own : toSnake name = name)
    (camel : toSnake (toCamel name) = name) {fields normal : Fields Datum} (once : SpelledOnce name fields.keys)
    (h : normalize (fields.entries.map fun e => (.text e.1, e.2)) = .ok normal) :
    normal.get? name = (fields.get? name).or (fields.get? (toCamel name)) := by
  rw [get?_of_normalize h]
  exact lastUnder_of_spelledOnce own camel fields.distinct once

/-! ## Records -/

/-- The entries of a table, or of a value that is an object. -/
def entriesOf : Datum → List (Datum × Datum)
  | .table entries => entries
  | .value v => match v.json with
    | .object fields => Datum.ofFields fields
    | _ => []
  | _ => []

/-- The names of the fields of a document as they are spelled there. -/
def namesIn (d : Datum) : List String :=
  (entriesOf d).filterMap fun e => match e.1 with
    | .text k => some k
    | _ => none

theorem mem_namesIn {d : Datum} {k : String} : k ∈ namesIn d ↔ ∃ item, (.text k, item) ∈ entriesOf d := by
  rw [namesIn, List.mem_filterMap]
  constructor
  · rintro ⟨⟨key, item⟩, mem, isText⟩
    cases key with
    | text j =>
      cases isText
      exact ⟨item, mem⟩
    | _ => cases isText
  · rintro ⟨item, mem⟩
    exact ⟨_, mem, rfl⟩

theorem normalize_of_ofRecord {what : String} {d : Datum} {fields : Fields Datum} (h : ofRecord what d = .ok fields) :
    normalize (entriesOf d) = .ok fields := by
  cases d with
  | table entries => exact h
  | value v =>
    obtain ⟨path, j, distinct⟩ := v
    cases j with
    | object members => exact h
    | _ => cases h
  | _ => cases h

/-- A record written with keys in snake case is read as its fields. -/
theorem ofRecord_ofTextFields (what : String) {fields : Fields Datum} (h : InSnake fields) :
    ofRecord what (Datum.ofTextFields fields) = .ok fields :=
  normalize_of_inSnake h

end Stepflow.FieldName
