import Stepflow.Condition
import Stepflow.Proofs.Freezing
import Stepflow.Proofs.Json.Content

/-!
# Stepflow.Proofs.Equality — what equality of values, states and guards means

* `Value.same_iff_content`, `State.same_iff`: values are equal exactly if they have one content, states exactly if they
  have values of one content under every key.
* `TupleHashing`: hashes that are made by hashing tuples, and sets without order; `TupleHashing.summing` is one.
* `Value.equality_laws`: equality is an equivalence that looks at the content only, equal values hash alike, and a guard
  answers alike in equal states and for equal expected values.
-/

namespace Stepflow

namespace Value

/-- The content of a value. -/
def content (v : Value) : Json.Content := v.json.content

/-- **Values are equal exactly if they have one content.** -/
theorem same_iff_content {v w : Value} : v.same w = true ↔ v.content = w.content :=
  Json.same_iff_content v.distinct w.distinct

theorem content_of_number {v : Value} {n : Number} (h : v.asNumber = .ok n) : v.content = .number n.value := by
  obtain ⟨path, j, distinct⟩ := v
  cases j with
  | number m =>
    cases h
    rfl
  | _ => cases h

/-- Arrays are compared position by position. -/
theorem content_of_items? {v : Value} {items : List Value} (view : v.items? = some items) :
    v.content = .array (items.map content) := by
  rw [content, json_of_items? view, Json.content, Json.contentItems_eq_map, List.map_map]
  rfl

/-- Objects are compared as maps. -/
theorem content_of_fields? {v : Value} {fields : Fields Value} (view : v.fields? = some fields) :
    v.content = .object fun k => (fields.get? k).map content := by
  rw [content, json_of_fields? view, Json.content]
  refine congrArg Json.Content.object (funext fun k => ?_)
  have value : (fields.map json).entries.lookup k = (fields.get? k).map json := Fields.get?_map json fields k
  rw [Json.contentFields_eq, value, Option.map_map]
  rfl

/-- Values of different kinds differ. -/
theorem kind_eq_of_same {v w : Value} (h : v.same w = true) : v.kind = w.kind :=
  Json.kind_eq_of_content (same_iff_content.mp h)

end Value

/-- How values are hashed where a value is hashed as the tuple of its kind and its content: an array as the tuple of its
items, and an object as the set, without order, of its keys and values. -/
structure TupleHashing (α : Type) where
  kind : Kind → α
  null : α
  bool : Bool → α
  number : Number → α
  text : String → α
  tuple : List α → α
  set : Multiset α → α
  number_eq : ∀ {m n : Number}, m.value = n.value → number m = number n

/-- The hashing of trees by tuples. -/
def TupleHashing.hashing {α : Type} (h : TupleHashing α) : Json.Hashing α where
  null := h.tuple [h.kind .null, h.null]
  bool b := h.tuple [h.kind .boolean, h.bool b]
  number n := h.tuple [h.kind .number, h.number n]
  text s := h.tuple [h.kind .string, h.text s]
  array items := h.tuple [h.kind .array, h.tuple items]
  object fields := h.tuple [h.kind .object, h.set (fields.map fun e => h.tuple [h.text e.1, e.2])]
  number_eq eq := by rw [h.number_eq eq]

/-- The hashing by tuples whose sets sum up the hashes of their members. -/
def TupleHashing.summing : TupleHashing UInt64 where
  kind k := hash k.name
  null := 11
  bool b := hash b
  number n := hash n.units
  text s := hash s
  tuple parts := parts.foldr mixHash 31
  set members := members.sum
  number_eq eq := by rw [Number.value_eq_iff.mp eq]

/-- **States are equal exactly if they have values of one content under every key.** -/
theorem State.same_iff {s t : State} :
    s.same t = true ↔ ∀ k, (s.get? k).map Value.content = (t.get? k).map Value.content := by
  rw [← Fields.agree_iff, State.same, Bool.and_eq_true, beq_iff_eq, List.all_eq_true]
  refine and_congr_right fun _ => forall₂_congr fun e _ => ?_
  cases t.get? e.1 <;> simp [Value.same_iff_content]

namespace Condition

theorem same_iff {c d : Condition} : c.same d = true ↔
    c.key = d.key ∧ c.presence = d.presence ∧ c.expected.map Value.content = d.expected.map Value.content := by
  rw [same, Bool.and_eq_true, Bool.and_eq_true, beq_iff_eq, beq_iff_eq, and_assoc]
  refine and_congr_right fun _ => and_congr_right fun _ => ?_
  cases c.expected <;> cases d.expected <;> simp [Value.same_iff_content]

/-- A guard looks at the content of its expected value, and at the content under its key. -/
theorem holds_iff {c : Condition} {s : State} : c.holds s = true ↔ match c.expected.map Value.content with
    | some q => (s.get? c.key).map Value.content = some q
    | none => ((s.get? c.key).map Value.content).isSome = c.presence := by
  rw [holds]
  cases c.expected with
  | some v => cases s.get? c.key <;> simp [Value.same_iff_content]
  | none => simp [Fields.contains]

end Condition

namespace Value

/-- Equality of values is an equivalence; it looks at the content only, whatever the paths, and tells the kinds apart.
Equal values have one hash, the one that values have and every one that is made by hashing tuples and sets without
order.  Equal guards answer alike in equal states. -/
theorem equality_laws :
    (∀ v : Value, v.same v = true) ∧ (∀ v w : Value, v.same w = true → w.same v = true) ∧
    (∀ u v w : Value, u.same v = true → v.same w = true → u.same w = true) ∧
    (∀ v w : Value, v.same w = true ↔ v.content = w.content) ∧
    (∀ (v : Value) n, v.asNumber = .ok n → v.content = .number n.value) ∧
    (∀ (v : Value) items, v.items? = some items → v.content = .array (items.map content)) ∧
    (∀ (v : Value) fields, v.fields? = some fields → v.content = .object fun k => (fields.get? k).map content) ∧
    (∀ v w : Value, v.same w = true → v.kind = w.kind) ∧
    (∀ (v w : Value) (p q : String), (v.relocate p).same (w.relocate q) = v.same w) ∧
    (∀ v w : Value, v.same w = true → v.fingerprint = w.fingerprint ∧
      ∀ {α : Type} (h : TupleHashing α), v.json.digest h.hashing = w.json.digest h.hashing) ∧
    ∀ (c d : Condition) (s t : State), c.same d = true → s.same t = true → c.holds s = d.holds t := by
  refine ⟨fun v => same_iff_content.mpr rfl, fun v w same => ?_, fun u v w first second => ?_,
    fun v w => same_iff_content, fun _ _ => content_of_number, fun _ _ => content_of_items?, fun _ _ => content_of_fields?,
    fun v w => kind_eq_of_same, fun _ _ _ _ => rfl, fun v w same => ?_, fun c d s t guards states => ?_⟩
  · exact same_iff_content.mpr (same_iff_content.mp same).symm
  · exact same_iff_content.mpr ((same_iff_content.mp first).trans (same_iff_content.mp second))
  · have contents := same_iff_content.mp same
    refine ⟨?_, fun h => Json.digest_eq_of_content h.hashing v.distinct w.distinct contents⟩
    rw [fingerprint, fingerprint, Json.fingerprint_eq_digest, Json.fingerprint_eq_digest]
    exact Json.digest_eq_of_content _ v.distinct w.distinct contents
  · obtain ⟨key, presence, expected⟩ := Condition.same_iff.mp guards
    rw [Bool.eq_iff_iff, Condition.holds_iff, Condition.holds_iff, key, presence, expected, State.same_iff.mp states]

/-- Beyond the whole numbers that doubles tell apart there is still no rounding. -/
example : ¬ (number "$" (.int 9007199254740993)).same
    (number "$" (.double ⟨false, leadingMantissa, 1075, by decide, by decide, by decide⟩)) := by
  decide +kernel

/-- A count and its marks. -/
def tally : Value :=
  object "$" (.ofList [("count", number "$" (.int 1)), ("marks", array "$" [bool "$" true, null])])

/-- The same in another order, elsewhere, and with a count that is a double. -/
def recount : Value :=
  object "$.kept" (.ofList [("marks", array "$" [bool "$" true, null]),
    ("count", number "$" (.double .one))])

theorem tally_recount : tally.same recount = true ∧ recount.same tally = true ∧
    tally.fingerprint = recount.fingerprint ∧
    tally.json.digest TupleHashing.summing.hashing = recount.json.digest TupleHashing.summing.hashing ∧
    (Condition.mk "kept" (some tally) true).holds (Fields.empty.insert "kept" recount) =
      (Condition.mk "kept" (some recount) true).holds (Fields.empty.insert "kept" tally) := by
  obtain ⟨-, symmetric, -, -, -, -, -, -, -, hashes, guards⟩ := equality_laws
  have same : tally.same recount = true := by decide +kernel
  obtain ⟨fingerprints, digests⟩ := hashes tally recount same
  exact ⟨same, symmetric tally recount same, fingerprints, digests TupleHashing.summing,
    guards _ _ _ _ (by decide +kernel) (by decide +kernel)⟩

end Value

end Stepflow
