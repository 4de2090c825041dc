import Mathlib.Algebra.BigOperators.Group.Multiset.Defs
import Mathlib.Data.List.Nodup
import Mathlib.Data.UInt
import Stepflow.Proofs.Json.Sameness
import Stepflow.Proofs.Number.Value

/-!
# Stepflow.Proofs.Json.Content — equality and hash of trees are those of their content

The content of a tree is what is left when the kind of a number, the sign of zero and the order of fields are forgotten:
a number is a rational number, and an object is a map from keys to contents.

* `same_iff_content`: two trees without repeated keys are equal exactly if they have one content.
* `digest_eq_of_content`: a hash that is built up from the hashes of the parts, the fields of an object without order,
  depends on the content only.  `fingerprint_eq_digest` says that `fingerprint` is such a hash.
-/

namespace Stepflow

/-! ## Maps that agree -/

namespace Fields

variable {α β γ : Type} {m n : Fields α}

theorem mem_entries_iff {k : String} {a : α} : (k, a) ∈ m.entries ↔ m.get? k = some a := by
  refine ⟨get?_of_mem, fun found => ?_⟩
  obtain ⟨e, mem, rfl⟩ := List.mem_map.mp ((m.contains_iff k).mp (by rw [contains, found]; rfl))
  have value := get?_of_mem (show (e.1, e.2) ∈ m.entries from mem)
  rw [found] at value
  rw [Option.some.inj value]
  exact mem

theorem keys_map (f : α → β) (m : Fields α) : (m.map f).keys = m.keys := List.map_map

theorem get?_map (f : α → β) (m : Fields α) (k : String) : (m.map f).get? k = (m.get? k).map f :=
  lookup_map_snd f m.entries k

theorem nodup_entries (m : Fields α) : m.entries.Nodup := m.distinct.of_map Prod.fst

/-- Maps with one value under every key have the same entries, in some order. -/
theorem perm_of_get?_eq (h : ∀ k, m.get? k = n.get? k) : m.entries.Perm n.entries := by
  rw [List.perm_ext_iff_of_nodup m.nodup_entries n.nodup_entries]
  rintro ⟨k, a⟩
  rw [mem_entries_iff, mem_entries_iff, h k]

variable {f : α → β}

/-- Of maps that agree under `f` the entries come to the same. -/
theorem perm_map_of_agree (agree : ∀ k, (m.get? k).map f = (n.get? k).map f) :
    (m.map f).entries.Perm (n.map f).entries :=
  perm_of_get?_eq fun k => by rw [get?_map, get?_map, agree]

/-- What one map has under a key, the other has there. -/
theorem exists_of_agree (agree : ∀ k, (m.get? k).map f = (n.get? k).map f) {e : String × α} (mem : e ∈ m.entries) :
    ∃ b, n.get? e.1 = some b ∧ f e.2 = f b := by
  have value := agree e.1
  rw [mem_entries_iff.mp (show (e.1, e.2) ∈ m.entries from mem), Option.map_some] at value
  obtain ⟨b, found, eq⟩ := Option.map_eq_some_iff.mp value.symm
  exact ⟨b, found, eq.symm⟩

/-- Maps of one size agree if one of them has what the other has under each of its keys. -/
theorem agree_of_found (lengths : m.entries.length = n.entries.length)
    (found : ∀ e ∈ m.entries, ∃ b, n.get? e.1 = some b ∧ f e.2 = f b) (k : String) :
    (m.get? k).map f = (n.get? k).map f := by
  have keys_subset : m.keys ⊆ n.keys := by
    intro j mem
    obtain ⟨e, here, rfl⟩ := List.mem_map.mp mem
    obtain ⟨b, value, -⟩ := found e here
    exact (n.contains_iff e.1).mp (by rw [contains, value]; rfl)
  have keys_perm : m.keys.Perm n.keys :=
    (List.subperm_of_subset m.nodup_keys keys_subset).perm_of_length_le (by simp [keys, lengths])
  cases here : m.get? k with
  | some a =>
    obtain ⟨b, value, eq⟩ := found (k, a) (mem_entries_iff.mpr here)
    rw [value, Option.map_some, Option.map_some, eq]
  | none =>
    have absent : n.get? k = none := by
      rw [← Option.not_isSome_iff_eq_none]
      change ¬ n.contains k = true
      rw [contains_iff, ← keys_perm.mem_iff, ← contains_iff, contains, here]
      exact Bool.false_ne_true
    rw [absent]

theorem agree_iff : (m.entries.length = n.entries.length ∧ ∀ e ∈ m.entries, ∃ b, n.get? e.1 = some b ∧ f e.2 = f b) ↔
    ∀ k, (m.get? k).map f = (n.get? k).map f := by
  constructor
  · rintro ⟨lengths, found⟩
    exact agree_of_found lengths found
  · intro agree
    have lengths : m.entries.length = n.entries.length := by simpa [map] using (perm_map_of_agree agree).length_eq
    exact ⟨lengths, fun e mem => exists_of_agree agree mem⟩

/-- Maps that agree under `f` agree under `g` where `g` follows `f`. -/
theorem agree_of_agree {g : α → γ} (follows : ∀ e ∈ m.entries, ∀ b, n.get? e.1 = some b → f e.2 = f b → g e.2 = g b)
    (agree : ∀ k, (m.get? k).map f = (n.get? k).map f) (k : String) : (m.get? k).map g = (n.get? k).map g := by
  have lengths := (agree_iff.mpr agree).1
  refine agree_of_found lengths (fun e mem => ?_) k
  obtain ⟨b, found, eq⟩ := exists_of_agree agree mem
  exact ⟨b, found, follows e mem b found eq⟩

end Fields

namespace Json

/-! ## Content -/

/-- What equality looks at. -/
inductive Content where
  | null
  | bool (b : Bool)
  | number (q : ℚ)
  | text (s : String)
  | array (items : List Content)
  | object (fields : String → Option Content)

mutual
/-- The content of a tree. -/
def content : Json → Content
  | .null => .null
  | .bool b => .bool b
  | .number n => .number n.value
  | .text s => .text s
  | .array items => .array (contentItems items)
  | .object fields => .object (contentFields fields)

/-- `content` for every item. -/
def contentItems : List Json → List Content
  | [] => []
  | item :: rest => content item :: contentItems rest

/-- The content under a key. -/
def contentFields : List (String × Json) → String → Option Content
  | [], _ => none
  | (k, item) :: rest, j => if j = k then some (content item) else contentFields rest j
end

theorem contentItems_eq_map (items : List Json) : contentItems items = items.map content := by
  induction items with
  | nil => rfl
  | cons item rest ih => rw [contentItems, ih, List.map_cons]

theorem contentFields_eq (fields : List (String × Json)) (k : String) :
    contentFields fields k = (fields.lookup k).map content := by
  induction fields with
  | nil => rfl
  | cons field rest ih =>
    obtain ⟨j, item⟩ := field
    by_cases here : k = j
    · simp [contentFields, here]
    · have other : (k == j) = false := by simpa using here
      simp [contentFields, List.lookup_cons, here, other, ih]

/-- Objects have one content exactly if there is one content under every key. -/
theorem content_object_iff {xs ys : List (String × Json)} :
    (object xs).content = (object ys).content ↔ ∀ k, (xs.lookup k).map content = (ys.lookup k).map content := by
  rw [content, content, Content.object.injEq, funext_iff]
  simp only [contentFields_eq]

theorem kind_eq_of_content {x y : Json} (h : x.content = y.content) : x.kind = y.kind := by
  cases x <;> cases y <;> first | rfl | cases h

mutual

/-- **Trees are equal exactly if they have one content.** -/
theorem same_iff_content {x y : Json} (hx : x.Distinct) (hy : y.Distinct) :
    x.same y = true ↔ x.content = y.content := by
  cases x with
  | null | bool _ | text _ => cases y <;> simp [Json.same, content]
  | number m => cases y <;> simp [Json.same, content, Number.same_iff_value]
  | array xs => cases y with
    | array ys => rw [Json.same, sameItems_iff_content hx hy, content, content, Content.array.injEq]
    | _ => simp [Json.same, content]
  | object xs => cases y with
    | object ys =>
      have values := fun x mem y hy => memberwise_same_iff_content hx.2 x mem (y := y) hy
      have agree := Fields.agree_iff (m := ⟨xs, hx.1⟩) (n := ⟨ys, hy.1⟩) (f := content)
      rw [content_object_iff, Json.same, Bool.and_eq_true, beq_iff_eq, sameFields_iff]
      refine Iff.trans (and_congr_right fun _ => forall₂_congr fun e mem => exists_congr fun y => ?_) agree
      refine and_congr_right fun found => values e mem y ?_
      exact distinctFields_iff.mp hy.2 (e.1, y) (Fields.mem_entries_iff (m := ⟨ys, hy.1⟩).mpr found)
    | _ => simp [Json.same, content]
termination_by structural x

theorem sameItems_iff_content {xs ys : List Json} (hx : DistinctItems xs) (hy : DistinctItems ys) :
    sameItems xs ys = true ↔ contentItems xs = contentItems ys := by
  cases xs with
  | nil => cases ys <;> simp [sameItems, contentItems]
  | cons x xs => cases ys with
    | nil => simp [sameItems, contentItems]
    | cons y ys =>
      rw [sameItems, Bool.and_eq_true, same_iff_content hx.1 hy.1, sameItems_iff_content hx.2 hy.2, contentItems,
        contentItems, List.cons.injEq]
termination_by structural xs

theorem memberwise_same_iff_content {xs : List (String × Json)} (hx : DistinctFields xs) :
    ∀ e ∈ xs, ∀ {y : Json}, y.Distinct → (e.2.same y = true ↔ e.2.content = y.content) := by
  cases xs with
  | nil => nofun
  | cons x xs =>
    obtain ⟨k, x⟩ := x
    intro e mem y hy
    rcases List.mem_cons.mp mem with rfl | later
    · exact same_iff_content hx.1 hy
    · exact memberwise_same_iff_content hx.2 e later hy
termination_by structural xs

end

/-! ## Hashes -/

/-- How the hash of a tree is made from the hashes of its parts: numbers of one value have one hash, and the fields of
an object come without order. -/
structure Hashing (α : Type) where
  null : α
  bool : Bool → α
  number : Number → α
  text : String → α
  array : List α → α
  object : Multiset (String × α) → α
  number_eq : ∀ {m n : Number}, m.value = n.value → number m = number n

variable {α : Type}

mutual
/-- The hash of a tree. -/
def digest (h : Hashing α) : Json → α
  | .null => h.null
  | .bool b => h.bool b
  | .number n => h.number n
  | .text s => h.text s
  | .array items => h.array (digestItems h items)
  | .object fields => h.object (digestFields h fields)

/-- `digest` for every item. -/
def digestItems (h : Hashing α) : List Json → List α
  | [] => []
  | item :: rest => digest h item :: digestItems h rest

/-- `digest` for the value of every field. -/
def digestFields (h : Hashing α) : List (String × Json) → List (String × α)
  | [] => []
  | (k, item) :: rest => (k, digest h item) :: digestFields h rest
end

theorem digestFields_eq_map (h : Hashing α) (fields : List (String × Json)) :
    digestFields h fields = fields.map fun e => (e.1, e.2.digest h) := by
  induction fields with
  | nil => rfl
  | cons field rest ih => rw [digestFields, ih, List.map_cons]

mutual

/-- **Trees of one content hash alike.** -/
theorem digest_eq_of_content (h : Hashing α) {x y : Json} (hx : x.Distinct) (hy : y.Distinct)
    (eq : x.content = y.content) : x.digest h = y.digest h := by
  cases x with
  | null | bool _ | text _ => cases y <;> simp_all [content]
  | number m => cases y with
    | number n => exact h.number_eq (Content.number.inj eq)
    | _ => cases eq
  | array xs => cases y with
    | array ys => rw [digest, digest, digestItems_eq h hx hy (Content.array.inj eq)]
    | _ => cases eq
  | object xs => cases y with
    | object ys =>
      -- the fields of the other object stand in another order, so each is looked up under its key
      have values : ∀ e ∈ xs, ∀ y, ys.lookup e.1 = some y → e.2.content = y.content → e.2.digest h = y.digest h :=
        fun e mem y found => memberwise_digest_eq h hx.2 e mem
          (distinctFields_iff.mp hy.2 (e.1, y) (Fields.mem_entries_iff (m := ⟨ys, hy.1⟩).mpr found))
      have agree := Fields.agree_of_agree (m := ⟨xs, hx.1⟩) (n := ⟨ys, hy.1⟩) values (content_object_iff.mp eq)
      rw [digest, digest, digestFields_eq_map, digestFields_eq_map]
      exact congrArg h.object (Multiset.coe_eq_coe.mpr (Fields.perm_map_of_agree agree))
    | _ => cases eq
termination_by structural x

theorem digestItems_eq (h : Hashing α) {xs ys : List Json} (hx : DistinctItems xs) (hy : DistinctItems ys)
    (eq : contentItems xs = contentItems ys) : digestItems h xs = digestItems h ys := by
  cases xs with
  | nil => cases ys with
    | nil => rfl
    | cons _ _ => cases eq
  | cons x xs => cases ys with
    | nil => cases eq
    | cons y ys =>
      obtain ⟨first, others⟩ := List.cons.inj eq
      rw [digestItems, digestItems, digest_eq_of_content h hx.1 hy.1 first, digestItems_eq h hx.2 hy.2 others]
termination_by structural xs

theorem memberwise_digest_eq (h : Hashing α) {xs : List (String × Json)} (hx : DistinctFields xs) :
    ∀ e ∈ xs, ∀ {y : Json}, y.Distinct → e.2.content = y.content → e.2.digest h = y.digest h := by
  cases xs with
  | nil => nofun
  | cons x xs =>
    obtain ⟨k, x⟩ := x
    intro e mem y hy eq
    rcases List.mem_cons.mp mem with rfl | later
    · exact digest_eq_of_content h hx.1 hy eq
    · exact memberwise_digest_eq h hx.2 e later hy eq
termination_by structural xs

end

/-- The hash that values have: the hashes of the fields are summed. -/
def fingerprinting : Hashing UInt64 where
  null := 11
  bool b := mixHash 13 (hash b)
  number n := mixHash 17 (hash n.units)
  text s := mixHash 19 (hash s)
  array items := mixHash 23 (items.foldr mixHash 31)
  object fields := mixHash 29 (fields.map fun e => mixHash (hash e.1) e.2).sum
  number_eq eq := by rw [Number.value_eq_iff.mp eq]

mutual

theorem fingerprint_eq_digest (j : Json) : j.fingerprint = j.digest fingerprinting := by
  cases j with
  | null | bool _ | number _ | text _ => rfl
  | array items =>
    rw [fingerprint, fingerprintItems_eq_foldr, digest]
    rfl
  | object fields =>
    rw [fingerprint, fingerprintFields_eq_sum, digest]
    rfl

theorem fingerprintItems_eq_foldr (items : List Json) :
    fingerprintItems items = (digestItems fingerprinting items).foldr mixHash 31 := by
  cases items with
  | nil => rfl
  | cons item rest =>
    rw [fingerprintItems, fingerprint_eq_digest item, fingerprintItems_eq_foldr rest, digestItems, List.foldr_cons]

theorem fingerprintFields_eq_sum (fields : List (String × Json)) : fingerprintFields fields =
    ((digestFields fingerprinting fields : Multiset (String × UInt64)).map fun e => mixHash (hash e.1) e.2).sum := by
  cases fields with
  | nil => rfl
  | cons field rest =>
    obtain ⟨k, item⟩ := field
    rw [fingerprintFields, fingerprint_eq_digest item, fingerprintFields_eq_sum rest, digestFields, ← Multiset.cons_coe,
      Multiset.map_cons, Multiset.sum_cons]

end

end Json

end Stepflow
