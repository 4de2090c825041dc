import Stepflow.Fields
import Stepflow.Json.Basic

/-!
# Stepflow.Proofs.Json.Sameness — what equality and hash of trees depend on

`Rearranged` relates trees that differ in the order of fields only, at any depth.

* `Rearranged.same`, `Rearranged.fingerprint_eq`: rearranged trees are equal and hash alike, so every tree is equal to
  itself (`same_self`).
* `rearranged_sorted`, `Distinct.sorted`: sorting the fields of all objects rearranges, and repeats no key.
-/

namespace Stepflow.Json

/-! ## Rearranging -/

mutual
/-- The trees are the same but for the order of the fields of objects. -/
def Rearranged : Json → Json → Prop
  | .null, .null => True
  | .bool a, .bool b => a = b
  | .number m, .number n => m = n
  | .text s, .text t => s = t
  | .array xs, .array ys => RearrangedItems xs ys
  | .object xs, .object zs => ∃ ys, RearrangedFields xs ys ∧ ys.Perm zs
  | _, _ => False

/-- `Rearranged` position by position. -/
def RearrangedItems : List Json → List Json → Prop
  | [], [] => True
  | x :: xs, y :: ys => Rearranged x y ∧ RearrangedItems xs ys
  | _, _ => False

/-- The keys are the same, and the values `Rearranged`, position by position. -/
def RearrangedFields : List (String × Json) → List (String × Json) → Prop
  | [], [] => True
  | (j, x) :: xs, (k, y) :: ys => j = k ∧ Rearranged x y ∧ RearrangedFields xs ys
  | _, _ => False
end

mutual
theorem Rearranged.refl (j : Json) : Rearranged j j := by
  cases j with
  | null => exact trivial
  | bool | number | text => rfl
  | array items => exact RearrangedItems.refl items
  | object fields => exact ⟨fields, RearrangedFields.refl fields, .refl _⟩

theorem RearrangedItems.refl (items : List Json) : RearrangedItems items items := by
  cases items with
  | nil => exact trivial
  | cons item rest => exact ⟨Rearranged.refl item, RearrangedItems.refl rest⟩

theorem RearrangedFields.refl (fields : List (String × Json)) : RearrangedFields fields fields := by
  cases fields with
  | nil => exact trivial
  | cons field rest => exact ⟨rfl, Rearranged.refl field.2, RearrangedFields.refl rest⟩
end

theorem RearrangedFields.map_fst_eq {xs ys : List (String × Json)} (h : RearrangedFields xs ys) :
    xs.map Prod.fst = ys.map Prod.fst := by
  induction xs generalizing ys with
  | nil => cases ys with
    | nil => rfl
    | cons _ _ => exact h.elim
  | cons x xs ih => cases ys with
    | nil => exact h.elim
    | cons y ys =>
      obtain ⟨key, -, others⟩ := h
      rw [List.map_cons, List.map_cons, key, ih others]

/-! ### Hashes -/

/-- The hashes of fields are summed, so their order does not count. -/
theorem fingerprintFields_perm {xs ys : List (String × Json)} (h : xs.Perm ys) :
    fingerprintFields xs = fingerprintFields ys := by
  induction h with
  | nil => rfl
  | cons field _ ih => rw [fingerprintFields, fingerprintFields, ih]
  | swap x y rest =>
    simp only [fingerprintFields]
    rw [← UInt64.add_assoc, UInt64.add_comm (mixHash _ _), UInt64.add_assoc]
  | trans _ _ first second => rw [first, second]

mutual
theorem Rearranged.fingerprint_eq {x y : Json} (h : Rearranged x y) : x.fingerprint = y.fingerprint := by
  cases x with
  | null | bool _ | number _ | text _ => cases y <;> simp_all [Rearranged]
  | array xs => cases y with
    | array ys =>
      have items : RearrangedItems xs ys := h
      rw [Json.fingerprint, Json.fingerprint, items.fingerprint_eq]
    | _ => exact h.elim
  | object xs => cases y with
    | object zs =>
      obtain ⟨ys, pointwise, perm⟩ := h
      rw [Json.fingerprint, Json.fingerprint, RearrangedFields.fingerprint_eq pointwise, fingerprintFields_perm perm]
    | _ => exact h.elim

theorem RearrangedItems.fingerprint_eq {xs ys : List Json} (h : RearrangedItems xs ys) :
    fingerprintItems xs = fingerprintItems ys := by
  cases xs with
  | nil => cases ys with
    | nil => rfl
    | cons _ _ => exact h.elim
  | cons x xs => cases ys with
    | nil => exact h.elim
    | cons y ys =>
      rw [fingerprintItems, fingerprintItems, Rearranged.fingerprint_eq h.1, RearrangedItems.fingerprint_eq h.2]

theorem RearrangedFields.fingerprint_eq {xs ys : List (String × Json)} (h : RearrangedFields xs ys) :
    fingerprintFields xs = fingerprintFields ys := by
  cases xs with
  | nil => cases ys with
    | nil => rfl
    | cons _ _ => exact h.elim
  | cons x xs => cases ys with
    | nil => exact h.elim
    | cons y ys =>
      obtain ⟨j, x⟩ := x
      obtain ⟨k, y⟩ := y
      obtain ⟨key, value, others⟩ := h
      rw [fingerprintFields, fingerprintFields, key, Rearranged.fingerprint_eq value,
        RearrangedFields.fingerprint_eq others]
end

/-! ### Equality -/

mutual
/-- **Rearranged trees are equal.** -/
theorem Rearranged.same {x y : Json} (h : Rearranged x y) (distinct : y.Distinct) : x.same y = true := by
  cases x with
  | null | bool _ | number _ | text _ => cases y <;> simp_all [Rearranged, Json.same, Number.same]
  | array xs => cases y with
    | array ys => exact RearrangedItems.same h distinct
    | _ => exact h.elim
  | object xs => cases y with
    | object zs =>
      obtain ⟨ys, pointwise, perm⟩ := h
      obtain ⟨nodup, below⟩ := distinct
      have lengths : xs.length = zs.length := by
        rw [← perm.length_eq, ← List.length_map Prod.fst, pointwise.map_fst_eq, List.length_map]
      rw [Json.same, Bool.and_eq_true, beq_iff_eq]
      exact ⟨lengths,
        RearrangedFields.same pointwise (fun _ mem => perm.subset mem) nodup (distinctFields_iff.mp below)⟩
    | _ => exact h.elim
termination_by structural x

theorem RearrangedItems.same {xs ys : List Json} (h : RearrangedItems xs ys) (distinct : DistinctItems ys) :
    sameItems xs ys = true := by
  cases xs with
  | nil => cases ys with
    | nil => rfl
    | cons _ _ => exact h.elim
  | cons x xs => cases ys with
    | nil => exact h.elim
    | cons y ys =>
      rw [sameItems, Rearranged.same h.1 distinct.1, RearrangedItems.same h.2 distinct.2]
      rfl
termination_by structural xs

/-- The fields that stand for those of `xs` may stand anywhere in `zs`. -/
theorem RearrangedFields.same {xs ys zs : List (String × Json)} (h : RearrangedFields xs ys) (among : ∀ y ∈ ys, y ∈ zs)
    (nodup : (zs.map Prod.fst).Nodup) (distinct : ∀ z ∈ zs, z.2.Distinct) : sameFields xs zs = true := by
  cases xs with
  | nil => rfl
  | cons x xs => cases ys with
    | nil => exact h.elim
    | cons y ys =>
      obtain ⟨j, x⟩ := x
      obtain ⟨k, y⟩ := y
      obtain ⟨rfl, value, others⟩ := h
      have mem : (j, y) ∈ zs := among _ List.mem_cons_self
      have found : zs.lookup j = some y := Fields.lookup_of_mem nodup mem
      rw [sameFields, found]
      dsimp only
      rw [Rearranged.same value (distinct _ mem),
        RearrangedFields.same others (fun y hy => among y (List.mem_cons_of_mem _ hy)) nodup distinct]
      rfl
termination_by structural xs
end

theorem sameFields_iff {xs ys : List (String × Json)} :
    sameFields xs ys = true ↔ ∀ e ∈ xs, ∃ y, ys.lookup e.1 = some y ∧ e.2.same y = true := by
  induction xs with
  | nil => simp [sameFields]
  | cons x xs ih =>
    obtain ⟨k, x⟩ := x
    rw [sameFields, Bool.and_eq_true, ih, List.forall_mem_cons]
    cases ys.lookup k with
    | none => simp
    | some y => simp

/-- Every tree is equal to itself. -/
theorem same_self {j : Json} (distinct : j.Distinct) : j.same j = true := (Rearranged.refl j).same distinct

/-! ## Sorting -/

theorem sortFields_perm (fields : List (String × Json)) : (sortFields fields).Perm fields :=
  List.mergeSort_perm fields _

mutual
/-- **Sorting the fields of all objects rearranges a tree.** -/
theorem rearranged_sorted (j : Json) : Rearranged j j.sorted := by
  cases j with
  | null => exact trivial
  | bool _ | number _ | text _ => rfl
  | array items => exact rearrangedItems_sortedItems items
  | object fields => exact ⟨sortedFields fields, rearrangedFields_sortedFields fields, (sortFields_perm _).symm⟩

theorem rearrangedItems_sortedItems (items : List Json) : RearrangedItems items (sortedItems items) := by
  cases items with
  | nil => exact trivial
  | cons item rest => exact ⟨rearranged_sorted item, rearrangedItems_sortedItems rest⟩

theorem rearrangedFields_sortedFields (fields : List (String × Json)) :
    RearrangedFields fields (sortedFields fields) := by
  cases fields with
  | nil => exact trivial
  | cons field rest => exact ⟨rfl, rearranged_sorted field.2, rearrangedFields_sortedFields rest⟩
end

mutual
/-- **The sorted tree is equal to the tree**, from its side as well. -/
theorem sorted_same {j : Json} (distinct : j.Distinct) : j.sorted.same j = true := by
  cases j with
  | null => rfl
  | bool _ | number _ | text _ => simp [sorted, Json.same, Number.same]
  | array items => exact sortedItems_same distinct
  | object fields =>
    have perm := sortFields_perm (sortedFields fields)
    have lengths : (sortFields (sortedFields fields)).length = fields.length := by
      rw [perm.length_eq, ← List.length_map Prod.fst, ← (rearrangedFields_sortedFields fields).map_fst_eq,
        List.length_map]
    rw [sorted, Json.same, Bool.and_eq_true, beq_iff_eq]
    refine ⟨lengths, sameFields_iff.mpr fun e mem => ?_⟩
    obtain ⟨x, of, value⟩ := sortedFields_same distinct.2 e (perm.subset mem)
    exact ⟨x, Fields.lookup_of_mem distinct.1 of, value⟩
termination_by structural j

theorem sortedItems_same {items : List Json} (distinct : DistinctItems items) :
    sameItems (sortedItems items) items = true := by
  cases items with
  | nil => rfl
  | cons item rest =>
    rw [sortedItems, sameItems, sorted_same distinct.1, sortedItems_same distinct.2]
    rfl
termination_by structural items

theorem sortedFields_same {fields : List (String × Json)} (distinct : DistinctFields fields) :
    ∀ e ∈ sortedFields fields, ∃ x, (e.1, x) ∈ fields ∧ e.2.same x = true := by
  cases fields with
  | nil => nofun
  | cons field rest =>
    obtain ⟨k, x⟩ := field
    intro e mem
    rw [sortedFields] at mem
    rcases List.mem_cons.mp mem with rfl | mem
    · exact ⟨x, List.mem_cons_self, sorted_same distinct.1⟩
    · obtain ⟨y, of, value⟩ := sortedFields_same distinct.2 e mem
      exact ⟨y, List.mem_cons_of_mem _ of, value⟩
termination_by structural fields
end

mutual
/-- Sorting repeats no key. -/
theorem Distinct.sorted {j : Json} (h : j.Distinct) : j.sorted.Distinct := by
  cases j with
  | null | bool _ | number _ | text _ => exact trivial
  | array items => exact DistinctItems.sortedItems h
  | object fields =>
    have perm := sortFields_perm (sortedFields fields)
    have keys : (sortedFields fields).map Prod.fst = fields.map Prod.fst :=
      (rearrangedFields_sortedFields fields).map_fst_eq.symm
    have below := distinctFields_iff.mp (DistinctFields.sortedFields h.2)
    refine ⟨?_, distinctFields_iff.mpr fun field mem => below field (perm.subset mem)⟩
    rw [(perm.map Prod.fst).nodup_iff, keys]
    exact h.1

theorem DistinctItems.sortedItems {items : List Json} (h : DistinctItems items) :
    DistinctItems (Json.sortedItems items) := by
  cases items with
  | nil => exact trivial
  | cons item rest => exact ⟨Distinct.sorted h.1, DistinctItems.sortedItems h.2⟩

theorem DistinctFields.sortedFields {fields : List (String × Json)} (h : DistinctFields fields) :
    DistinctFields (Json.sortedFields fields) := by
  cases fields with
  | nil => exact trivial
  | cons field rest => exact ⟨Distinct.sorted h.1, DistinctFields.sortedFields h.2⟩
end

end Stepflow.Json
