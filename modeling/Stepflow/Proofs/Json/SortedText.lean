import Mathlib.Data.List.Permutation
import Stepflow.Proofs.Json.RoundTrip

/-!
# Stepflow.Proofs.Json.SortedText — the text in the order of the keys is canonical

* `sorted_eq_iff`: two trees, one of them without repeated keys, are sorted into one tree exactly if they differ in the
  order of fields only.
* `renderSorted_inj`: a text in the order of the keys is the text of one sorted tree.
* `Value.renderSorted_canonical`: values have one such text exactly if they differ in the order of fields only, and then
  they are equal.
-/

namespace Stepflow.Json

/-! ## Sorting forgets the order of fields -/

theorem sortedFields_eq_map (fields : List (String × Json)) :
    sortedFields fields = fields.map fun e => (e.1, e.2.sorted) := by
  induction fields with
  | nil => rfl
  | cons field rest ih => rw [sortedFields, ih, List.map_cons]

theorem pairwise_sortFields (fields : List (String × Json)) : (sortFields fields).Pairwise fun a b => a.1 ≤ b.1 := by
  have ordered := @List.pairwise_mergeSort _ (fun a b : String × Json => decide (a.1 ≤ b.1))
    (fun _ _ _ ab bc => decide_eq_true (String.le_trans (of_decide_eq_true ab) (of_decide_eq_true bc)))
    (fun a b => by simpa using String.le_total a.1 b.1) fields
  exact ordered.imp of_decide_eq_true

/-- Fields with different keys have one order. -/
theorem sortFields_eq_of_perm {xs ys : List (String × Json)} (perm : xs.Perm ys) (nodup : (xs.map Prod.fst).Nodup) :
    sortFields xs = sortFields ys := by
  have sorted_perm : (sortFields xs).Perm (sortFields ys) :=
    (sortFields_perm xs).trans (perm.trans (sortFields_perm ys).symm)
  refine sorted_perm.eq_of_pairwise (fun a b ha hb ab ba => ?_) (pairwise_sortFields xs) (pairwise_sortFields ys)
  have mem_a : a ∈ xs := (sortFields_perm xs).subset ha
  have mem_b : b ∈ xs := perm.symm.subset ((sortFields_perm ys).subset hb)
  exact List.inj_on_of_nodup_map nodup mem_a mem_b (String.le_antisymm ab ba)

mutual

/-- Rearranged trees are sorted into one tree. -/
theorem Rearranged.sorted_eq {x y : Json} (h : Rearranged x y) (distinct : x.Distinct) : x.sorted = y.sorted := by
  cases x with
  | null | bool _ | number _ | text _ => cases y <;> simp_all [Rearranged]
  | array xs => cases y with
    | array ys => rw [sorted, sorted, RearrangedItems.sortedItems_eq h distinct]
    | _ => exact h.elim
  | object xs => cases y with
    | object zs =>
      obtain ⟨ys, pointwise, perm⟩ := h
      have same_fields : sortedFields xs = sortedFields ys := RearrangedFields.sortedFields_eq pointwise distinct.2
      have keys : (sortedFields xs).map Prod.fst = xs.map Prod.fst :=
        (rearrangedFields_sortedFields xs).map_fst_eq.symm
      have rearranged : (sortedFields xs).Perm (sortedFields zs) := by
        rw [same_fields, sortedFields_eq_map, sortedFields_eq_map]
        exact perm.map _
      rw [sorted, sorted, sortFields_eq_of_perm rearranged (keys ▸ distinct.1)]
    | _ => exact h.elim
termination_by structural x

theorem RearrangedItems.sortedItems_eq {xs ys : List Json} (h : RearrangedItems xs ys) (distinct : DistinctItems xs) :
    sortedItems xs = sortedItems ys := by
  cases xs with
  | nil => cases ys with
    | nil => rfl
    | cons _ _ => exact h.elim
  | cons x xs => cases ys with
    | nil => exact h.elim
    | cons y ys =>
      rw [sortedItems, sortedItems, Rearranged.sorted_eq h.1 distinct.1,
        RearrangedItems.sortedItems_eq h.2 distinct.2]
termination_by structural xs

theorem RearrangedFields.sortedFields_eq {xs ys : List (String × Json)} (h : RearrangedFields xs ys)
    (distinct : DistinctFields xs) : sortedFields xs = sortedFields ys := by
  cases xs with
  | nil => cases ys with
    | nil => rfl
    | cons _ _ => exact h.elim
  | cons x xs => cases ys with
    | nil => exact h.elim
    | cons y ys =>
      obtain ⟨j, x⟩ := x
      obtain ⟨k, y⟩ := y
      obtain ⟨rfl, value, others⟩ := h
      rw [sortedFields, sortedFields, Rearranged.sorted_eq value distinct.1,
        RearrangedFields.sortedFields_eq others distinct.2]
termination_by structural xs

end

mutual

/-- Trees that are sorted into one tree are rearranged. -/
theorem rearranged_of_sorted_eq {x y : Json} (h : x.sorted = y.sorted) : Rearranged x y := by
  cases x with
  | null | bool _ | number _ | text _ => cases y <;> simp_all [sorted, Rearranged]
  | array xs => cases y with
    | array ys => exact rearrangedItems_of_sortedItems_eq (Json.array.inj h)
    | _ => cases h
  | object xs => cases y with
    | object zs =>
      have fields_eq : sortFields (sortedFields xs) = sortFields (sortedFields zs) := Json.object.inj h
      have perm : (sortedFields xs).Perm (zs.map fun e => (e.1, e.2.sorted)) := by
        rw [← sortedFields_eq_map]
        exact (sortFields_perm _).symm.trans (fields_eq ▸ sortFields_perm _)
      obtain ⟨ys, eq, perm⟩ := (congrFun₂ (List.eq_map_comp_perm _) _ _).mpr perm
      exact ⟨ys, rearrangedFields_of_sortedFields_eq (eq.trans (sortedFields_eq_map ys).symm), perm⟩
    | _ => cases h
termination_by structural x

theorem rearrangedItems_of_sortedItems_eq {xs ys : List Json} (h : sortedItems xs = sortedItems ys) :
    RearrangedItems xs ys := by
  cases xs with
  | nil => cases ys with
    | nil => exact trivial
    | cons _ _ => cases h
  | cons x xs => cases ys with
    | nil => cases h
    | cons y ys =>
      obtain ⟨first, others⟩ := List.cons.inj h
      exact ⟨rearranged_of_sorted_eq first, rearrangedItems_of_sortedItems_eq others⟩
termination_by structural xs

theorem rearrangedFields_of_sortedFields_eq {xs ys : List (String × Json)} (h : sortedFields xs = sortedFields ys) :
    RearrangedFields xs ys := by
  cases xs with
  | nil => cases ys with
    | nil => exact trivial
    | cons _ _ => cases h
  | cons x xs => cases ys with
    | nil => cases h
    | cons y ys =>
      obtain ⟨j, x⟩ := x
      obtain ⟨k, y⟩ := y
      obtain ⟨first, others⟩ := List.cons.inj h
      obtain ⟨key, value⟩ := Prod.mk.inj first
      exact ⟨key, rearranged_of_sorted_eq value, rearrangedFields_of_sortedFields_eq others⟩
termination_by structural xs

end

/-- **Sorting makes of rearranged trees, and of no others, one tree.** -/
theorem sorted_eq_iff {x y : Json} (distinct : x.Distinct) : x.sorted = y.sorted ↔ Rearranged x y :=
  ⟨rearranged_of_sorted_eq, fun h => h.sorted_eq distinct⟩

/-! ## Texts -/

/-- A tree without repeated keys is known from its text. -/
theorem render_inj {x y : Json} (hx : x.Distinct) (hy : y.Distinct) (h : x.render = y.render) : x = y := by
  have read := Value.ofText_renderJson hx x.within_none
  rw [h, Value.ofText_renderJson hy y.within_none] at read
  exact (Value.mk.inj (Except.ok.inj read)).2.symm

theorem renderSorted_inj {x y : Json} (hx : x.Distinct) (hy : y.Distinct) :
    x.renderSorted = y.renderSorted ↔ x.sorted = y.sorted :=
  ⟨render_inj hx.sorted hy.sorted, congrArg render⟩

end Stepflow.Json

namespace Stepflow.Value

/-- **Canonical text.**  Values have one text in the order of the keys exactly if they are one tree but for the order of
fields at every level, numbers in their kind and with the sign of zero included.  Values of one such text are equal, and
the fields of an object may be written in any order. -/
theorem renderSorted_canonical :
    (∀ v w : Value, v.json.renderSorted = w.json.renderSorted ↔ v.json.Rearranged w.json) ∧
    (∀ v w : Value, v.json.renderSorted = w.json.renderSorted → v.same w = true) ∧
    ∀ (path : String) (xs ys : Fields Value), xs.entries.Perm ys.entries →
      (object path xs).json.renderSorted = (object path ys).json.renderSorted := by
  have canonical : ∀ v w : Value, v.json.renderSorted = w.json.renderSorted ↔ v.json.Rearranged w.json :=
    fun v w => (Json.renderSorted_inj v.distinct w.distinct).trans (Json.sorted_eq_iff v.distinct)
  refine ⟨canonical, fun v w eq => ((canonical v w).mp eq).same w.distinct, fun path xs ys perm => ?_⟩
  exact (canonical _ _).mpr ⟨_, Json.RearrangedFields.refl _, perm.map _⟩

/-- The zeros are equal, and yet two trees. -/
example : (number "$" (.double (.zero true))).same (number "$" (.double (.zero false))) ∧
    (number "$" (.double (.zero true))).json.renderSorted ≠ (number "$" (.double (.zero false))).json.renderSorted := by
  decide +kernel

/-- An order of two goods. -/
def basket : Value :=
  object "$" (.ofList [("tea", object "$" (.ofList [("price", number "$" (.double (.zero true))), ("count", null)])),
    ("é", array "$" [text "$" "\n", bool "$" true])])

/-- The same order, written down in another way. -/
def repackedBasket : Value :=
  object "$.order" (.ofList [("é", array "$" [text "$" "\n", bool "$" true]),
    ("tea", object "$" (.ofList [("count", null), ("price", number "$" (.double (.zero true)))]))])

/-- The text of either. -/
def basketText : String := "\x7b\"tea\":\x7b\"count\":null,\"price\":-0.0\x7d,\"é\":[\"\\n\",true]\x7d"

theorem repackedBasket_canonical :
    basket.json.renderSorted = basketText ∧ repackedBasket.json.renderSorted = basketText ∧
      basket.json.Rearranged repackedBasket.json ∧ basket.same repackedBasket = true := by
  obtain ⟨canonical, equal, -⟩ := renderSorted_canonical
  have written : basket.json.renderSorted = basketText := by cbv
  have rewritten : repackedBasket.json.renderSorted = basketText := by cbv
  have text := written.trans rewritten.symm
  exact ⟨written, rewritten, (canonical _ _).mp text, equal _ _ text⟩

end Stepflow.Value
