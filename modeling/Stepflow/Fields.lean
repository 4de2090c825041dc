/-!
# Stepflow.Fields — a finite map in insertion order

`Fields α` is a list of entries with distinct text keys.  Writing a key that is present keeps its
place and takes the new value; a new key goes to the end.  States, decoded objects, unknown wire
fields and registry snapshots are all of this type.  The lemmas say what each operation does to
the view `get?`.
-/

namespace Stepflow

/-- A map from text keys to `α` that remembers the order in which its keys were first written. -/
structure Fields (α : Type) where
  entries : List (String × α)
  distinct : (entries.map Prod.fst).Nodup

namespace Fields

variable {α β : Type}

/-! ### Entry lists -/

/-- Write `k` in a list of entries: in place if `k` occurs, at the end otherwise. -/
def assign (k : String) (a : α) : List (String × α) → List (String × α)
  | [] => [(k, a)]
  | (j, b) :: rest => if j = k then (k, a) :: rest else (j, b) :: assign k a rest

theorem map_fst_assign (k : String) (a : α) (es : List (String × α)) :
    (assign k a es).map Prod.fst =
      if k ∈ es.map Prod.fst then es.map Prod.fst else es.map Prod.fst ++ [k] := by
  induction es with
  | nil => simp [assign]
  | cons e rest ih =>
    obtain ⟨j, b⟩ := e
    by_cases h : j = k
    · simp [assign, h]
    · have h' : ¬ k = j := fun e => h e.symm
      by_cases hk : k ∈ rest.map Prod.fst
      · simp only [assign, h, if_false, List.map_cons, ih, hk, if_true, List.mem_cons, or_true]
      · simp only [assign, h, if_false, List.map_cons, ih, hk, List.mem_cons, h', false_or,
          List.cons_append]

theorem nodup_assign (k : String) (a : α) {es : List (String × α)}
    (h : (es.map Prod.fst).Nodup) : ((assign k a es).map Prod.fst).Nodup := by
  rw [map_fst_assign]
  split
  · exact h
  · rename_i hk
    rw [List.nodup_append]
    refine ⟨h, by simp, ?_⟩
    rintro x hx y hy rfl
    simp only [List.mem_singleton] at hy
    exact hk (hy ▸ hx)

theorem lookup_assign (k j : String) (a : α) (es : List (String × α)) :
    (assign k a es).lookup j = if j = k then some a else es.lookup j := by
  induction es with
  | nil =>
    by_cases h : j = k
    · simp [assign, h]
    · have hb : (j == k) = false := by simpa using h
      simp [assign, List.lookup_cons, h, hb]
  | cons e rest ih =>
    obtain ⟨i, b⟩ := e
    by_cases hi : i = k
    · by_cases h : j = k
      · simp [assign, hi, h]
      · have hb : (j == k) = false := by simpa using h
        simp [assign, hi, List.lookup_cons, h, hb]
    · by_cases hj : j = i
      · subst hj
        simp [assign, hi]
      · have hb : (j == i) = false := by simpa using hj
        simp only [assign, hi, if_false, List.lookup_cons, hb, ih]

/-! ### Operations -/

/-- The map without entries. -/
def empty : Fields α := ⟨[], List.nodup_nil⟩

instance : Inhabited (Fields α) := ⟨empty⟩

instance : EmptyCollection (Fields α) := ⟨empty⟩

/-- The keys in order. -/
def keys (m : Fields α) : List String := m.entries.map Prod.fst

/-- The value under a key. -/
def get? (m : Fields α) (k : String) : Option α := m.entries.lookup k

/-- Whether a key is present. -/
def contains (m : Fields α) (k : String) : Bool := (m.get? k).isSome

/-- Whether there is no entry. -/
def isEmpty (m : Fields α) : Bool := m.entries.isEmpty

/-- Write one key. -/
def insert (m : Fields α) (k : String) (a : α) : Fields α :=
  ⟨assign k a m.entries, nodup_assign k a m.distinct⟩

/-- Drop one key; the other entries keep their order. -/
def erase (m : Fields α) (k : String) : Fields α :=
  ⟨m.entries.filter (fun e => e.1 != k), m.distinct.sublist (List.filter_sublist.map Prod.fst)⟩

/-- Write a list of entries from left to right. -/
def insertAll (m : Fields α) (es : List (String × α)) : Fields α :=
  es.foldl (fun m e => m.insert e.1 e.2) m

/-- The map of a list of entries: each key at its first place, with its last value. -/
def ofList (es : List (String × α)) : Fields α := empty.insertAll es

/-- Write all entries of `other` over `m`. -/
def update (m other : Fields α) : Fields α := m.insertAll other.entries

/-- Apply a function to every value. -/
def map (f : α → β) (m : Fields α) : Fields β :=
  ⟨m.entries.map (fun e => (e.1, f e.2)), by simpa [Function.comp_def] using m.distinct⟩

/-! ### The view `get?` -/

@[ext] theorem ext {m n : Fields α} (h : m.entries = n.entries) : m = n := by
  cases m
  cases n
  cases h
  rfl

@[simp] theorem get?_empty (k : String) : (empty : Fields α).get? k = none := rfl

theorem get?_insert (m : Fields α) (k j : String) (a : α) :
    (m.insert k a).get? j = if j = k then some a else m.get? j :=
  lookup_assign k j a m.entries

theorem keys_insert (m : Fields α) (k : String) (a : α) :
    (m.insert k a).keys = if k ∈ m.keys then m.keys else m.keys ++ [k] :=
  map_fst_assign k a m.entries

theorem nodup_keys (m : Fields α) : m.keys.Nodup := m.distinct

theorem get?_erase (m : Fields α) (k j : String) :
    (m.erase k).get? j = if j = k then none else m.get? j := by
  obtain ⟨es, hd⟩ := m
  simp only [get?, erase]
  clear hd
  induction es with
  | nil => simp
  | cons e rest ih =>
    obtain ⟨i, b⟩ := e
    by_cases hi : i = k
    · subst hi
      simp only [List.filter_cons, bne_self_eq_false, Bool.false_eq_true, if_false, ih]
      by_cases hj : j = i
      · simp [hj]
      · have hb : (j == i) = false := by simpa using hj
        simp [hj, List.lookup_cons, hb]
    · have hik : (i != k) = true := by simpa using hi
      simp only [List.filter_cons, hik, if_true, List.lookup_cons]
      by_cases hj : j = i
      · subst hj
        simp [hi]
      · have hb : (j == i) = false := by simpa using hj
        simp only [hb, ih]

theorem contains_iff (m : Fields α) (k : String) : m.contains k = true ↔ k ∈ m.keys := by
  obtain ⟨es, hd⟩ := m
  simp only [contains, get?, keys]
  clear hd
  induction es with
  | nil => simp
  | cons e rest ih =>
    obtain ⟨i, b⟩ := e
    by_cases hk : k = i
    · simp [hk]
    · have hb : (k == i) = false := by simpa using hk
      simp [List.lookup_cons, hb, ih, hk]

theorem lookup_of_mem {es : List (String × α)} (distinct : (es.map Prod.fst).Nodup) {k : String}
    {a : α} (h : (k, a) ∈ es) : es.lookup k = some a := by
  induction es with
  | nil => cases h
  | cons e rest ih =>
    obtain ⟨j, b⟩ := e
    obtain ⟨fresh, distinct'⟩ := List.nodup_cons.mp distinct
    rcases List.mem_cons.mp h with first | later
    · cases first
      rw [List.lookup_cons, beq_self_eq_true]
    · have ne : (k == j) = false := by
        rw [beq_eq_false_iff_ne]
        rintro rfl
        exact fresh (List.mem_map.mpr ⟨_, later, rfl⟩)
      rw [List.lookup_cons, ne]
      exact ih distinct' later

theorem get?_of_mem {m : Fields α} {k : String} {a : α} (h : (k, a) ∈ m.entries) :
    m.get? k = some a :=
  lookup_of_mem m.distinct h

theorem lookup_map_snd (f : α → β) (es : List (String × α)) (k : String) :
    (es.map fun e => (e.1, f e.2)).lookup k = (es.lookup k).map f := by
  induction es with
  | nil => rfl
  | cons e rest ih =>
    obtain ⟨j, b⟩ := e
    by_cases hk : k = j
    · simp [hk]
    · have hb : (k == j) = false := by simpa using hk
      simp [List.lookup_cons, hb, ih]

theorem map_assign (f : α → β) (k : String) (a : α) (es : List (String × α)) :
    (assign k a es).map (fun e => (e.1, f e.2)) = assign k (f a) (es.map fun e => (e.1, f e.2)) := by
  induction es with
  | nil => rfl
  | cons e rest ih => by_cases here : e.1 = k <;> simp [assign, here, ih]

theorem map_insert (f : α → β) (m : Fields α) (k : String) (a : α) :
    (m.insert k a).map f = (m.map f).insert k (f a) :=
  ext (map_assign f k a m.entries)

theorem mem_keys_insert (m : Fields α) (k j : String) (a : α) :
    j ∈ (m.insert k a).keys ↔ j = k ∨ j ∈ m.keys := by
  rw [keys_insert]
  split
  · rename_i present
    exact ⟨Or.inr, fun h => h.elim (fun e => e ▸ present) id⟩
  · simp [or_comm]

theorem mem_keys_erase (m : Fields α) (k j : String) : j ∈ (m.erase k).keys ↔ j ∈ m.keys ∧ j ≠ k := by
  simp [keys, erase]

/-- Erasing several keys drops these and no others. -/
theorem get?_foldl_erase (names : List String) (m : Fields α) (k : String) :
    (names.foldl erase m).get? k = if k ∈ names then none else m.get? k := by
  induction names generalizing m with
  | nil => simp
  | cons name rest ih =>
    rw [List.foldl_cons, ih, get?_erase]
    by_cases here : k = name
    · simp [here]
    · simp [here]

theorem mem_keys_foldl_erase (names : List String) (m : Fields α) (k : String) :
    k ∈ (names.foldl erase m).keys ↔ k ∈ m.keys ∧ k ∉ names := by
  induction names generalizing m with
  | nil => simp
  | cons name rest ih =>
    rw [List.foldl_cons, ih, mem_keys_erase, List.mem_cons]
    grind

/-! ### Writing entries back -/

theorem assign_of_notMem {k : String} {es : List (String × α)} (h : k ∉ es.map Prod.fst) (a : α) :
    assign k a es = es ++ [(k, a)] := by
  induction es with
  | nil => rfl
  | cons e rest ih =>
    obtain ⟨j, b⟩ := e
    obtain ⟨ne, fresh⟩ : k ≠ j ∧ k ∉ rest.map Prod.fst := by simpa using h
    rw [assign, if_neg (Ne.symm ne), ih fresh]
    rfl

/-- Entries with new keys go to the end. -/
theorem entries_insertAll (m : Fields α) {es : List (String × α)}
    (h : ((m.entries ++ es).map Prod.fst).Nodup) : (m.insertAll es).entries = m.entries ++ es := by
  induction es generalizing m with
  | nil => simp [insertAll]
  | cons e rest ih =>
    have fresh : e.1 ∉ m.entries.map Prod.fst := by
      rw [List.map_append, List.map_cons, List.nodup_append] at h
      exact fun mem => h.2.2 e.1 mem e.1 List.mem_cons_self rfl
    have entries_eq : (m.insert e.1 e.2).entries = m.entries ++ [e] := assign_of_notMem fresh e.2
    rw [insertAll, List.foldl_cons]
    change ((m.insert e.1 e.2).insertAll rest).entries = _
    rw [ih, entries_eq, List.append_assoc]
    · rfl
    · rwa [entries_eq, List.append_assoc]

theorem entries_insertAll_eq_foldl (m : Fields α) (es : List (String × α)) :
    (m.insertAll es).entries = es.foldl (fun written e => assign e.1 e.2 written) m.entries := by
  induction es generalizing m with
  | nil => rfl
  | cons e rest ih => exact ih (m.insert e.1 e.2)

theorem entries_ofList {es : List (String × α)} (h : (es.map Prod.fst).Nodup) :
    (ofList es).entries = es :=
  entries_insertAll empty h

/-- A map is what its entries make. -/
theorem ofList_entries (m : Fields α) : ofList m.entries = m := ext (entries_ofList m.distinct)

theorem mem_assign {k : String} {a : α} {es : List (String × α)} {e : String × α}
    (h : e ∈ assign k a es) : e = (k, a) ∨ e ∈ es := by
  induction es with
  | nil => exact .inl (List.mem_singleton.mp h)
  | cons d rest ih =>
    obtain ⟨j, b⟩ := d
    unfold assign at h
    split at h
    · exact (List.mem_cons.mp h).imp_right (List.mem_cons_of_mem _)
    · rcases List.mem_cons.mp h with rfl | h
      · exact .inr List.mem_cons_self
      · exact (ih h).imp_right (List.mem_cons_of_mem _)

theorem mem_of_mem_insertAll {m : Fields α} {es : List (String × α)} {e : String × α}
    (h : e ∈ (m.insertAll es).entries) : e ∈ es ∨ e ∈ m.entries := by
  induction es generalizing m with
  | nil => exact .inr h
  | cons d rest ih =>
    rcases ih h with later | earlier
    · exact .inl (List.mem_cons_of_mem d later)
    · rcases mem_assign earlier with rfl | old
      · exact .inl List.mem_cons_self
      · exact .inr old

theorem mem_of_mem_ofList {es : List (String × α)} {e : String × α} (h : e ∈ (ofList es).entries) :
    e ∈ es :=
  (mem_of_mem_insertAll h).resolve_right List.not_mem_nil

/-- A key has the last value that was written for it. -/
theorem get?_insertAll (m : Fields α) (es : List (String × α)) (k : String) :
    (m.insertAll es).get? k = (es.reverse.lookup k).or (m.get? k) := by
  induction es generalizing m with
  | nil => rfl
  | cons e rest ih =>
    obtain ⟨j, b⟩ := e
    have step : (m.insertAll ((j, b) :: rest)).get? k =
        (rest.reverse.lookup k).or ((m.insert j b).get? k) := ih (m.insert j b)
    rw [step, get?_insert, List.reverse_cons, List.lookup_append, Option.or_assoc]
    congr 1
    by_cases hk : k = j
    · simp [hk]
    · have hb : (k == j) = false := by simpa using hk
      simp [List.lookup_cons, hb, hk]

theorem get?_ofList (es : List (String × α)) (k : String) :
    (ofList es).get? k = es.reverse.lookup k := by
  rw [ofList, get?_insertAll, get?_empty, Option.or_none]

/-! ### Erasing what was written -/

theorem erase_insert (m : Fields α) (k : String) (a : α) : (m.insert k a).erase k = m.erase k := by
  ext1
  show (assign k a m.entries).filter (fun e => e.1 != k) = m.entries.filter (fun e => e.1 != k)
  induction m.entries with
  | nil => simp [assign]
  | cons e rest ih =>
    obtain ⟨j, b⟩ := e
    by_cases h : j = k
    · simp [assign, h]
    · simp [assign, h, ih]

theorem erase_insert_of_ne {j k : String} (ne : j ≠ k) (m : Fields α) (a : α) :
    (m.insert k a).erase j = (m.erase j).insert k a := by
  ext1
  show (assign k a m.entries).filter (fun e => e.1 != j) =
    assign k a (m.entries.filter (fun e => e.1 != j))
  induction m.entries with
  | nil => simp [assign, Ne.symm ne]
  | cons e rest ih =>
    obtain ⟨i, b⟩ := e
    by_cases h : i = k
    · subst h
      simp [assign, Ne.symm ne]
    · by_cases hj : i = j
      · subst hj
        simp [assign, h, ih]
      · simp [assign, h, hj, ih]

theorem erase_of_notMem {m : Fields α} {k : String} (h : k ∉ m.keys) : m.erase k = m := by
  ext1
  show m.entries.filter (fun e => e.1 != k) = m.entries
  rw [List.filter_eq_self]
  intro e he
  rw [bne_iff_ne]
  rintro rfl
  exact h (List.mem_map_of_mem he)

/-- A key that is erased may have been written before. -/
theorem foldl_erase_insert {names : List String} {k : String} (h : k ∈ names) (m : Fields α)
    (a : α) : names.foldl erase (m.insert k a) = names.foldl erase m := by
  induction names generalizing m with
  | nil => cases h
  | cons name rest ih =>
    rw [List.foldl_cons, List.foldl_cons]
    by_cases here : name = k
    · rw [here, erase_insert]
    · rw [erase_insert_of_ne here]
      exact ih (List.mem_of_ne_of_mem (Ne.symm here) h) _

theorem foldl_erase_of_disjoint {names : List String} {m : Fields α}
    (h : ∀ name ∈ names, name ∉ m.keys) : names.foldl erase m = m := by
  induction names with
  | nil => rfl
  | cons name rest ih =>
    rw [List.foldl_cons, erase_of_notMem (h name List.mem_cons_self)]
    exact ih fun other mem => h other (List.mem_cons_of_mem name mem)

end Fields

end Stepflow
