import Stepflow.Proofs.Freezing
import Stepflow.Proofs.Json.Limits

/-!
# Stepflow.Proofs.Json.Decoding — which texts decode, and to what

* `Form.json?_isSome_iff`: a tree denotes a tree of values iff its literals are finite.
* `Value.ofText_iff_derives`: a text decodes iff the grammar derives it and the literals that pruning keeps are finite;
  its value is what its tree denotes; and whatever else is given is refused with a decoding failure.
* `overwritten_overflow`: a literal that overflows does no harm in a member that a later one overwrites.
-/

namespace Stepflow

namespace Json

/-! ## Numerals -/

theorem Numeral.datum_of_number? {n : Numeral} {x : Number} (h : n.number? = some x) : n.datum = Datum.ofNumber x := by
  unfold Numeral.number? at h
  unfold Numeral.datum
  split at h
  · rename_i whole
    cases h
    rw [if_pos whole]
    rfl
  · rename_i not_whole
    rw [if_neg not_whole]
    split at h
    · rename_i d finite
      cases h
      rw [finite]
      rfl
    · cases h

theorem Numeral.number?_isSome_iff {n : Numeral} : n.number?.isSome = true ↔ n.IsFinite := by
  unfold Numeral.number? Numeral.IsFinite
  cases n.isWhole with
  | true => simp
  | false => cases n.floating <;> simp

/-- A literal without a number is read as a double that is not finite. -/
theorem Numeral.ofDatum_datum {n : Numeral} (h : n.number? = none) (path : String) :
    ∃ actual, Value.ofDatum path n.datum = .error (.decode "finite number" actual path) := by
  unfold Numeral.number? at h
  unfold Numeral.datum
  split at h
  · cases h
  · rename_i not_whole
    rw [if_neg not_whole]
    cases floating : n.floating with
    | finite d =>
      rw [floating] at h
      cases h
    | infinite negative => exact ⟨_, rfl⟩
    | nan => exact ⟨_, rfl⟩

/-! ## Trees -/

namespace Form

/-! ### What is denoted is what is read -/

mutual

theorem datum_of_json? {f : Form} {j : Json} (h : f.json? = some j) : f.datum = Datum.ofJson j := by
  cases f with
  | null | bool _ | text _ =>
    cases h
    rfl
  | numeral n =>
    obtain ⟨x, number, rfl⟩ := Option.map_eq_some_iff.mp h
    exact Numeral.datum_of_number? number
  | array items =>
    obtain ⟨js, denoted, rfl⟩ := Option.map_eq_some_iff.mp h
    exact congrArg Datum.list (datumItems_of_jsonItems? denoted)
  | object members =>
    obtain ⟨js, denoted, rfl⟩ := Option.map_eq_some_iff.mp h
    exact congrArg Datum.table (datumMembers_of_jsonMembers? denoted)

theorem datumItems_of_jsonItems? {items : List Form} {js : List Json} (h : jsonItems? items = some js) :
    datumItems items = Datum.ofItems js := by
  cases items with
  | nil =>
    cases h
    rfl
  | cons item rest =>
    unfold jsonItems? at h
    split at h
    · rename_i j js first others
      cases h
      rw [datumItems, datum_of_json? first, datumItems_of_jsonItems? others]
      rfl
    · cases h

theorem datumMembers_of_jsonMembers? {members : List (String × Form)} {js : List (String × Json)}
    (h : jsonMembers? members = some js) : datumMembers members = Datum.ofFields js := by
  cases members with
  | nil =>
    cases h
    rfl
  | cons member rest =>
    obtain ⟨k, item⟩ := member
    unfold jsonMembers? at h
    split at h
    · rename_i j js first others
      cases h
      rw [datumMembers, datum_of_json? first, datumMembers_of_jsonMembers? others]
      rfl
    · cases h

end

/-! ### Finite literals -/

mutual

/-- **A tree denotes a tree of values iff its literals are finite.** -/
theorem json?_isSome_iff {f : Form} : f.json?.isSome = true ↔ ∀ n ∈ f.literals, n.IsFinite := by
  cases f with
  | null | bool _ | text _ => simp [json?, literals]
  | numeral n => simpa [json?, literals] using Numeral.number?_isSome_iff
  | array items =>
    rw [json?, Option.isSome_map, literals]
    exact jsonItems?_isSome_iff
  | object members =>
    rw [json?, Option.isSome_map, literals]
    exact jsonMembers?_isSome_iff

theorem jsonItems?_isSome_iff {items : List Form} :
    (jsonItems? items).isSome = true ↔ ∀ n ∈ literalsItems items, n.IsFinite := by
  cases items with
  | nil => simp [jsonItems?, literalsItems]
  | cons item rest =>
    rw [literalsItems, List.forall_mem_append, ← json?_isSome_iff, ← jsonItems?_isSome_iff, jsonItems?]
    cases json? item <;> cases jsonItems? rest <;> simp

theorem jsonMembers?_isSome_iff {members : List (String × Form)} :
    (jsonMembers? members).isSome = true ↔ ∀ n ∈ literalsMembers members, n.IsFinite := by
  cases members with
  | nil => simp [jsonMembers?, literalsMembers]
  | cons member rest =>
    obtain ⟨k, item⟩ := member
    rw [literalsMembers, List.forall_mem_append, ← json?_isSome_iff, ← jsonMembers?_isSome_iff, jsonMembers?]
    cases json? item <;> cases jsonMembers? rest <;> simp

end

/-! ### Refusal -/

mutual

/-- **What a tree without a value is read as is refused**, for the first number that is not finite. -/
theorem ofDatum_datum {f : Form} (h : f.json? = none) (path : String) :
    ∃ actual place, Value.ofDatum path f.datum = .error (.decode "finite number" actual place) := by
  cases f with
  | null | bool _ | text _ => cases h
  | numeral n =>
    obtain ⟨actual, refused⟩ := Numeral.ofDatum_datum (Option.map_eq_none_iff.mp h) path
    exact ⟨actual, path, refused⟩
  | array items =>
    obtain ⟨actual, place, refused⟩ := ofItems_datumItems (Option.map_eq_none_iff.mp h) path 0
    refine ⟨actual, place, ?_⟩
    rw [datum, Value.ofDatum, refused]
    rfl
  | object members =>
    obtain ⟨actual, place, refused⟩ := ofEntries_datumMembers (Option.map_eq_none_iff.mp h) path Fields.empty
    refine ⟨actual, place, ?_⟩
    rw [datum, Value.ofDatum, refused]
    rfl

theorem ofItems_datumItems {items : List Form} (h : jsonItems? items = none) (path : String) (index : Nat) :
    ∃ actual place, Value.ofItems path index (datumItems items) = .error (.decode "finite number" actual place) := by
  cases items with
  | nil => cases h
  | cons item rest =>
    rw [datumItems, Value.ofItems]
    cases first : item.json? with
    | none =>
      obtain ⟨actual, place, refused⟩ := ofDatum_datum first (Value.itemPath path index)
      exact ⟨actual, place, by rw [refused]⟩
    | some j =>
      have others : jsonItems? rest = none := by
        rw [jsonItems?, first] at h
        cases denoted : jsonItems? rest with
        | none => rfl
        | some js =>
          rw [denoted] at h
          cases h
      obtain ⟨v, accepted⟩ := Value.ofDatum_ofJson (Value.itemPath path index) j
      obtain ⟨actual, place, refused⟩ := ofItems_datumItems others path (index + 1)
      exact ⟨actual, place, by rw [datum_of_json? first, accepted, refused]⟩

theorem ofEntries_datumMembers {members : List (String × Form)} (h : jsonMembers? members = none) (path : String)
    (fields : Fields Value) :
    ∃ actual place, Value.ofEntries path fields (datumMembers members) =
      .error (.decode "finite number" actual place) := by
  cases members with
  | nil => cases h
  | cons member rest =>
    obtain ⟨k, item⟩ := member
    rw [datumMembers, Value.ofEntries]
    cases first : item.json? with
    | none =>
      obtain ⟨actual, place, refused⟩ := ofDatum_datum first (Value.fieldPath path k)
      exact ⟨actual, place, by rw [refused]⟩
    | some j =>
      have others : jsonMembers? rest = none := by
        rw [jsonMembers?, first] at h
        cases denoted : jsonMembers? rest with
        | none => rfl
        | some js =>
          rw [denoted] at h
          cases h
      obtain ⟨v, accepted⟩ := Value.ofDatum_ofJson (Value.fieldPath path k) j
      obtain ⟨actual, place, refused⟩ := ofEntries_datumMembers others path (fields.insert k v)
      exact ⟨actual, place, by rw [datum_of_json? first, accepted]; exact refused⟩

end

/-! ### Pruning -/

theorem keys_of_jsonMembers? {members : List (String × Form)} {js : List (String × Json)}
    (h : jsonMembers? members = some js) : js.map Prod.fst = members.map Prod.fst := by
  induction members generalizing js with
  | nil =>
    cases h
    rfl
  | cons member rest ih =>
    unfold jsonMembers? at h
    split at h
    · rename_i j js first others
      cases h
      rw [List.map_cons, List.map_cons, ih others]
    · cases h

/-- What members denote is denoted by one of them. -/
theorem exists_of_jsonMembers? {members : List (String × Form)} {js : List (String × Json)}
    (h : jsonMembers? members = some js) {e : String × Json} (he : e ∈ js) : ∃ m ∈ members, m.2.json? = some e.2 := by
  induction members generalizing js with
  | nil =>
    cases h
    cases he
  | cons member rest ih =>
    unfold jsonMembers? at h
    split at h
    · rename_i j js first others
      cases h
      rcases List.mem_cons.mp he with rfl | he
      · exact ⟨member, List.mem_cons_self, first⟩
      · obtain ⟨m, mem, denoted⟩ := ih others he
        exact ⟨m, List.mem_cons_of_mem member mem, denoted⟩
    · cases h

mutual

/-- A pruned tree denotes a tree that repeats no key. -/
theorem distinct_of_pruned {f : Form} {j : Json} (h : f.pruned.json? = some j) : j.Distinct := by
  cases f with
  | null | bool _ | text _ =>
    cases h
    exact trivial
  | numeral n =>
    obtain ⟨x, -, rfl⟩ := Option.map_eq_some_iff.mp h
    exact trivial
  | array items =>
    obtain ⟨js, denoted, rfl⟩ := Option.map_eq_some_iff.mp h
    exact distinct_of_prunedItems denoted
  | object members =>
    obtain ⟨js, denoted, rfl⟩ := Option.map_eq_some_iff.mp h
    refine ⟨?_, distinctFields_iff.mpr fun e he => ?_⟩
    · rw [keys_of_jsonMembers? denoted]
      exact (Fields.ofList (prunedMembers members)).distinct
    · obtain ⟨m, mem, value⟩ := exists_of_jsonMembers? denoted he
      exact distinct_of_prunedMembers (Fields.mem_of_mem_ofList mem) value

theorem distinct_of_prunedItems {items : List Form} {js : List Json} (h : jsonItems? (prunedItems items) = some js) :
    DistinctItems js := by
  cases items with
  | nil =>
    cases h
    exact trivial
  | cons item rest =>
    rw [prunedItems] at h
    unfold jsonItems? at h
    split at h
    · rename_i j js first others
      cases h
      exact ⟨distinct_of_pruned first, distinct_of_prunedItems others⟩
    · cases h

theorem distinct_of_prunedMembers {members : List (String × Form)} {m : String × Form} {j : Json}
    (mem : m ∈ prunedMembers members) (h : m.2.json? = some j) : j.Distinct := by
  cases members with
  | nil => cases mem
  | cons member rest =>
    rw [prunedMembers] at mem
    rcases List.mem_cons.mp mem with rfl | mem
    · exact distinct_of_pruned h
    · exact distinct_of_prunedMembers mem h

end

end Form

end Json

namespace Value

open Json (DerivesText Form Fault)

/-! ## Texts -/

theorem ofReading_datum {f : Form} {j : Json} (h : f.pruned.json? = some j) :
    ofReading (.ok f.pruned.datum) = .ok ⟨rootPath, j, Form.distinct_of_pruned h⟩ := by
  rw [ofReading, Form.datum_of_json? h]
  exact ofDatum_of_distinct rootPath (Form.distinct_of_pruned h)

theorem ofReading_refused {f : Form} (h : f.pruned.json? = none) :
    ∃ actual place, ofReading (.ok f.pruned.datum) = .error (.decode "finite number" actual place) :=
  Form.ofDatum_datum h rootPath

/-- All faults but that of a number that is too long are failures of decoding. -/
theorem fault_failure {fault : Fault} (h : ∀ most digits, fault ≠ .tooLong most digits) :
    ∃ expected actual path, fault.failure = .decode expected actual path := by
  cases fault with
  | tooLong most digits => exact absurd rfl (h most digits)
  | _ => exact ⟨_, _, _, rfl⟩

/-- A text that the grammar derives is decoded as its tree, if none of its numbers is too long. -/
theorem ofText_of_derives {limit : Option Nat} {t : String} {f : Form} (h : DerivesText t.toList f)
    (within : f.Within limit) : ofText t limit = ofReading (.ok f.pruned.datum) := by
  rw [ofText, Json.readUnmarked_eq_ok_iff.mpr ⟨f, h, within, rfl⟩]

/-- What becomes of a text: it is decoded as its tree, refused for a literal that is not finite, or refused where the
reader found a fault. -/
theorem ofText_cases (t : String) :
    (∃ f j, DerivesText t.toList f ∧ f.pruned.json? = some j ∧
      ∃ distinct, ofText t = .ok ⟨rootPath, j, distinct⟩) ∨
    (∃ f actual place, DerivesText t.toList f ∧ f.pruned.json? = none ∧
      ofText t = .error (.decode "finite number" actual place)) ∨
    ∃ fault : Fault, (∀ most digits, fault ≠ .tooLong most digits) ∧ ofText t = .error fault.failure := by
  cases read : Json.readUnmarked t.toList with
  | error fault =>
    refine .inr (.inr ⟨fault, ?_, by rw [ofText, read]; rfl⟩)
    rintro most digits rfl
    exact Json.readUnmarked_ne_tooLong t.toList most digits read
  | ok d =>
    obtain ⟨f, derives, -, rfl⟩ := Json.readUnmarked_eq_ok_iff.mp read
    rw [ofText_of_derives derives f.within_none]
    cases denoted : f.pruned.json? with
    | some j => exact .inl ⟨f, j, derives, denoted, _, ofReading_datum denoted⟩
    | none =>
      obtain ⟨actual, place, refused⟩ := ofReading_refused denoted
      exact .inr (.inl ⟨f, actual, place, derives, denoted, refused⟩)

/-- **Which texts decode, and to what.**  A text decodes iff the grammar derives it and every literal with a fraction or
an exponent denotes a finite double, those apart that stand in a member which a later one of the same object overwrites.
Then it decodes to what its tree denotes, at the root.  Every other text is refused with a decoding failure. -/
theorem ofText_iff_derives (t : String) :
    ((∃ v, ofText t = .ok v) ↔ ∃ f, DerivesText t.toList f ∧ ∀ n ∈ f.pruned.literals, n.IsFinite) ∧
      (∀ v f, ofText t = .ok v → DerivesText t.toList f → v.path = rootPath ∧ f.pruned.json? = some v.json) ∧
      ∀ failure, ofText t = .error failure → ∃ expected actual path, failure = .decode expected actual path := by
  refine ⟨⟨?_, ?_⟩, ?_, ?_⟩
  · rintro ⟨v, decoded⟩
    obtain ⟨f, j, derives, denoted, -⟩ | ⟨f, actual, place, -, -, refused⟩ | ⟨fault, fault_kind, refused⟩ := ofText_cases t
    · exact ⟨f, derives, Form.json?_isSome_iff.mp (Option.isSome_of_eq_some denoted)⟩
    · cases refused.symm.trans decoded
    · cases refused.symm.trans decoded
  · rintro ⟨f, derives, finite⟩
    obtain ⟨j, denoted⟩ := Option.isSome_iff_exists.mp (Form.json?_isSome_iff.mpr finite)
    exact ⟨_, (ofText_of_derives derives f.within_none).trans (ofReading_datum denoted)⟩
  · intro v f decoded derives
    rw [ofText_of_derives derives f.within_none] at decoded
    cases denoted : f.pruned.json? with
    | some j =>
      rw [ofReading_datum denoted] at decoded
      cases decoded
      exact ⟨rfl, rfl⟩
    | none =>
      obtain ⟨actual, place, refused⟩ := ofReading_refused denoted
      rw [refused] at decoded
      cases decoded
  · intro failure failed
    obtain ⟨f, j, -, -, distinct, decoded⟩ | ⟨f, actual, place, -, -, refused⟩ | ⟨fault, fault_kind, refused⟩ := ofText_cases t
    · cases decoded.symm.trans failed
    · cases refused.symm.trans failed
      exact ⟨_, _, _, rfl⟩
    · cases refused.symm.trans failed
      exact fault_failure fault_kind

/-! ### A literal that is overwritten -/

/-- A literal that overflows, in a member that the next one overwrites. -/
def overwrittenText : String := "\x7b\"a\":1e999,\"a\":1\x7d"

/-- The literal that overflows. -/
def overflowing : Json.Numeral where
  negative := false
  whole := ['1']
  fraction := []
  exponent := some ⟨'e', none, ['9', '9', '9'], .inl rfl, by simp, by simp [Char.isDigit]⟩
  whole_ne := by simp
  whole_all := by simp [Char.isDigit]
  whole_lead := by simp
  fraction_all := Json.Numeral.no_digits

/-- The literal that stays. -/
def staying : Json.Numeral where
  negative := false
  whole := ['1']
  fraction := []
  exponent := none
  whole_ne := by simp
  whole_all := by simp [Char.isDigit]
  whole_lead := by simp
  fraction_all := Json.Numeral.no_digits

theorem overwrittenText_derives :
    DerivesText overwrittenText.toList (.object [("a", .numeral overflowing), ("a", .numeral staying)]) := by
  have key : Json.DerivesString ['"', 'a', '"'] "a" :=
    ⟨['a'], [97], .plain (by decide) (by decide) (by decide) .nil, rfl, rfl⟩
  have member : ∀ n : Json.Numeral, Json.DerivesMember ([] ++ ['"', 'a', '"'] ++ [] ++ ':' :: ([] ++ n.text ++ []))
      ("a", .numeral n) :=
    fun n => .intro Json.blanks_nil key Json.blanks_nil (.intro Json.blanks_nil (.numeral n) Json.blanks_nil)
  have object := Json.Derives.object (.more (member overflowing) (.last (member staying)))
  exact .intro Json.blanks_nil object Json.blanks_nil

/-- **A literal that overflows does no harm where it is overwritten**: no tree of the text has finite literals only, and
yet it decodes. -/
theorem overwritten_overflow :
    ¬ ((∃ v, ofText overwrittenText = .ok v) ↔
      ∃ f, DerivesText overwrittenText.toList f ∧ ∀ n ∈ f.literals, n.IsFinite) := by
  intro decodes_iff
  have decodes : ∃ v, ofText overwrittenText = .ok v := by
    have denoted : (Form.object [("a", .numeral overflowing), ("a", .numeral staying)]).pruned.json? =
        some (.object [("a", .number (.int 1))]) := rfl
    exact ⟨_, (ofText_of_derives overwrittenText_derives (Form.within_none _)).trans (ofReading_datum denoted)⟩
  obtain ⟨f, derives, finite⟩ := decodes_iff.mp decodes
  -- the text has one tree only, so the literal cannot be away in another
  rw [Json.DerivesText.unique derives overwrittenText_derives] at finite
  obtain ⟨d, floating⟩ := finite overflowing (by simp [Form.literals, Form.literalsMembers]) rfl
  have infinite : overflowing.floating = .infinite false := by decide
  rw [infinite] at floating
  cases floating

end Value

end Stepflow
