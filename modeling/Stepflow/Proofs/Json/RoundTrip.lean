import Stepflow.Proofs.Json.Decoding
import Stepflow.Proofs.Json.Sameness
import Stepflow.Proofs.Number.Printing

/-!
# Stepflow.Proofs.Json.RoundTrip — encoding a value and decoding its text

Every tree without repeated keys is written as a text of the grammar whose syntax tree denotes it (`exists_form`), so a
value decodes from its text as it was, at the root (`Value.ofText_render`).  The text in the order of the keys is the
text of the sorted tree, and a value that was decoded is at the root already: the round trip of either follows.
-/

namespace Stepflow.Json

/-! ## Strings -/

theorem isHighSurrogate_toNat (c : Char) : Text.isHighSurrogate c.toNat = false := by
  have valid : c.toNat < 0xD800 ∨ 0xDFFF < c.toNat := c.valid.imp_right And.left
  rw [Text.isHighSurrogate, Bool.and_eq_false_iff, decide_eq_false_iff_not, decide_eq_false_iff_not]
  omega

theorem isLowSurrogate_toNat (c : Char) : Text.isLowSurrogate c.toNat = false := by
  have valid : c.toNat < 0xD800 ∨ 0xDFFF < c.toNat := c.valid.imp_right And.left
  rw [Text.isLowSurrogate, Bool.and_eq_false_iff, decide_eq_false_iff_not, decide_eq_false_iff_not]
  omega

theorem loneUnit_toNat (c : Char) : Text.loneUnit c.toNat = c := by
  rw [Text.loneUnit, isHighSurrogate_toNat, isLowSurrogate_toNat, Bool.or_false, if_neg (by decide), Char.ofNat_toNat]

/-- No character is half of a surrogate pair. -/
theorem charsOfUnits_map_toNat (cs : List Char) : Text.charsOfUnits (cs.map Char.toNat) = cs := by
  induction cs with
  | nil => rfl
  | cons c rest ih =>
    cases rest with
    | nil => rw [List.map_cons, List.map_nil, Text.charsOfUnits, loneUnit_toNat]
    | cons d rest =>
      rw [List.map_cons, List.map_cons, Text.charsOfUnits, isHighSurrogate_toNat, Bool.false_and, if_neg (by decide),
        loneUnit_toNat]
      exact congrArg (c :: ·) ih

/-- The four digits of a control character name it. -/
theorem hexUnit?_control : ∀ n < 0x20,
    Text.hexadecimal 4 n = ['0', '0', Nat.digitChar (n / 16), Nat.digitChar (n % 16)] ∧
    hexUnit? '0' '0' (Nat.digitChar (n / 16)) (Nat.digitChar (n % 16)) = some n := by
  decide

/-- A character as it is written spells itself. -/
theorem spells_escapedChar (c : Char) {cs : List Char} {ns : List Nat} (h : Spells cs ns) :
    Spells (escapedChar c ++ cs) (c.toNat :: ns) := by
  have short : ∀ letter target, (letter, target) ∈ shortEscapes → c = target →
      Spells (['\\', letter] ++ cs) (c.toNat :: ns) := by
    rintro letter target escape rfl
    exact .short escape h
  unfold escapedChar
  split
  · exact short '"' '"' (by simp [shortEscapes]) ‹_›
  · rename_i not_quote
    split
    · exact short '\\' '\\' (by simp [shortEscapes]) ‹_›
    · rename_i not_backslash
      split
      · exact short 'n' '\n' (by simp [shortEscapes]) ‹_›
      split
      · exact short 'r' '\r' (by simp [shortEscapes]) ‹_›
      split
      · exact short 't' '\t' (by simp [shortEscapes]) ‹_›
      split
      · exact short 'f' '\x0c' (by simp [shortEscapes]) ‹_›
      split
      · exact short 'b' '\x08' (by simp [shortEscapes]) ‹_›
      split
      · rename_i control
        obtain ⟨digits, unit⟩ := hexUnit?_control c.toNat control
        rw [digits]
        exact .unit unit h
      · rename_i printable
        exact .plain (Nat.le_of_not_lt printable) not_quote not_backslash h

theorem spells_flatMap (cs : List Char) : Spells (cs.flatMap escapedChar) (cs.map Char.toNat) := by
  induction cs with
  | nil => exact .nil
  | cons c rest ih => exact spells_escapedChar c ih

theorem derivesString_writeText (s : String) : DerivesString (writeText s) s :=
  ⟨_, _, spells_flatMap s.toList, rfl, by rw [charsOfUnits_map_toNat, String.ofList_toList]⟩

/-! ## Trees -/

mutual
/-- The numbers of a tree, in order. -/
def numbers : Json → List Number
  | .number x => [x]
  | .array items => numbersItems items
  | .object fields => numbersFields fields
  | _ => []

/-- The numbers of items. -/
def numbersItems : List Json → List Number
  | [] => []
  | item :: rest => numbers item ++ numbersItems rest

/-- The numbers of the values of fields. -/
def numbersFields : List (String × Json) → List Number
  | [] => []
  | (_, item) :: rest => numbers item ++ numbersFields rest
end

/-- No whole number of the tree has more digits than the limit allows. -/
def Within (limit : Option Nat) (j : Json) : Prop := ∀ x ∈ j.numbers, x.Within limit

instance (limit : Option Nat) (j : Json) : Decidable (j.Within limit) :=
  inferInstanceAs (Decidable (∀ x ∈ j.numbers, x.Within limit))

theorem within_none (j : Json) : j.Within none := fun x _ => by
  cases x with
  | int i => rfl
  | double d => exact trivial

theorem Derives.element {cs : List Char} {f : Form} (h : Derives cs f) : DerivesElement cs f := by
  have element : DerivesElement ([] ++ cs ++ []) f := .intro blanks_nil h blanks_nil
  rwa [List.append_nil] at element

theorem derivesMember_write {cs : List Char} {f : Form} (k : String) (h : Derives cs f) :
    DerivesMember (writeText k ++ ':' :: cs) (k, f) := by
  have member : DerivesMember ([] ++ writeText k ++ [] ++ ':' :: cs) (k, f) :=
    .intro blanks_nil (derivesString_writeText k) blanks_nil h.element
  rwa [List.append_nil] at member

mutual

/-- **A tree is written as a text of the grammar that denotes it.** -/
theorem exists_form {j : Json} (distinct : j.Distinct) :
    ∃ f, Derives (write j) f ∧ f.pruned.json? = some j ∧ ∀ limit, j.Within limit → f.Within limit := by
  cases j with
  | null => exact ⟨.null, .null, rfl, nofun⟩
  | bool b =>
    cases b with
    | true => exact ⟨.bool true, .true, rfl, nofun⟩
    | false => exact ⟨.bool false, .false, rfl, nofun⟩
  | number x =>
    obtain ⟨n, text, denoted, within⟩ := x.exists_numeral
    refine ⟨.numeral n, ?_, ?_, fun limit short => ?_⟩
    · rw [write, ← text]
      exact .numeral n
    · rw [Form.pruned, Form.json?, denoted]
      · rfl
      · nofun
      · nofun
    · exact List.forall_mem_singleton.mpr (within limit (short x List.mem_cons_self))
  | text s => exact ⟨.text s, .text (derivesString_writeText s), rfl, nofun⟩
  | array items =>
    cases items with
    | nil => exact ⟨.array [], .emptyArray blanks_nil, rfl, nofun⟩
    | cons item rest =>
      obtain ⟨forms, derives, denoted, within⟩ := exists_items (List.cons_ne_nil item rest) distinct
      refine ⟨.array forms, .array derives, ?_, within⟩
      rw [Form.pruned, Form.json?, denoted]
      rfl
  | object fields =>
    cases fields with
    | nil => exact ⟨.object [], .emptyObject blanks_nil, rfl, nofun⟩
    | cons field rest =>
      obtain ⟨members, derives, denoted, within⟩ := exists_members (List.cons_ne_nil field rest) distinct.2
      refine ⟨.object members, .object derives, ?_, within⟩
      -- no member is overwritten, so pruning keeps them all
      have nodup : ((Form.prunedMembers members).map Prod.fst).Nodup := by
        rw [← Form.keys_of_jsonMembers? denoted]
        exact distinct.1
      rw [Form.pruned, Fields.entries_ofList nodup, Form.json?, denoted]
      rfl

theorem exists_items {items : List Json} (ne : items ≠ []) (distinct : DistinctItems items) :
    ∃ forms, DerivesItems (writeItems items) forms ∧ Form.jsonItems? (Form.prunedItems forms) = some items ∧
      ∀ limit, (∀ x ∈ numbersItems items, x.Within limit) → ∀ n ∈ Form.literalsItems forms, n.Within limit := by
  cases items with
  | nil => exact absurd rfl ne
  | cons item rest =>
    obtain ⟨f, derives, denoted, within⟩ := exists_form distinct.1
    cases rest with
    | nil =>
      refine ⟨[f], .last derives.element, ?_, fun limit short => ?_⟩
      · rw [Form.prunedItems, Form.prunedItems, Form.jsonItems?, denoted]
        rfl
      · exact List.forall_mem_append.mpr ⟨within limit (List.forall_mem_append.mp short).1, nofun⟩
    | cons second rest =>
      obtain ⟨forms, derives', denoted', within'⟩ := exists_items (List.cons_ne_nil second rest) distinct.2
      refine ⟨f :: forms, .more derives.element derives', ?_, fun limit short => ?_⟩
      · rw [Form.prunedItems, Form.jsonItems?, denoted, denoted']
      · obtain ⟨first, others⟩ := List.forall_mem_append.mp short
        exact List.forall_mem_append.mpr ⟨within limit first, within' limit others⟩

theorem exists_members {fields : List (String × Json)} (ne : fields ≠ []) (distinct : DistinctFields fields) :
    ∃ members, DerivesMembers (writeFields fields) members ∧
      Form.jsonMembers? (Form.prunedMembers members) = some fields ∧
        ∀ limit, (∀ x ∈ numbersFields fields, x.Within limit) → ∀ n ∈ Form.literalsMembers members, n.Within limit := by
  cases fields with
  | nil => exact absurd rfl ne
  | cons field rest =>
    obtain ⟨k, item⟩ := field
    obtain ⟨f, derives, denoted, within⟩ := exists_form distinct.1
    cases rest with
    | nil =>
      refine ⟨[(k, f)], .last (derivesMember_write k derives), ?_, fun limit short => ?_⟩
      · rw [Form.prunedMembers, Form.prunedMembers, Form.jsonMembers?, denoted]
        rfl
      · exact List.forall_mem_append.mpr ⟨within limit (List.forall_mem_append.mp short).1, nofun⟩
    | cons second rest =>
      obtain ⟨members, derives', denoted', within'⟩ := exists_members (List.cons_ne_nil second rest) distinct.2
      refine ⟨(k, f) :: members, .more (derivesMember_write k derives) derives', ?_, fun limit short => ?_⟩
      · rw [Form.prunedMembers, Form.jsonMembers?, denoted, denoted']
      · obtain ⟨first, others⟩ := List.forall_mem_append.mp short
        exact List.forall_mem_append.mpr ⟨within limit first, within' limit others⟩

end

theorem exists_derivesText {j : Json} (distinct : j.Distinct) :
    ∃ f, DerivesText j.render.toList f ∧ f.pruned.json? = some j ∧ ∀ limit, j.Within limit → f.Within limit := by
  obtain ⟨f, derives, denoted, within⟩ := exists_form distinct
  rw [render, String.toList_ofList]
  exact ⟨f, derives.element, denoted, within⟩

end Stepflow.Json

namespace Stepflow.Value

/-! ## Values -/

theorem ofReading_path {reading : Except Json.Fault Datum} {v : Value} (h : ofReading reading = .ok v) :
    v.path = rootPath := by
  cases reading with
  | ok d => exact ofDatum_path h
  | error _ => cases h

/-- The text of a tree decodes to the tree, at the root, if none of its numbers is too long. -/
theorem ofText_renderJson {limit : Option Nat} {j : Json} (distinct : j.Distinct) (within : j.Within limit) :
    ofText j.render limit = .ok ⟨rootPath, j, distinct⟩ := by
  obtain ⟨f, derives, denoted, bounded⟩ := Json.exists_derivesText distinct
  rw [ofText_of_derives derives (bounded limit within)]
  exact ofReading_datum denoted

/-- What was decoded, from text or from bytes, stands at the root. -/
theorem path_of_decoded {v : Value} (h : (∃ t, ofText t = .ok v) ∨ ∃ bs, ofBytes bs = .ok v) : v.path = rootPath := by
  rcases h with ⟨t, decoded⟩ | ⟨bs, decoded⟩
  · exact ofReading_path decoded
  · unfold ofBytes at decoded
    split at decoded
    · exact ofReading_path decoded
    · cases decoded

/-- **Round trip.**  The text of a value is derived by the grammar as a tree that denotes the value.  It decodes to the
same tree at the root, which is equal to the value and hashes alike; so does the text in the order of the keys, but for
that order.  Encoding and decoding what was decoded changes nothing. -/
theorem ofText_render :
    (∀ v : Value, (∃ f, Json.DerivesText v.render.toList f ∧ f.pruned.json? = some v.json) ∧
      ∃ w, ofText v.render = .ok w ∧ w.path = rootPath ∧ w.json = v.json ∧
        w.same v = true ∧ w.fingerprint = v.fingerprint) ∧
    (∀ v : Value, ∃ w, ofText v.json.renderSorted = .ok w ∧ w.path = rootPath ∧ w.json = v.json.sorted ∧
      v.json.Rearranged w.json ∧ w.same v = true ∧ v.same w = true ∧ w.fingerprint = v.fingerprint) ∧
    ∀ v : Value, ((∃ t, ofText t = .ok v) ∨ ∃ bs, ofBytes bs = .ok v) →
      ofText v.render = .ok v ∧ (ofText v.render).map render = .ok v.render := by
  refine ⟨fun v => ?_, fun v => ?_, fun v decoded => ?_⟩
  · obtain ⟨f, derives, denoted, -⟩ := Json.exists_derivesText v.distinct
    exact ⟨⟨f, derives, denoted⟩, _, ofText_renderJson v.distinct v.json.within_none, rfl, rfl,
      Json.same_self v.distinct, rfl⟩
  · have rearranged := Json.rearranged_sorted v.json
    exact ⟨_, ofText_renderJson v.distinct.sorted v.json.sorted.within_none, rfl, rfl, rearranged,
      Json.sorted_same v.distinct,
      rearranged.same v.distinct.sorted, rearranged.fingerprint_eq.symm⟩
  · have again : ofText v.render = .ok v := by
      have root := path_of_decoded decoded
      obtain ⟨path, j, distinct⟩ := v
      cases root
      exact ofText_renderJson distinct j.within_none
    rw [again]
    exact ⟨rfl, rfl⟩

/-- A text that is not how its value is written. -/
def looseText : String := "[ 1E2 ]"

/-- The literal in it. -/
def hundredLiteral : Json.Numeral :=
  { overflowing with exponent := some ⟨'E', none, ['2'], .inr rfl, by simp, by simp [Char.isDigit]⟩ }

/-- The double nearest to a hundred. -/
def hundred : Double := ⟨false, 0x19000000000000, 1028, by decide, by decide, by decide⟩

/-- What the text decodes to. -/
def hundreds : Value := ⟨rootPath, .array [.number (.double hundred)], ⟨trivial, trivial⟩⟩

theorem ofText_looseText : ofText looseText = .ok hundreds := by
  have blank : Json.Blanks [' '] := by simp [Json.Blanks, Json.isBlank]
  have derives : Json.DerivesText looseText.toList (.array [.numeral hundredLiteral]) :=
    .intro Json.blanks_nil (.array (.last (.intro blank (.numeral hundredLiteral) blank))) Json.blanks_nil
  have nearest : hundredLiteral.floating = .finite hundred := by decide +kernel
  have number : hundredLiteral.number? = some (.double hundred) := by
    rw [Json.Numeral.number?, if_neg (by decide), nearest]
  have denoted : (Json.Form.array [.numeral hundredLiteral]).pruned.json? = some hundreds.json := by
    simp only [Json.Form.pruned, Json.Form.prunedItems, Json.Form.json?, Json.Form.jsonItems?, number, Option.map_some]
    rfl
  exact (ofText_of_derives derives (Json.Form.within_none _)).trans (ofReading_datum denoted)

/-- What it decodes to is written in another way, which then stays. -/
theorem looseText_settles : ofText looseText = .ok hundreds ∧ hundreds.render = "[100.0]" ∧
    (ofText hundreds.render).map render = .ok hundreds.render :=
  ⟨ofText_looseText, by decide +kernel, (ofText_render.2.2 hundreds (.inl ⟨looseText, ofText_looseText⟩)).2⟩

end Stepflow.Value
