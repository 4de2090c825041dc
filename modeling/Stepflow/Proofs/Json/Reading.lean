import Stepflow.Proofs.Json.Tokens

/-!
# Stepflow.Proofs.Json.Reading — the reader against the grammar

The reader accepts the texts that the grammar derives and no others, and reads what the tree says once repeated keys are
pruned.

* `readValue_of_derives`: what is derived is read, whatever stands behind it; the induction is on the derivation.
* `derives_of_readValue`: what is read is derived; the induction is on the fuel.
* `readUnmarked_eq_ok_iff`: both for whole texts.
-/

namespace Stepflow.Json

variable {limit : Option Nat}

/-! ## What stands behind a value -/

/-- What may stand behind an element: nothing, a comma or a closing bracket. -/
def Closes (rest : List Char) : Prop := ∀ c ∈ rest.head?, c = ',' ∨ c = ']' ∨ c = '\x7d'

theorem Closes.stops {rest : List Char} (h : Closes rest) : Stops rest := by
  refine ⟨fun c hc => ?_, fun c hc => ?_⟩
  · rcases h c hc with rfl | rfl | rfl <;> rfl
  · rcases h c hc with rfl | rfl | rfl <;> decide

theorem isBlank_iff {c : Char} : isBlank c = true ↔ c = ' ' ∨ c = '\t' ∨ c = '\n' ∨ c = '\r' := by
  simp [isBlank, or_assoc]

theorem Closes.stops_append {ws rest : List Char} (h : Closes rest) (blanks : Blanks ws) : Stops (ws ++ rest) := by
  cases ws with
  | nil => exact h.stops
  | cons c cs =>
    have blank := isBlank_iff.mp (blanks c List.mem_cons_self)
    refine ⟨fun d hd => ?_, fun d hd => ?_⟩
    · obtain rfl : c = d := Option.some.inj hd
      rcases blank with rfl | rfl | rfl | rfl <;> rfl
    · obtain rfl : c = d := Option.some.inj hd
      rcases blank with rfl | rfl | rfl | rfl <;> decide

theorem Closes.skipBlanks_eq {rest : List Char} (h : Closes rest) : skipBlanks rest = rest := by
  cases rest with
  | nil => rfl
  | cons c cs =>
    refine skipBlanks_cons ?_ cs
    rcases h c rfl with rfl | rfl | rfl <;> rfl

/-! ## How a value begins -/

/-- A character with which a value begins. -/
structure Begins (c : Char) : Prop where
  not_blank : isBlank c = false
  not_closing : c ≠ ']'
  ascii : c.toNat < 128

theorem isDigit_iff {c : Char} : c.isDigit = true ↔ 48 ≤ c.toNat ∧ c.toNat ≤ 57 := by
  simp only [Char.isDigit, Bool.and_eq_true, decide_eq_true_eq]
  exact Iff.rfl

theorem begins_of_digit {c : Char} (digit : c.isDigit = true) : Begins c := by
  have bounds := isDigit_iff.mp digit
  refine ⟨?_, ?_, by omega⟩
  · rw [← Bool.not_eq_true, isBlank_iff]
    rintro (rfl | rfl | rfl | rfl) <;> simp at bounds
  · rintro rfl
    simp at bounds

theorem Numeral.begins (n : Numeral) : ∃ c cs, n.text = c :: cs ∧ Begins c := by
  obtain ⟨c, cs, eq, digit⟩ := n.magnitudeText_head []
  rw [List.append_nil] at eq
  unfold Numeral.text
  rw [eq]
  cases n.negative with
  | true => exact ⟨'-', c :: cs, rfl, by decide, by decide, by decide⟩
  | false => exact ⟨c, cs, rfl, begins_of_digit digit⟩

theorem Derives.begins {cs : List Char} {f : Form} (h : Derives cs f) : ∃ c rest, cs = c :: rest ∧ Begins c := by
  cases h with
  | null | true | false => exact ⟨_, _, rfl, by decide, by decide, by decide⟩
  | numeral n => exact n.begins
  | text h =>
    obtain ⟨spelling, units, -, rfl, -⟩ := h
    exact ⟨_, _, rfl, by decide, by decide, by decide⟩
  | emptyArray | array | emptyObject | object => exact ⟨_, _, rfl, by decide, by decide, by decide⟩

theorem Derives.skipBlanks_eq {cs : List Char} {f : Form} (h : Derives cs f) (rest : List Char) :
    skipBlanks (cs ++ rest) = cs ++ rest := by
  obtain ⟨c, more, rfl, begins⟩ := h.begins
  exact skipBlanks_cons begins.not_blank _

theorem DerivesElement.skipBlanks_eq {cs : List Char} {f : Form} (h : DerivesElement cs f) (rest : List Char) :
    ∃ c more, skipBlanks (cs ++ rest) = c :: more ∧ Begins c := by
  cases h with
  | @intro before _ after _ blanks derives _ =>
    obtain ⟨c, more, rfl, begins⟩ := derives.begins
    refine ⟨c, more ++ (after ++ rest), ?_, begins⟩
    rw [List.append_assoc, List.append_assoc, skipBlanks_append blanks]
    exact skipBlanks_cons begins.not_blank _

theorem DerivesItems.skipBlanks_eq {cs : List Char} {items : List Form} (h : DerivesItems cs items) (rest : List Char) :
    ∃ c more, skipBlanks (cs ++ rest) = c :: more ∧ c ≠ ']' := by
  cases h with
  | last first =>
    obtain ⟨c, more, eq, begins⟩ := first.skipBlanks_eq rest
    exact ⟨c, more, eq, begins.not_closing⟩
  | more first others =>
    obtain ⟨c, more, eq, begins⟩ := first.skipBlanks_eq (',' :: _ ++ rest)
    exact ⟨c, more, by rw [List.append_assoc]; exact eq, begins.not_closing⟩

theorem DerivesString.skipBlanks_eq {cs : List Char} {s : String} (h : DerivesString cs s) (rest : List Char) :
    ∃ inner, skipBlanks (cs ++ rest) = '"' :: inner ∧ readText inner = .ok (s.toList, rest) := by
  obtain ⟨inner, eq, read⟩ := readText_of_derives h rest
  exact ⟨inner, by rw [eq, skipBlanks_cons (by decide)], read⟩

theorem DerivesMembers.skipBlanks_eq {cs : List Char} {members : List (String × Form)} (h : DerivesMembers cs members)
    (rest : List Char) : ∃ inner, skipBlanks (cs ++ rest) = '"' :: inner := by
  have first : ∀ {cs : List Char} {m : String × Form}, DerivesMember cs m → ∀ rest,
      ∃ inner, skipBlanks (cs ++ rest) = '"' :: inner := by
    rintro _ _ ⟨blanks, key, -, -⟩ rest
    simp only [List.append_assoc]
    rw [skipBlanks_append blanks]
    obtain ⟨inner, eq, -⟩ := key.skipBlanks_eq _
    exact ⟨inner, eq⟩
  cases h with
  | last member => exact first member rest
  | more member _ =>
    rw [List.append_assoc]
    exact first member _

/-! ## What is derived is read -/

theorem assignEntry_datumMembers (k : String) (f : Form) (kept : List (String × Form)) :
    assignEntry k f.datum (Form.datumMembers kept) = Form.datumMembers (Fields.assign k f kept) := by
  induction kept with
  | nil => rfl
  | cons m rest ih =>
    obtain ⟨j, g⟩ := m
    rw [Form.datumMembers, assignEntry, Fields.assign, ih]
    split <;> rfl

/-- Members written one after another over those that are kept. -/
def keep (kept members : List (String × Form)) : List (String × Form) :=
  members.foldl (fun written m => Fields.assign m.1 m.2 written) kept

theorem pruned_object (members : List (String × Form)) :
    (Form.object members).pruned = .object (keep [] (Form.prunedMembers members)) := by
  rw [Form.pruned, Fields.ofList, Fields.entries_insertAll_eq_foldl]
  rfl

theorem readValue_numeral (n : Numeral) {rest : List Char} (stop : Stops rest) (fuel : Nat) :
    readValue limit (fuel + 1) (n.text ++ rest) = n.reading limit rest := by
  have read := @readNumber_reading limit n rest stop
  obtain ⟨c, cs, eq, digit⟩ := n.magnitudeText_head rest
  have bounds := isDigit_iff.mp digit
  have text_eq : n.text ++ rest = c :: cs ∨ n.text ++ rest = '-' :: c :: cs := by
    rw [Numeral.text, List.append_assoc, eq]
    cases n.negative with
    | true => exact .inr rfl
    | false => exact .inl rfl
  unfold readValue
  split
  case h_10 => exact read
  all_goals
    rename_i pattern
    rcases text_eq with eq | eq
    all_goals
      rw [pattern] at eq
      simp only [List.cons.injEq] at eq
      first
      | exact absurd eq.1 (by decide)
      | (obtain rfl := eq.1; simp at bounds)
      | (obtain rfl := eq.2.1; simp at bounds)

theorem enclosed_append (opening closing : Char) (cs rest : List Char) :
    opening :: cs ++ [closing] ++ rest = opening :: (cs ++ closing :: rest) := by
  simp

/-- What is read behind a member. -/
def readBehindMember (limit : Option Nat) (fuel : Nat) (entries : List (Datum × Datum)) :
    List Char → Except Fault (Datum × List Char)
  | '\x7d' :: rest => .ok (.table entries, rest)
  | ',' :: rest => readMembers limit fuel entries (skipBlanks rest)
  | _ => .error .comma

theorem readMembers_of_parts {fuel : Nat} {entries : List (Datum × Datum)} {inner key colon rest more : List Char}
    {item : Datum} (hkey : readText inner = .ok (key, colon)) (hcolon : skipBlanks colon = ':' :: rest)
    (value : readValue limit fuel (skipBlanks rest) = .ok (item, more)) :
    readMembers limit (fuel + 1) entries ('"' :: inner) =
      readBehindMember limit fuel (assignEntry (String.ofList key) item entries) (skipBlanks more) := by
  simp only [readMembers, hkey, hcolon, value]
  rfl

theorem readMembers_of_member {fuel : Nat} {entries : List (Datum × Datum)} {before key after cs rest more : List Char}
    {k : String} {f : Form} (blanks : Blanks before) (hkey : DerivesString key k) (blanks' : Blanks after)
    (value : readValue limit fuel (skipBlanks (cs ++ rest)) = .ok (f.pruned.datum, more)) (behind : skipBlanks more = rest) :
    readMembers limit (fuel + 1) entries (skipBlanks (before ++ key ++ after ++ ':' :: cs ++ rest)) =
      readBehindMember limit fuel (assignEntry k f.pruned.datum entries) rest := by
  obtain ⟨inner, begins, read⟩ := hkey.skipBlanks_eq (after ++ ':' :: (cs ++ rest))
  have text_eq : before ++ key ++ after ++ ':' :: cs ++ rest = before ++ (key ++ (after ++ ':' :: (cs ++ rest))) := by
    simp
  have colon : skipBlanks (after ++ ':' :: (cs ++ rest)) = ':' :: (cs ++ rest) := by
    rw [skipBlanks_append blanks', skipBlanks_cons (by decide)]
  rw [text_eq, skipBlanks_append blanks, begins, readMembers_of_parts read colon value, behind, String.ofList_toList]

mutual

/-- **A derived value is read**, if nothing follows by which a number could go on, and no number is too long. -/
theorem readValue_of_derives {cs : List Char} {f : Form} (h : Derives cs f) (fuel : Nat)
    (enough : 2 * cs.length + 1 ≤ fuel) (rest : List Char) (stop : Stops rest) (within : f.Within limit) :
    readValue limit fuel (cs ++ rest) = .ok (f.pruned.datum, rest) := by
  obtain ⟨fuel, rfl⟩ : ∃ k, fuel = k + 1 := ⟨fuel - 1, by omega⟩
  cases h with
  | null => rfl
  | true => rfl
  | false => rfl
  -- the only form that what follows could go on
  | numeral n =>
    rw [readValue_numeral n stop]
    exact Numeral.reading_eq_ok (within n List.mem_cons_self) rest
  | text h =>
    obtain ⟨inner, eq, read⟩ := readText_of_derives h rest
    rw [eq, readValue, read]
    dsimp only
    rw [String.ofList_toList]
    rfl
  | @emptyArray ws blanks =>
    rw [enclosed_append, readValue, skipBlanks_append blanks, skipBlanks_cons (by decide)]
    rfl
  | @array cs items items_derived =>
    have read := readItems_of_derives items_derived fuel (by simp at enough; omega) rest within
    obtain ⟨c, more, eq, not_closing⟩ := items_derived.skipBlanks_eq (']' :: rest)
    rw [enclosed_append, readValue]
    rw [eq] at read ⊢
    split
    · rename_i closed
      exact absurd (List.cons.inj closed).1 not_closing
    · rw [read]
      rfl
  | @emptyObject ws blanks =>
    rw [enclosed_append, readValue, skipBlanks_append blanks, skipBlanks_cons (by decide)]
    rfl
  | @object cs members members_derived =>
    have read := readMembers_of_derives members_derived fuel (by simp at enough; omega) rest [] within
    obtain ⟨inner, eq⟩ := members_derived.skipBlanks_eq ('\x7d' :: rest)
    rw [enclosed_append, readValue]
    rw [eq] at read ⊢
    rw [pruned_object]
    exact read

/-- A derived element is read, blanks skipped, up to the blanks behind its value. -/
theorem readValue_of_element {cs : List Char} {f : Form} (h : DerivesElement cs f) (fuel : Nat)
    (enough : 2 * cs.length + 1 ≤ fuel) (rest : List Char) (closes : Closes rest) (within : f.Within limit) :
    ∃ more, readValue limit fuel (skipBlanks (cs ++ rest)) = .ok (f.pruned.datum, more) ∧ skipBlanks more = rest := by
  cases h with
  | @intro before cs after _ blanks derives blanks' =>
    refine ⟨after ++ rest, ?_, ?_⟩
    · rw [List.append_assoc, List.append_assoc, skipBlanks_append blanks, derives.skipBlanks_eq]
      exact readValue_of_derives derives fuel (by simp at enough; omega) _ (closes.stops_append blanks') within
    · rw [skipBlanks_append blanks', closes.skipBlanks_eq]

/-- Derived items are read, up to the closing bracket. -/
theorem readItems_of_derives {cs : List Char} {items : List Form} (h : DerivesItems cs items) (fuel : Nat)
    (enough : 2 * cs.length + 2 ≤ fuel) (rest : List Char) (within : ∀ n ∈ Form.literalsItems items, n.Within limit) :
    readItems limit fuel (skipBlanks (cs ++ ']' :: rest)) = .ok (Form.datumItems (Form.prunedItems items), rest) := by
  obtain ⟨fuel, rfl⟩ : ∃ k, fuel = k + 1 := ⟨fuel - 1, by omega⟩
  cases h with
  | last element =>
    obtain ⟨more, read, behind⟩ :=
      readValue_of_element element fuel (by omega) (']' :: rest) (by simp [Closes]) (List.forall_mem_append.mp within).1
    rw [readItems, read]
    dsimp only
    rw [behind]
    rfl
  | @more cs others _ _ element others_derived =>
    rw [List.length_append, List.length_cons] at enough
    obtain ⟨within, within'⟩ := List.forall_mem_append.mp within
    obtain ⟨more, read, behind⟩ := readValue_of_element element fuel (by omega)
      (',' :: (others ++ ']' :: rest)) (by simp [Closes]) within
    have read' := readItems_of_derives others_derived fuel (by omega) rest within'
    rw [List.append_assoc, List.cons_append]
    simp only [readItems, read, behind, read']
    rfl

/-- Derived members are read, up to the closing brace, over those that are kept. -/
theorem readMembers_of_derives {cs : List Char} {members : List (String × Form)} (h : DerivesMembers cs members)
    (fuel : Nat) (enough : 2 * cs.length + 2 ≤ fuel) (rest : List Char) (kept : List (String × Form))
    (within : ∀ n ∈ Form.literalsMembers members, n.Within limit) :
    readMembers limit fuel (Form.datumMembers kept) (skipBlanks (cs ++ '\x7d' :: rest)) =
      .ok (.table (Form.datumMembers (keep kept (Form.prunedMembers members))), rest) := by
  -- the induction carries the members read so far, since a later one may overwrite them
  obtain ⟨fuel, rfl⟩ : ∃ k, fuel = k + 1 := ⟨fuel - 1, by omega⟩
  cases h with
  | last member =>
    cases member with
    | intro blanks hkey blanks' element =>
      obtain ⟨more, read, behind⟩ := readValue_of_element element fuel (by simp at enough; omega)
        ('\x7d' :: rest) (by simp [Closes]) (List.forall_mem_append.mp within).1
      rw [readMembers_of_member blanks hkey blanks' read behind, assignEntry_datumMembers]
      rfl
  | @more cs others _ _ member others_derived =>
    cases member with
    | @intro before key after cs k f blanks hkey blanks' element =>
      obtain ⟨within, within'⟩ := List.forall_mem_append.mp within
      obtain ⟨more, read, behind⟩ := readValue_of_element element fuel (by simp at enough; omega)
        (',' :: (others ++ '\x7d' :: rest)) (by simp [Closes]) within
      have read' := readMembers_of_derives others_derived fuel (by simp at enough; omega) rest
        (Fields.assign k f.pruned kept) within'
      rw [List.append_assoc _ _ ('\x7d' :: rest), List.cons_append,
        readMembers_of_member blanks hkey blanks' read behind, assignEntry_datumMembers]
      exact read'

end

/-! ## What is read is derived -/

theorem Blanks.append {ws ws' : List Char} (h : Blanks ws) (h' : Blanks ws') : Blanks (ws ++ ws') :=
  List.forall_mem_append.mpr ⟨h, h'⟩

theorem DerivesElement.after_blanks {ws cs : List Char} {f : Form} (blanks : Blanks ws) (h : DerivesElement cs f) :
    DerivesElement (ws ++ cs) f := by
  cases h with
  | intro blanks' derives after =>
    rw [← List.append_assoc, ← List.append_assoc]
    exact .intro (blanks.append blanks') derives after

theorem DerivesItems.after_blanks {ws cs : List Char} {items : List Form} (blanks : Blanks ws)
    (h : DerivesItems cs items) : DerivesItems (ws ++ cs) items := by
  cases h with
  | last element => exact .last (element.after_blanks blanks)
  | more element others =>
    rw [← List.append_assoc]
    exact .more (element.after_blanks blanks) others

theorem DerivesMember.after_blanks {ws cs : List Char} {m : String × Form} (blanks : Blanks ws)
    (h : DerivesMember cs m) : DerivesMember (ws ++ cs) m := by
  cases h with
  | intro blanks' key after element =>
    simp only [← List.append_assoc]
    exact .intro (blanks.append blanks') key after element

theorem DerivesMembers.after_blanks {ws cs : List Char} {members : List (String × Form)} (blanks : Blanks ws)
    (h : DerivesMembers cs members) : DerivesMembers (ws ++ cs) members := by
  cases h with
  | last member => exact .last (member.after_blanks blanks)
  | more member others =>
    rw [← List.append_assoc]
    exact .more (member.after_blanks blanks) others

theorem blanks_nil : Blanks [] := by
  intro c hc
  cases hc

/-- A value and the blanks behind it are an element. -/
theorem element_of_value {cs : List Char} {f : Form} (h : Derives cs f) (rest : List Char) :
    ∃ after, DerivesElement (cs ++ after) f ∧ rest = after ++ skipBlanks rest := by
  obtain ⟨after, blanks, eq⟩ := blanks_skipBlanks rest
  have element : DerivesElement ([] ++ cs ++ after) f := .intro blanks_nil h blanks
  exact ⟨after, element, eq⟩

mutual

/-- **What is read as a value is derived.** -/
theorem derives_of_readValue {fuel : Nat} {cs rest : List Char} {d : Datum}
    (h : readValue limit fuel cs = .ok (d, rest)) :
    ∃ front f, cs = front ++ rest ∧ Derives front f ∧ d = f.pruned.datum ∧ f.Within limit := by
  cases fuel with
  | zero => cases h
  | succ fuel =>
    -- by what the text begins with, in the order of the reader
    unfold readValue at h
    split at h
    · split at h
      · rename_i inner s more read
        cases h
        obtain ⟨front, derives, eq⟩ := derives_of_readText read
        exact ⟨front, _, eq, .text derives, rfl, nofun⟩
      · cases h
    · rename_i inner
      obtain ⟨ws, blanks, inner_eq⟩ := blanks_skipBlanks inner
      split at h
      · rename_i more closed
        cases h
        refine ⟨'\x7b' :: ws ++ ['\x7d'], _, ?_, .emptyObject blanks, rfl, nofun⟩
        rw [enclosed_append, ← closed, ← inner_eq]
      · obtain ⟨front, members, eq, derives, rfl, within⟩ := derives_of_readMembers [] h
        refine ⟨'\x7b' :: (ws ++ front) ++ ['\x7d'], _, ?_, .object (derives.after_blanks blanks), ?_, within⟩
        · rw [enclosed_append, List.append_assoc, ← eq, ← inner_eq]
        · rw [pruned_object]
          rfl
    · rename_i inner
      obtain ⟨ws, blanks, inner_eq⟩ := blanks_skipBlanks inner
      split at h
      · rename_i more closed
        cases h
        refine ⟨'[' :: ws ++ [']'], _, ?_, .emptyArray blanks, rfl, nofun⟩
        rw [enclosed_append, ← closed, ← inner_eq]
      · split at h
        · rename_i items more read
          cases h
          obtain ⟨front, items, eq, derives, rfl, within⟩ := derives_of_readItems read
          refine ⟨'[' :: (ws ++ front) ++ [']'], _, ?_, .array (derives.after_blanks blanks), rfl, within⟩
          rw [enclosed_append, List.append_assoc, ← eq, ← inner_eq]
        · cases h
    · cases h
      exact ⟨_, _, rfl, .null, rfl, nofun⟩
    · cases h
      exact ⟨_, _, rfl, .true, rfl, nofun⟩
    · cases h
      exact ⟨_, _, rfl, .false, rfl, nofun⟩
    · cases h
    · cases h
    · cases h
    · obtain ⟨n, eq, rfl, within⟩ := text_of_readNumber h
      exact ⟨n.text, .numeral n, eq, .numeral n, rfl, List.forall_mem_singleton.mpr within⟩

/-- What is read as items is derived, up to a closing bracket. -/
theorem derives_of_readItems {fuel : Nat} {cs rest : List Char} {ds : List Datum}
    (h : readItems limit fuel cs = .ok (ds, rest)) :
    ∃ front items, cs = front ++ ']' :: rest ∧ DerivesItems front items ∧
      ds = Form.datumItems (Form.prunedItems items) ∧ ∀ n ∈ Form.literalsItems items, n.Within limit := by
  cases fuel with
  | zero => cases h
  | succ fuel =>
    unfold readItems at h
    split at h
    · cases h
    · rename_i item more read
      obtain ⟨front, f, rfl, derives, rfl, within⟩ := derives_of_readValue read
      obtain ⟨after, element, more_eq⟩ := element_of_value derives more
      split at h
      · rename_i rest' closed
        cases h
        rw [closed] at more_eq
        exact ⟨front ++ after, [f], by rw [more_eq, List.append_assoc], .last element, rfl,
          List.forall_mem_append.mpr ⟨within, nofun⟩⟩
      · rename_i rest' comma
        split at h
        · rename_i items more' read'
          cases h
          obtain ⟨ws, blanks, rest_eq⟩ := blanks_skipBlanks rest'
          obtain ⟨front', items, eq, derives', rfl, within'⟩ := derives_of_readItems read'
          rw [comma, rest_eq, eq] at more_eq
          refine ⟨front ++ after ++ ',' :: (ws ++ front'), f :: items, ?_, .more element (derives'.after_blanks blanks),
            rfl, List.forall_mem_append.mpr ⟨within, within'⟩⟩
          rw [more_eq]
          simp
        · cases h
      · cases h

/-- What is read as members is derived, up to a closing brace, over those that are kept. -/
theorem derives_of_readMembers {fuel : Nat} {cs rest : List Char} {d : Datum} (kept : List (String × Form))
    (h : readMembers limit fuel (Form.datumMembers kept) cs = .ok (d, rest)) :
    ∃ front members, cs = front ++ '\x7d' :: rest ∧ DerivesMembers front members ∧
      d = .table (Form.datumMembers (keep kept (Form.prunedMembers members))) ∧
        ∀ n ∈ Form.literalsMembers members, n.Within limit := by
  cases fuel with
  | zero => cases h
  | succ fuel =>
    unfold readMembers at h
    split at h
    · rename_i inner
      split at h
      · cases h
      · rename_i key colon read
        obtain ⟨hkey, key_derives, key_eq⟩ := derives_of_readText read
        obtain ⟨after, blanks, colon_eq⟩ := blanks_skipBlanks colon
        split at h
        · rename_i rest' is_colon
          obtain ⟨before, blanks', rest_eq⟩ := blanks_skipBlanks rest'
          split at h
          · cases h
          · rename_i item more value
            obtain ⟨front, f, value_eq, derives, rfl, within⟩ := derives_of_readValue value
            obtain ⟨behind, element, more_eq⟩ := element_of_value derives more
            have member :
                DerivesMember ([] ++ hkey ++ after ++ ':' :: (before ++ (front ++ behind))) (String.ofList key, f) :=
              .intro blanks_nil key_derives blanks (element.after_blanks blanks')
            -- the table that is read is always that of a list of members
            rw [assignEntry_datumMembers] at h
            rw [key_eq, colon_eq, is_colon, rest_eq, value_eq, more_eq]
            split at h
            · rename_i rest'' closed
              cases h
              refine ⟨_, _, ?_, .last member, rfl, List.forall_mem_append.mpr ⟨within, nofun⟩⟩
              rw [closed]
              simp
            · rename_i rest'' comma
              obtain ⟨ws, blanks'', rest_eq'⟩ := blanks_skipBlanks rest''
              obtain ⟨front', members, eq, derives', rfl, within'⟩ := derives_of_readMembers _ h
              refine ⟨_, _, ?_, .more member (derives'.after_blanks blanks''), rfl,
                List.forall_mem_append.mpr ⟨within, within'⟩⟩
              rw [comma, rest_eq', eq]
              simp
            · cases h
        · cases h
    · cases h

end

/-! ## Whole texts -/

/-- **A text is read iff the grammar derives it** and none of its numbers is too long, as what its tree says once repeated
keys are pruned. -/
theorem read_eq_ok_iff {cs : List Char} {d : Datum} :
    read cs limit = .ok d ↔ ∃ f, DerivesText cs f ∧ f.Within limit ∧ d = f.pruned.datum := by
  constructor
  · intro h
    unfold read at h
    split at h
    · cases h
    · rename_i item rest value
      split at h
      · rename_i finished
        cases h
        obtain ⟨before, blanks, cs_eq⟩ := blanks_skipBlanks cs
        obtain ⟨front, f, value_eq, derives, rfl, within⟩ := derives_of_readValue value
        obtain ⟨after, element, rest_eq⟩ := element_of_value derives rest
        rw [List.isEmpty_iff.mp finished, List.append_nil] at rest_eq
        refine ⟨f, ?_, within, rfl⟩
        rw [cs_eq, value_eq, rest_eq]
        exact element.after_blanks blanks
      · cases h
  · rintro ⟨f, derives, within, rfl⟩
    obtain ⟨more, value, behind⟩ := readValue_of_element derives (2 * cs.length + 2) (by omega) [] nofun within
    rw [List.append_nil] at value
    rw [read, value]
    dsimp only
    rw [behind]
    rfl

/-- The grammar derives no text with a byte order mark in front. -/
theorem DerivesText.unmarked {cs : List Char} {f : Form} (h : DerivesText cs f) :
    cs.head? ≠ some (Char.ofNat 0xFEFF) := by
  cases h with
  | @intro before cs after _ blanks derives _ =>
    intro mark
    cases before with
    | nil =>
      obtain ⟨c, more, rfl, begins⟩ := derives.begins
      obtain rfl : c = Char.ofNat 0xFEFF := Option.some.inj mark
      exact absurd begins.ascii (by decide)
    | cons c ws =>
      obtain rfl : c = Char.ofNat 0xFEFF := Option.some.inj mark
      exact absurd (blanks _ List.mem_cons_self) (by decide)

theorem readUnmarked_eq_ok_iff {cs : List Char} {d : Datum} :
    readUnmarked cs limit = .ok d ↔ ∃ f, DerivesText cs f ∧ f.Within limit ∧ d = f.pruned.datum := by
  rw [← read_eq_ok_iff]
  unfold readUnmarked
  cases cs with
  | nil => exact Iff.rfl
  | cons c rest =>
    dsimp only
    split
    · rename_i mark
      constructor
      · intro h
        cases h
      · intro h
        obtain ⟨f, derives, -⟩ := read_eq_ok_iff.mp h
        exact absurd (congrArg some mark) derives.unmarked
    · exact Iff.rfl

end Stepflow.Json
