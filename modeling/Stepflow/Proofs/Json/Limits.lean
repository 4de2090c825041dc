import Stepflow.Proofs.Json.Unambiguity

/-!
# Stepflow.Proofs.Json.Limits — what a limit on the digits of whole numbers does to the reader

A limit makes one fault more, that of a whole number that is too long, and changes nothing else (`read_agrees`).

* `tooLong_of_read`: that fault needs a limit, and more digits in a row than it allows; without a limit there is none.
* `tooLong_iff_of_derives`: a text of the grammar has it iff a number of its tree is too long, overwritten or not.
-/

namespace Stepflow.Json

variable {limit : Option Nat}

/-! ## Digits in a row -/

/-- So many digits stand in a row. -/
def HasRun (digits : Nat) (cs : List Char) : Prop :=
  ∃ run, run <:+: cs ∧ (∀ c ∈ run, c.isDigit = true) ∧ run.length = digits

theorem HasRun.of_suffix {digits : Nat} {cs ds : List Char} (h : HasRun digits ds) (suffix : ds <:+ cs) :
    HasRun digits cs := by
  obtain ⟨run, within, all, length⟩ := h
  exact ⟨run, within.trans suffix.isInfix, all, length⟩

theorem Numeral.hasRun (n : Numeral) (rest : List Char) : HasRun n.whole.length (n.text ++ rest) := by
  refine ⟨n.whole, ?_, n.whole_all, rfl⟩
  rw [text, magnitudeText, List.append_assoc, List.append_assoc, List.append_assoc]
  exact (List.prefix_append n.whole _).isInfix.trans (List.suffix_append _ _).isInfix

theorem skipBlanks_suffix (cs : List Char) : skipBlanks cs <:+ cs := List.dropWhile_suffix isBlank

theorem suffix_of_skipBlanks {cs rest : List Char} {c : Char} (h : skipBlanks cs = c :: rest) : rest <:+ cs :=
  (List.suffix_cons c rest).trans (h ▸ skipBlanks_suffix cs)

theorem suffix_of_readValue {fuel : Nat} {cs rest : List Char} {d : Datum}
    (h : readValue limit fuel cs = .ok (d, rest)) : rest <:+ cs := by
  obtain ⟨front, f, rfl, -⟩ := derives_of_readValue h
  exact List.suffix_append front rest

theorem suffix_of_readText {inner s rest : List Char} (h : readText inner = .ok (s, rest)) : rest <:+ '"' :: inner := by
  obtain ⟨front, -, eq⟩ := derives_of_readText h
  rw [eq]
  exact List.suffix_append front rest

/-! ## Where a number is too long -/

mutual

/-- **A number is too long only where there is a limit**, and more digits than that stand in a row. -/
theorem tooLong_of_readValue {fuel : Nat} {cs : List Char} {most digits : Nat}
    (h : readValue limit fuel cs = .error (.tooLong most digits)) :
    exceeded? limit digits = some most ∧ HasRun digits cs := by
  cases fuel with
  | zero => cases h
  | succ fuel =>
    -- a fault of a part is one of the whole, and the part is a suffix; only a number makes a fault of its own
    unfold readValue at h
    split at h
    · rename_i inner
      split at h
      · cases h
      · rename_i fault read
        cases h
        exact absurd read (readText_ne_tooLong _ _ inner)
    · rename_i inner
      split at h
      · cases h
      · obtain ⟨exceeds, run⟩ := tooLong_of_readMembers h
        exact ⟨exceeds, run.of_suffix ((skipBlanks_suffix inner).trans (List.suffix_cons _ inner))⟩
    · rename_i inner
      split at h
      · cases h
      · split at h
        · cases h
        · rename_i fault read
          cases h
          obtain ⟨exceeds, run⟩ := tooLong_of_readItems read
          exact ⟨exceeds, run.of_suffix ((skipBlanks_suffix inner).trans (List.suffix_cons _ inner))⟩
    · cases h
    · cases h
    · cases h
    · cases h
    · cases h
    · cases h
    · obtain ⟨n, rest, rfl, rfl, exceeds⟩ := tooLong_of_readNumber h
      refine ⟨?_, n.hasRun rest⟩
      rw [Numeral.excess?] at exceeds
      split at exceeds
      · exact exceeds
      · cases exceeds

theorem tooLong_of_readItems {fuel : Nat} {cs : List Char} {most digits : Nat}
    (h : readItems limit fuel cs = .error (.tooLong most digits)) :
    exceeded? limit digits = some most ∧ HasRun digits cs := by
  cases fuel with
  | zero => cases h
  | succ fuel =>
    unfold readItems at h
    split at h
    · rename_i fault read
      cases h
      exact tooLong_of_readValue read
    · rename_i item rest read
      split at h
      · cases h
      · rename_i rest' comma
        split at h
        · cases h
        · rename_i fault read'
          cases h
          obtain ⟨exceeds, run⟩ := tooLong_of_readItems read'
          have behind := (skipBlanks_suffix rest').trans (suffix_of_skipBlanks comma)
          exact ⟨exceeds, run.of_suffix (behind.trans (suffix_of_readValue read))⟩
      · cases h

theorem tooLong_of_readMembers {fuel : Nat} {entries : List (Datum × Datum)} {cs : List Char} {most digits : Nat}
    (h : readMembers limit fuel entries cs = .error (.tooLong most digits)) :
    exceeded? limit digits = some most ∧ HasRun digits cs := by
  cases fuel with
  | zero => cases h
  | succ fuel =>
    unfold readMembers at h
    split at h
    · rename_i inner
      split at h
      · rename_i fault read
        cases h
        exact absurd read (readText_ne_tooLong _ _ inner)
      · rename_i key colon read
        split at h
        · rename_i rest is_colon
          have value : skipBlanks rest <:+ '"' :: inner :=
            (skipBlanks_suffix rest).trans ((suffix_of_skipBlanks is_colon).trans (suffix_of_readText read))
          split at h
          · rename_i fault read'
            cases h
            obtain ⟨exceeds, run⟩ := tooLong_of_readValue read'
            exact ⟨exceeds, run.of_suffix value⟩
          · rename_i item more read'
            split at h
            · cases h
            · rename_i rest' comma
              obtain ⟨exceeds, run⟩ := tooLong_of_readMembers h
              have behind := (skipBlanks_suffix rest').trans (suffix_of_skipBlanks comma)
              exact ⟨exceeds, run.of_suffix (behind.trans ((suffix_of_readValue read').trans value))⟩
            · cases h
        · cases h
    · cases h

end

/-! ## With a limit and without one -/

/-- A reading with a limit is that without one, but for a number that is too long. -/
def Agrees {α : Type} (limited free : Except Fault α) : Prop :=
  limited = free ∨ ∃ most digits, limited = .error (.tooLong most digits)

theorem readNumber_agrees (limit : Option Nat) (cs : List Char) :
    Agrees (readNumber limit cs) (readNumber none cs) := by
  rw [readNumber_eq, readNumber_eq]
  cases readWhole (cutMinus cs).2 with
  | none => exact .inl rfl
  | some parts =>
    dsimp only
    cases (readFraction parts.2).1.isEmpty && (readExponent (readFraction parts.2).2).1.isNone with
    | false => exact .inl rfl
    | true => cases exceeded? limit parts.1.length with
      | none => exact .inl rfl
      | some most => exact .inr ⟨most, _, rfl⟩

mutual

/-- **A limit changes nothing**, but that a number that is too long is a fault. -/
theorem readValue_agrees (limit : Option Nat) (fuel : Nat) (cs : List Char) :
    Agrees (readValue limit fuel cs) (readValue none fuel cs) := by
  cases fuel with
  | zero => exact .inl rfl
  | succ fuel =>
    unfold readValue
    split
    case h_2 inner =>
      split
      · exact .inl rfl
      · exact readMembers_agrees limit fuel [] _
    case h_3 inner =>
      split
      · exact .inl rfl
      · obtain same | ⟨most, digits, tooLong⟩ := readItems_agrees limit fuel (skipBlanks inner)
        · rw [same]
          exact .inl rfl
        · rw [tooLong]
          exact .inr ⟨most, digits, rfl⟩
    case h_10 => exact readNumber_agrees limit cs
    all_goals exact .inl rfl

theorem readItems_agrees (limit : Option Nat) (fuel : Nat) (cs : List Char) :
    Agrees (readItems limit fuel cs) (readItems none fuel cs) := by
  cases fuel with
  | zero => exact .inl rfl
  | succ fuel =>
    unfold readItems
    obtain same | ⟨most, digits, tooLong⟩ := readValue_agrees limit fuel cs
    · rw [same]
      split
      · exact .inl rfl
      · split
        · exact .inl rfl
        · rename_i rest _
          obtain same | ⟨most, digits, tooLong⟩ := readItems_agrees limit fuel (skipBlanks rest)
          · rw [same]
            exact .inl rfl
          · rw [tooLong]
            exact .inr ⟨most, digits, rfl⟩
        · exact .inl rfl
    · rw [tooLong]
      exact .inr ⟨most, digits, rfl⟩

theorem readMembers_agrees (limit : Option Nat) (fuel : Nat) (entries : List (Datum × Datum)) (cs : List Char) :
    Agrees (readMembers limit fuel entries cs) (readMembers none fuel entries cs) := by
  cases fuel with
  | zero => exact .inl rfl
  | succ fuel =>
    unfold readMembers
    split
    · split
      · exact .inl rfl
      · split
        · rename_i rest _
          obtain same | ⟨most, digits, tooLong⟩ := readValue_agrees limit fuel (skipBlanks rest)
          · rw [same]
            split
            · exact .inl rfl
            · split
              · exact .inl rfl
              · exact readMembers_agrees limit fuel _ _
              · exact .inl rfl
          · rw [tooLong]
            exact .inr ⟨most, digits, rfl⟩
        · exact .inl rfl
    · exact .inl rfl

end

/-! ## Whole texts -/

theorem read_agrees (limit : Option Nat) (cs : List Char) : Agrees (read cs limit) (read cs) := by
  unfold read
  obtain same | ⟨most, digits, tooLong⟩ := readValue_agrees limit (2 * cs.length + 2) (skipBlanks cs)
  · rw [same]
    exact .inl rfl
  · rw [tooLong]
    exact .inr ⟨most, digits, rfl⟩

theorem tooLong_of_read {cs : List Char} {most digits : Nat} (h : read cs limit = .error (.tooLong most digits)) :
    exceeded? limit digits = some most ∧ HasRun digits cs := by
  unfold read at h
  split at h
  · rename_i fault value
    cases h
    obtain ⟨exceeds, run⟩ := tooLong_of_readValue value
    exact ⟨exceeds, run.of_suffix (skipBlanks_suffix cs)⟩
  · split at h <;> cases h

/-- A number that is too long is so as a text of its own. -/
theorem read_of_excess {n : Numeral} {most : Nat} (h : n.excess? limit = some most) :
    read n.text limit = .error (.tooLong most n.whole.length) := by
  have blanks : skipBlanks n.text = n.text := by
    have eq := (Derives.numeral n).skipBlanks_eq []
    rwa [List.append_nil] at eq
  have value := @readValue_numeral limit n [] nil_stops (2 * n.text.length + 1)
  rw [List.append_nil, Numeral.reading, h] at value
  rw [read, blanks, value]

/-- Without a limit no number is too long. -/
theorem readUnmarked_ne_tooLong (cs : List Char) (most digits : Nat) :
    readUnmarked cs ≠ .error (.tooLong most digits) := by
  have never : read cs ≠ .error (.tooLong most digits) := fun h => nomatch (tooLong_of_read h).1
  unfold readUnmarked
  cases cs with
  | nil => exact never
  | cons c rest =>
    dsimp only
    split
    · nofun
    · exact never

/-- **A derived text is refused for a number that is too long iff its tree has one.** -/
theorem tooLong_iff_of_derives {cs : List Char} {f : Form} (h : DerivesText cs f) :
    (∃ most digits, read cs limit = .error (.tooLong most digits)) ↔ ¬ f.Within limit := by
  constructor
  · rintro ⟨most, digits, refused⟩ within
    cases refused.symm.trans (read_eq_ok_iff.mpr ⟨f, h, within, rfl⟩)
  · intro beyond
    obtain same | tooLong := read_agrees limit cs
    · have free : read cs = .ok f.pruned.datum := read_eq_ok_iff.mpr ⟨f, h, f.within_none, rfl⟩
      obtain ⟨g, derives, within, -⟩ := read_eq_ok_iff.mp (same.trans free)
      rw [h.unique derives] at beyond
      exact absurd within beyond
    · exact tooLong

end Stepflow.Json
