import Stepflow.Proofs.Json.Grammar

/-!
# Stepflow.Proofs.Json.Tokens — blanks, strings and numbers are read as the grammar derives them

For each kind of token one statement says that the reader takes a derived token off the front of a text, and one that
what the reader takes off is derived.

* `skipBlanks_append`, `blanks_skipBlanks`: blanks.
* `readText_of_derives`, `derives_of_readText`: strings.
* `readNumber_reading`, `text_of_readNumber`: numbers, which end where neither a digit nor a point nor an exponent can
  follow (`Stops`).
-/

namespace Stepflow.Json

/-! ## Blanks -/

theorem skipBlanks_append {ws : List Char} (h : Blanks ws) (cs : List Char) : skipBlanks (ws ++ cs) = skipBlanks cs :=
  List.dropWhile_append_of_pos h

theorem skipBlanks_cons {c : Char} (h : isBlank c = false) (cs : List Char) : skipBlanks (c :: cs) = c :: cs := by
  rw [skipBlanks, List.dropWhile_cons, h, if_neg Bool.false_ne_true]

theorem blanks_skipBlanks (cs : List Char) : ∃ ws, Blanks ws ∧ cs = ws ++ skipBlanks cs := by
  refine ⟨cs.takeWhile isBlank, ?_, List.takeWhile_append_dropWhile.symm⟩
  exact List.all_eq_true.mp List.all_takeWhile

theorem skipBlanks_of_blanks {ws : List Char} (h : Blanks ws) : skipBlanks ws = [] := by
  have := skipBlanks_append h []
  rwa [List.append_nil] at this

/-! ## Strings -/

theorem escapeTarget?_of_mem : ∀ e ∈ shortEscapes, escapeTarget? e.1 = some e.2 := by decide

theorem mem_of_escapeTarget? {letter target : Char} (h : escapeTarget? letter = some target) :
    (letter, target) ∈ shortEscapes := by
  unfold escapeTarget? at h
  split at h
  · rename_i self
    cases h
    rcases self with rfl | rfl | rfl <;> decide
  all_goals
    repeat' split at h
    all_goals cases h
    all_goals subst_vars
    all_goals decide

theorem ne_u_of_mem {letter target : Char} (h : (letter, target) ∈ shortEscapes) : letter ≠ 'u' := by
  rintro rfl
  simp [shortEscapes] at h

/-- What is spelled before the closing quote is read. -/
theorem readUnits_of_spells {cs : List Char} {ns : List Nat} (h : Spells cs ns) (rest : List Char) :
    readUnits (cs ++ '"' :: rest) = .ok (ns, rest) := by
  induction h with
  | nil => rw [List.nil_append, readUnits]
  | plain printable not_quote not_backslash _ ih =>
    rw [List.cons_append, readUnits, ih, if_neg (by omega)]
    · rfl
    all_goals simp_all
  | short escape _ ih =>
    have not_u := ne_u_of_mem escape
    rw [List.cons_append, List.cons_append, readUnits, escapeTarget?_of_mem _ escape, ih]
    · rfl
    all_goals simp [not_u]
  | unit digits _ ih =>
    simp only [List.cons_append]
    rw [readUnits, digits, ih]
    simp [prepend]

theorem prepend_eq_ok {n : Nat} {r : Except Fault (List Nat × List Char)} {ns : List Nat} {rest : List Char}
    (h : prepend n r = .ok (ns, rest)) : ∃ ms, r = .ok (ms, rest) ∧ ns = n :: ms := by
  unfold prepend at h
  split at h
  · cases h
    exact ⟨_, rfl, rfl⟩
  · cases h

/-- What is read ends before a closing quote and is spelled. -/
theorem spells_of_readUnits {cs : List Char} {ns : List Nat} {rest : List Char} (h : readUnits cs = .ok (ns, rest)) :
    ∃ spelling, Spells spelling ns ∧ cs = spelling ++ '"' :: rest := by
  fun_induction readUnits cs generalizing ns with
  | case2 =>
    cases h
    exact ⟨[], .nil, rfl⟩
  | case5 a b c d more n digits _ ih =>
    obtain ⟨ms, read, rfl⟩ := prepend_eq_ok h
    obtain ⟨spelling, spells, rfl⟩ := ih read
    exact ⟨_, .unit digits spells, rfl⟩
  | case8 letter more _ _ target found ih =>
    obtain ⟨ms, read, rfl⟩ := prepend_eq_ok h
    obtain ⟨spelling, spells, rfl⟩ := ih read
    exact ⟨_, .short (mem_of_escapeTarget? found) spells, rfl⟩
  | case11 c more not_quote not_last _ _ not_escape printable ih =>
    obtain ⟨ms, read, rfl⟩ := prepend_eq_ok h
    obtain ⟨spelling, spells, rfl⟩ := ih read
    have not_backslash : c ≠ '\\' := by
      intro eq
      cases spelling with
      | nil => exact not_escape _ _ eq rfl
      | cons _ _ => exact not_escape _ _ eq rfl
    exact ⟨_, .plain (by omega) not_quote not_backslash spells, rfl⟩
  | case1 | case3 | case4 | case6 | case7 | case9 | case10 => cases h

/-- **A derived string is read.** -/
theorem readText_of_derives {cs : List Char} {s : String} (h : DerivesString cs s) (rest : List Char) :
    ∃ inner, cs ++ rest = '"' :: inner ∧ readText inner = .ok (s.toList, rest) := by
  obtain ⟨spelling, units, spells, rfl, rfl⟩ := h
  refine ⟨spelling ++ '"' :: rest, by simp, ?_⟩
  rw [readText, readUnits_of_spells spells, String.toList_ofList]

/-- **What is read as a string is derived.** -/
theorem derives_of_readText {inner s rest : List Char} (h : readText inner = .ok (s, rest)) :
    ∃ cs, DerivesString cs (String.ofList s) ∧ '"' :: inner = cs ++ rest := by
  unfold readText at h
  split at h
  · rename_i units more read
    cases h
    obtain ⟨spelling, spells, rfl⟩ := spells_of_readUnits read
    exact ⟨_, ⟨spelling, units, spells, rfl, rfl⟩, by simp⟩
  · cases h

theorem prepend_eq_error_iff {n : Nat} {r : Except Fault (List Nat × List Char)} {fault : Fault} :
    prepend n r = .error fault ↔ r = .error fault := by
  cases r <;> simp [prepend]

theorem readUnits_ne_tooLong (most digits : Nat) (cs : List Char) : readUnits cs ≠ .error (.tooLong most digits) := by
  fun_induction readUnits cs with
  | case5 a b c d more n digits _ ih => rwa [Ne, prepend_eq_error_iff]
  | case8 letter more _ _ target found ih => rwa [Ne, prepend_eq_error_iff]
  | case11 c more not_quote not_last _ _ not_escape printable ih => rwa [Ne, prepend_eq_error_iff]
  | _ => nofun

/-- No string is too long, whatever digits are in it. -/
theorem readText_ne_tooLong (most digits : Nat) (cs : List Char) : readText cs ≠ .error (.tooLong most digits) := by
  unfold readText
  split
  · nofun
  · rename_i fault read
    rintro ⟨⟩
    exact readUnits_ne_tooLong most digits cs read

/-! ## Digits -/

/-- The text does not begin with a digit. -/
def NoDigit (cs : List Char) : Prop := ∀ c ∈ cs.head?, c.isDigit = false

theorem takeWhile_digits {ds rest : List Char} (digits : ∀ c ∈ ds, c.isDigit = true) (stop : NoDigit rest) :
    (ds ++ rest).takeWhile Char.isDigit = ds := by
  rw [List.takeWhile_append_of_pos digits]
  cases rest with
  | nil => simp
  | cons c rest => simp [stop c rfl]

theorem dropWhile_digits {ds rest : List Char} (digits : ∀ c ∈ ds, c.isDigit = true) (stop : NoDigit rest) :
    (ds ++ rest).dropWhile Char.isDigit = rest := by
  rw [List.dropWhile_append_of_pos digits]
  cases rest with
  | nil => rfl
  | cons c rest => simp [stop c rfl]

theorem takeWhile_isDigit (cs : List Char) : ∀ c ∈ cs.takeWhile Char.isDigit, c.isDigit = true :=
  List.all_eq_true.mp List.all_takeWhile

/-! ## The digits before the point -/

theorem readWhole_append {whole rest : List Char} (ne : whole ≠ []) (digits : ∀ c ∈ whole, c.isDigit = true)
    (lead : whole.head? = some '0' → whole = ['0']) (stop : NoDigit rest) :
    readWhole (whole ++ rest) = some (whole, rest) := by
  cases whole with
  | nil => exact absurd rfl ne
  | cons c cs =>
    by_cases zero : c = '0'
    · obtain rfl : cs = [] := by simpa [zero] using lead
      rw [zero]
      rfl
    · have first : c.isDigit = true := digits c List.mem_cons_self
      rw [List.cons_append, readWhole, if_pos first, ← List.cons_append, takeWhile_digits digits stop,
        dropWhile_digits digits stop]
      exact zero

theorem readWhole_eq_some {cs whole rest : List Char} (h : readWhole cs = some (whole, rest)) :
    cs = whole ++ rest ∧ whole ≠ [] ∧ (∀ c ∈ whole, c.isDigit = true) ∧
      (whole.head? = some '0' → whole = ['0']) := by
  unfold readWhole at h
  split at h
  · cases h
    exact ⟨rfl, by simp, by simp [Char.isDigit], fun _ => rfl⟩
  · rename_i c more not_zero
    split at h
    · rename_i digit
      cases h
      refine ⟨List.takeWhile_append_dropWhile.symm, ?_, takeWhile_isDigit _, ?_⟩
      · simp [digit]
      · intro zero
        rw [List.takeWhile_cons, if_pos digit, List.head?_cons] at zero
        exact absurd (Option.some.inj zero) (by simpa using not_zero)
    · cases h
  · cases h

/-! ## Fractions -/

theorem readFraction_append {fraction rest : List Char} (digits : ∀ c ∈ fraction, c.isDigit = true)
    (stop : NoDigit rest) (no_point : rest.head? ≠ some '.') :
    readFraction (Numeral.fractionText fraction ++ rest) = (fraction, rest) := by
  cases fraction with
  | nil =>
    rw [Numeral.fractionText, List.nil_append]
    unfold readFraction
    split
    · exact absurd rfl no_point
    · rfl
  | cons c cs =>
    have first : c.isDigit = true := digits c List.mem_cons_self
    rw [Numeral.fractionText, List.cons_append, List.cons_append, readFraction, if_pos first, ← List.cons_append,
      takeWhile_digits digits stop, dropWhile_digits digits stop]

theorem readFraction_eq {cs fraction rest : List Char} (h : readFraction cs = (fraction, rest)) :
    cs = Numeral.fractionText fraction ++ rest ∧ ∀ c ∈ fraction, c.isDigit = true := by
  unfold readFraction at h
  split at h
  · rename_i c more
    split at h
    · rename_i digit
      obtain ⟨rfl, rfl⟩ := Prod.mk.inj h
      refine ⟨?_, takeWhile_isDigit _⟩
      rw [List.takeWhile_cons, if_pos digit, List.dropWhile_cons, if_pos digit, Numeral.fractionText, List.cons_append,
        List.cons_append, List.takeWhile_append_dropWhile]
    · obtain ⟨rfl, rfl⟩ := Prod.mk.inj h
      exact ⟨rfl, nofun⟩
  · obtain ⟨rfl, rfl⟩ := Prod.mk.inj h
    exact ⟨rfl, nofun⟩

/-! ## Exponents -/

theorem readSign_append (sign : Option Bool) {cs : List Char} (digits : ∀ c ∈ cs.head?, c.isDigit = true) :
    readSign (Exponent.signText sign ++ cs) = (decide (sign = some true), cs) := by
  cases sign with
  | none =>
    rw [Exponent.signText, List.nil_append]
    unfold readSign
    split
    · exact absurd (digits '-' rfl) (by decide)
    · exact absurd (digits '+' rfl) (by decide)
    · rfl
  | some negative => cases negative <;> rfl

theorem readSign_eq (cs : List Char) :
    ∃ sign, cs = Exponent.signText sign ++ (readSign cs).2 ∧ (readSign cs).1 = decide (sign = some true) := by
  unfold readSign
  split
  · exact ⟨some true, rfl, rfl⟩
  · exact ⟨some false, rfl, rfl⟩
  · exact ⟨none, rfl, rfl⟩

theorem readExponent_append (e : Exponent) {rest : List Char} (stop : NoDigit rest) :
    readExponent (e.text ++ rest) = (some e.value, rest) := by
  obtain ⟨letter, sign, digits, letter_eq, digits_ne, digits_all⟩ := e
  have begins : ∀ c ∈ (digits ++ rest).head?, c.isDigit = true := by
    intro c hc
    cases digits with
    | nil => exact absurd rfl digits_ne
    | cons d ds =>
      obtain rfl : d = c := Option.some.inj hc
      exact digits_all d List.mem_cons_self
  rw [Exponent.text, List.cons_append, List.cons_append, List.append_assoc]
  unfold readExponent
  dsimp only
  rw [if_pos letter_eq, readSign_append sign begins]
  dsimp only
  rw [takeWhile_digits digits_all stop, dropWhile_digits digits_all stop]
  cases digits with
  | nil => exact absurd rfl digits_ne
  | cons d ds => simp [Exponent.value]

theorem readExponent_none {cs : List Char} (h : ∀ c ∈ cs.head?, c ≠ 'e' ∧ c ≠ 'E') : readExponent cs = (none, cs) := by
  unfold readExponent
  cases cs with
  | nil => rfl
  | cons c rest =>
    obtain ⟨not_e, not_E⟩ := h c rfl
    dsimp only
    rw [if_neg (by simp [not_e, not_E])]

theorem readExponent_eq {cs rest : List Char} {value : Option Int} (h : readExponent cs = (value, rest)) :
    ∃ e : Option Exponent, cs = Numeral.exponentText e ++ rest ∧ value = e.map Exponent.value := by
  unfold readExponent at h
  cases cs with
  | nil =>
    obtain ⟨rfl, rfl⟩ := Prod.mk.inj h
    exact ⟨none, rfl, rfl⟩
  | cons letter more =>
    dsimp only at h
    split at h
    · rename_i letter_eq
      obtain ⟨sign, more_eq, sign_eq⟩ := readSign_eq more
      split at h
      · obtain ⟨rfl, rfl⟩ := Prod.mk.inj h
        exact ⟨none, rfl, rfl⟩
      · rename_i not_empty
        obtain ⟨rfl, rfl⟩ := Prod.mk.inj h
        refine ⟨some ⟨letter, sign, (readSign more).2.takeWhile Char.isDigit, letter_eq, not_empty,
          takeWhile_isDigit _⟩, ?_, ?_⟩
        · rw [Numeral.exponentText, Exponent.text, List.cons_append, List.cons_append, List.append_assoc,
            List.takeWhile_append_dropWhile, ← more_eq]
        · rw [sign_eq]
          simp [Exponent.value]
    · obtain ⟨rfl, rfl⟩ := Prod.mk.inj h
      exact ⟨none, rfl, rfl⟩

/-! ## Numbers -/

/-- Nothing follows by which a number could go on. -/
def Stops (rest : List Char) : Prop := NoDigit rest ∧ ∀ c ∈ rest.head?, c ≠ '.' ∧ c ≠ 'e' ∧ c ≠ 'E'

theorem Stops.exponentText {rest : List Char} (h : Stops rest) (e : Option Exponent) :
    NoDigit (Numeral.exponentText e ++ rest) ∧ (Numeral.exponentText e ++ rest).head? ≠ some '.' := by
  cases e with
  | none =>
    refine ⟨h.1, fun point => ?_⟩
    exact (h.2 '.' point).1 rfl
  | some e =>
    have head : (Numeral.exponentText (some e) ++ rest).head? = some e.letter := rfl
    rw [NoDigit, head]
    rcases e.letter_eq with eq | eq <;> rw [eq] <;> simp [Char.isDigit]

theorem Stops.fractionText {rest : List Char} (h : Stops rest) (fraction : List Char) (e : Option Exponent) :
    NoDigit (Numeral.fractionText fraction ++ (Numeral.exponentText e ++ rest)) := by
  cases fraction with
  | nil => exact (h.exponentText e).1
  | cons c cs => simp [NoDigit, Numeral.fractionText, Char.isDigit]

theorem readExponent_exponentText {rest : List Char} (h : Stops rest) (e : Option Exponent) :
    readExponent (Numeral.exponentText e ++ rest) = (e.map Exponent.value, rest) := by
  cases e with
  | none => exact readExponent_none fun c hc => (h.2 c hc).2
  | some e => exact readExponent_append e h.1

theorem Numeral.magnitudeText_head (n : Numeral) (rest : List Char) :
    ∃ c cs, n.magnitudeText ++ rest = c :: cs ∧ c.isDigit = true := by
  obtain ⟨negative, whole, fraction, exponent, ne, digits, -, -⟩ := n
  cases whole with
  | nil => exact absurd rfl ne
  | cons c cs => exact ⟨c, _, rfl, digits c List.mem_cons_self⟩

/-- The minus before a number, if there is one. -/
def cutMinus : List Char → Bool × List Char
  | '-' :: rest => (true, rest)
  | cs => (false, cs)

theorem cutMinus_of_digit {c : Char} (digit : c.isDigit = true) (cs : List Char) :
    cutMinus (c :: cs) = (false, c :: cs) := by
  unfold cutMinus
  split
  · rename_i minus
    obtain rfl : c = '-' := (List.cons.inj minus).1
    exact absurd digit (by decide)
  · rfl

theorem cutMinus_eq {cs magnitude : List Char} {negative : Bool} (h : cutMinus cs = (negative, magnitude)) :
    cs = (if negative then ['-'] else []) ++ magnitude := by
  unfold cutMinus at h
  split at h
  · obtain ⟨rfl, rfl⟩ := Prod.mk.inj h
    rfl
  · obtain ⟨rfl, rfl⟩ := Prod.mk.inj h
    rfl

theorem exceeded?_eq_some_iff {limit : Option Nat} {digits most : Nat} :
    exceeded? limit digits = some most ↔ limit = some most ∧ most < digits := by
  rw [exceeded?, Option.filter_eq_some_iff, decide_eq_true_iff]

variable {limit : Option Nat}

/-- What is read where a numeral stands. -/
def Numeral.reading (limit : Option Nat) (n : Numeral) (rest : List Char) : Except Fault (Datum × List Char) :=
  match n.excess? limit with
  | some most => .error (.tooLong most n.whole.length)
  | none => .ok (n.datum, rest)

theorem Numeral.reading_eq_ok {n : Numeral} (within : n.Within limit) (rest : List Char) :
    n.reading limit rest = .ok (n.datum, rest) := by
  rw [reading, show n.excess? limit = none from within]

theorem readNumber_eq (limit : Option Nat) (cs : List Char) :
    readNumber limit cs = match readWhole (cutMinus cs).2 with
      | none => .error .value
      | some (whole, more) =>
        let fraction := readFraction more
        let exponent := readExponent fraction.2
        match if fraction.1.isEmpty && exponent.1.isNone then exceeded? limit whole.length else none with
        | some most => .error (.tooLong most whole.length)
        | none => .ok (if fraction.1.isEmpty && exponent.1.isNone then
          .int (if (cutMinus cs).1 then -(digitsValue whole : Int) else digitsValue whole)
        else .float (.ofDecimal (cutMinus cs).1 (digitsValue (whole ++ fraction.1))
          (exponent.1.getD 0 - fraction.1.length)), exponent.2) := by
  unfold readNumber
  split
  rename_i negative magnitude sign
  have sign : cutMinus cs = (negative, magnitude) := sign
  rw [sign]
  dsimp only
  cases readWhole magnitude with
  | none => rfl
  | some parts =>
    dsimp only
    split
    · cases exceeded? limit parts.1.length <;> rfl
    · rfl

theorem Numeral.datum_eq (n : Numeral) : n.datum =
    if n.fraction.isEmpty && (n.exponent.map Exponent.value).isNone then
      .int (if n.negative then -(digitsValue n.whole : Int) else digitsValue n.whole)
    else .float (.ofDecimal n.negative (digitsValue (n.whole ++ n.fraction))
      ((n.exponent.map Exponent.value).getD 0 - n.fraction.length)) := by
  rw [Option.isNone_map]
  rfl

theorem Numeral.excess?_eq (n : Numeral) : n.excess? limit =
    if n.fraction.isEmpty && (n.exponent.map Exponent.value).isNone then exceeded? limit n.whole.length else none := by
  rw [Option.isNone_map]
  rfl

theorem readNumber_reading (n : Numeral) {rest : List Char} (stop : Stops rest) :
    readNumber limit (n.text ++ rest) = n.reading limit rest := by
  have whole : readWhole (n.magnitudeText ++ rest) =
      some (n.whole, Numeral.fractionText n.fraction ++ (Numeral.exponentText n.exponent ++ rest)) := by
    rw [Numeral.magnitudeText, List.append_assoc, List.append_assoc]
    exact readWhole_append n.whole_ne n.whole_all n.whole_lead (stop.fractionText _ _)
  have sign : cutMinus (n.text ++ rest) = (n.negative, n.magnitudeText ++ rest) := by
    rw [Numeral.text, List.append_assoc]
    cases n.negative with
    | true => rfl
    | false =>
      obtain ⟨c, cs, eq, digit⟩ := n.magnitudeText_head rest
      rw [if_neg Bool.false_ne_true, List.nil_append, eq]
      exact cutMinus_of_digit digit cs
  obtain ⟨no_digit, no_point⟩ := stop.exponentText n.exponent
  rw [readNumber_eq, sign, whole]
  dsimp only
  rw [readFraction_append n.fraction_all no_digit no_point]
  dsimp only
  rw [readExponent_exponentText stop, ← Numeral.datum_eq, ← Numeral.excess?_eq]
  rfl

/-- Where a number is read there is none, or a derived one. -/
theorem readNumber_cases (limit : Option Nat) (cs : List Char) :
    readNumber limit cs = .error .value ∨
      ∃ (n : Numeral) (rest : List Char), cs = n.text ++ rest ∧ readNumber limit cs = n.reading limit rest := by
  obtain ⟨negative, magnitude, sign⟩ : ∃ negative magnitude, cutMinus cs = (negative, magnitude) := ⟨_, _, rfl⟩
  rw [readNumber_eq, sign]
  dsimp only
  cases read : readWhole magnitude with
  | none => exact .inl rfl
  | some parts =>
    obtain ⟨whole, more⟩ := parts
    obtain ⟨fraction, tail, fraction_eq⟩ : ∃ fraction tail, readFraction more = (fraction, tail) := ⟨_, _, rfl⟩
    obtain ⟨value, rest, exponent_eq⟩ : ∃ value rest, readExponent tail = (value, rest) := ⟨_, _, rfl⟩
    dsimp only
    rw [fraction_eq]
    dsimp only
    rw [exponent_eq]
    -- the parts that are read make a numeral, whatever the limit says of it
    obtain ⟨rfl, whole_ne, whole_all, whole_lead⟩ := readWhole_eq_some read
    obtain ⟨rfl, fraction_all⟩ := readFraction_eq fraction_eq
    obtain ⟨exponent, rfl, rfl⟩ := readExponent_eq exponent_eq
    refine .inr ⟨⟨negative, whole, fraction, exponent, whole_ne, whole_all, whole_lead, fraction_all⟩, rest, ?_, ?_⟩
    · rw [cutMinus_eq sign]
      simp [Numeral.text, Numeral.magnitudeText]
    · rw [Numeral.reading, Numeral.excess?_eq, Numeral.datum_eq]

/-- **What is read as a number is derived**, and not too long. -/
theorem text_of_readNumber {cs rest : List Char} {d : Datum} (h : readNumber limit cs = .ok (d, rest)) :
    ∃ n : Numeral, cs = n.text ++ rest ∧ d = n.datum ∧ n.Within limit := by
  obtain none_read | ⟨n, more, rfl, read⟩ := readNumber_cases limit cs
  · cases none_read.symm.trans h
  · rw [read, Numeral.reading] at h
    split at h
    · cases h
    · rename_i within
      cases h
      exact ⟨n, rfl, rfl, within⟩

/-- A number is too long by its digits alone. -/
theorem tooLong_of_readNumber {cs : List Char} {most digits : Nat}
    (h : readNumber limit cs = .error (.tooLong most digits)) :
    ∃ (n : Numeral) (rest : List Char), cs = n.text ++ rest ∧ n.whole.length = digits ∧
      n.excess? limit = some most := by
  obtain none_read | ⟨n, rest, rfl, read⟩ := readNumber_cases limit cs
  · cases none_read.symm.trans h
  · rw [read, Numeral.reading] at h
    split at h
    · rename_i exceeds
      cases h
      exact ⟨n, rest, rfl, rfl, exceeds⟩
    · cases h

end Stepflow.Json
