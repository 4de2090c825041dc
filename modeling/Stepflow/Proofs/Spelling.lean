import Mathlib.Computability.Language
import Mathlib.Data.Set.Function
import Stepflow.Proofs.Decoders

/-!
# Stepflow.Proofs.Spelling — the two spellings of a field name

A field name has a head and words.  In snake case the words follow underscores, in camel case they begin with a capital:
`snakeNames` and `camelNames`, as languages.

* `title_wordPart`: title case changes no more of a word than its first letter.
* `separate_flatten`: in camel case a word begins at the first letter of each word and nowhere else, since what stands
  before a word is always a small letter or a digit.
* `two_spellings`: `toCamel` and `toSnake` are inverse to each other on these names, so that a lookup by either spelling
  finds what normalizing the keys makes of them.
-/

namespace Stepflow.FieldName

open scoped Computability

/-! ## The languages of names -/

/-- One character of a kind. -/
def one (kind : Char → Bool) : Language Char := {cs | ∃ c, kind c = true ∧ cs = [c]}

/-- A small letter or a digit. -/
def isPlain (c : Char) : Bool := isSmall c || c.isDigit

/-- A small letter, then small letters and digits. -/
def headPart : Language Char := one isSmall * (one isPlain)∗

/-- A first letter, then small letters, one at least, then digits. -/
def wordPart (first : Char → Bool) : Language Char := one first * (one isSmall * (one isSmall)∗) * (one Char.isDigit)∗

/-- Names in snake case: each word follows an underscore. -/
def snakeNames : Set String := {name | name.toList ∈ headPart * (one (· == '_') * wordPart isSmall)∗}

/-- Names in camel case: each word begins with a capital. -/
def camelNames : Set String := {name | name.toList ∈ headPart * (wordPart isCapital)∗}

theorem mem_kstar_one {kind : Char → Bool} {cs : List Char} : cs ∈ (one kind)∗ ↔ ∀ c ∈ cs, kind c = true := by
  constructor
  · rintro ⟨parts, rfl, each⟩ c mem
    obtain ⟨part, isPart, mem⟩ := List.mem_flatten.mp mem
    obtain ⟨d, hd, rfl⟩ := each part isPart
    rwa [List.mem_singleton.mp mem]
  · intro all
    refine ⟨cs.map fun c => [c], by rw [← List.flatMap_def, List.flatMap_singleton'], fun part mem => ?_⟩
    obtain ⟨c, hc, rfl⟩ := List.mem_map.mp mem
    exact ⟨c, all c hc, rfl⟩

theorem mem_headPart {head : List Char} :
    head ∈ headPart ↔ ∃ c rest, head = c :: rest ∧ isSmall c = true ∧ ∀ a ∈ rest, isPlain a = true := by
  simp only [headPart, Language.mem_mul, mem_kstar_one]
  constructor
  · rintro ⟨_, ⟨c, small, rfl⟩, rest, plain, rfl⟩
    exact ⟨c, rest, rfl, small, plain⟩
  · rintro ⟨c, rest, rfl, small, plain⟩
    exact ⟨_, ⟨c, small, rfl⟩, rest, plain, rfl⟩

theorem mem_wordPart {first : Char → Bool} {w : List Char} :
    w ∈ wordPart first ↔ ∃ c d letters digits, w = c :: d :: (letters ++ digits) ∧ first c = true ∧ isSmall d = true ∧
      (∀ a ∈ letters, isSmall a = true) ∧ ∀ a ∈ digits, a.isDigit = true := by
  simp only [wordPart, Language.mem_mul, mem_kstar_one]
  constructor
  · rintro ⟨_, ⟨_, ⟨c, hc, rfl⟩, _, ⟨_, ⟨d, hd, rfl⟩, letters, small, rfl⟩, rfl⟩, digits, all, rfl⟩
    exact ⟨c, d, letters, digits, rfl, hc, hd, small, all⟩
  · rintro ⟨c, d, letters, digits, rfl, hc, hd, small, all⟩
    exact ⟨_, ⟨_, ⟨c, hc, rfl⟩, _, ⟨_, ⟨d, hd, rfl⟩, letters, small, rfl⟩, rfl⟩, digits, all, rfl⟩

theorem mem_snakeNames {name : String} :
    name ∈ snakeNames ↔ ∃ (head : List Char) (words : List (List Char)), head ∈ headPart ∧
      (∀ w ∈ words, w ∈ wordPart isSmall) ∧ name.toList = head ++ words.flatMap ('_' :: ·) := by
  show name.toList ∈ headPart * (one (· == '_') * wordPart isSmall)∗ ↔ _
  rw [Language.mem_mul]
  constructor
  · rintro ⟨head, isHead, _, ⟨marked, rfl, each⟩, whole⟩
    have word : ∀ part ∈ marked, part = '_' :: part.tail ∧ part.tail ∈ wordPart isSmall := by
      intro part mem
      obtain ⟨_, ⟨c, underscore, rfl⟩, w, isWord, rfl⟩ := Language.mem_mul.mp (each part mem)
      rw [beq_iff_eq.mp underscore]
      exact ⟨rfl, isWord⟩
    refine ⟨head, marked.map List.tail, isHead, ?_, ?_⟩
    · intro w mem
      obtain ⟨part, isPart, rfl⟩ := List.mem_map.mp mem
      exact (word part isPart).2
    · rw [← whole, List.flatMap_map, List.flatMap_def,
        List.map_congr_left (fun part mem => (word part mem).1.symm), List.map_id']
  · rintro ⟨head, words, isHead, each, whole⟩
    refine ⟨head, isHead, _, ⟨words.map ('_' :: ·), rfl, fun part mem => ?_⟩, whole.symm⟩
    obtain ⟨w, isWord, rfl⟩ := List.mem_map.mp mem
    have underscore : ['_'] ∈ one (· == '_') := ⟨'_', rfl, rfl⟩
    exact Language.append_mem_mul underscore (each w isWord)

theorem mem_camelNames {name : String} :
    name ∈ camelNames ↔ ∃ (head : List Char) (words : List (List Char)), head ∈ headPart ∧
      (∀ w ∈ words, w ∈ wordPart isCapital) ∧ name.toList = head ++ words.flatten := by
  show name.toList ∈ headPart * (wordPart isCapital)∗ ↔ _
  rw [Language.mem_mul]
  constructor
  · rintro ⟨head, isHead, _, ⟨words, rfl, each⟩, whole⟩
    exact ⟨head, words, isHead, each, whole.symm⟩
  · rintro ⟨head, words, isHead, each, whole⟩
    exact ⟨head, isHead, _, ⟨words, rfl, each⟩, whole.symm⟩

/-! ## Characters -/

theorem plain_of_small {c : Char} (h : isSmall c = true) : isPlain c = true := by rw [isPlain, h, Bool.true_or]

theorem plain_of_digit {c : Char} (h : c.isDigit = true) : isPlain c = true := by rw [isPlain, h, Bool.or_true]

theorem ascii_of_plain {c : Char} (h : isPlain c = true) : c.toNat < 128 := by
  simp only [isPlain, isSmall, Char.isDigit, Bool.or_eq_true, Bool.and_eq_true, decide_eq_true_eq] at h
  rcases h with ⟨-, high⟩ | ⟨-, high⟩
  · have : c.toNat ≤ 122 := high
    omega
  · have : c.toNat ≤ 57 := high
    omega

theorem ascii_of_capital {c : Char} (h : isCapital c = true) : c.toNat < 128 := by
  simp only [isCapital, Bool.and_eq_true, decide_eq_true_eq] at h
  have : c.toNat ≤ 90 := h.2
  omega

/-- What letter case makes of the letters and digits of ASCII. -/
theorem ascii_case {c : Char} (ascii : c.toNat < 128) :
    (isPlain c = true → c.toLower = c ∧ isCapital c = false ∧ '_' ≠ c) ∧ (c.isDigit = true → c.toUpper = c) ∧
      (isSmall c = true → isCapital c.toUpper = true ∧ c.toUpper.toLower = c) ∧
      (isCapital c = true → isSmall c.toLower = true ∧ c.toLower.toUpper = c) := by
  rw [← Char.ofNat_toNat c]
  generalize c.toNat = n at ascii ⊢
  revert n
  decide +kernel

/-- Lower case leaves a plain character, which is neither a capital nor an underscore. -/
theorem plain_stays {c : Char} (h : isPlain c = true) : c.toLower = c ∧ isCapital c = false ∧ '_' ≠ c :=
  (ascii_case (ascii_of_plain h)).1 h

theorem digit_stays {c : Char} (h : c.isDigit = true) : c.toUpper = c :=
  (ascii_case (ascii_of_plain (plain_of_digit h))).2.1 h

theorem upper_small {c : Char} (h : isSmall c = true) : isCapital c.toUpper = true ∧ c.toUpper.toLower = c :=
  (ascii_case (ascii_of_plain (plain_of_small h))).2.2.1 h

theorem lower_capital {c : Char} (h : isCapital c = true) : isSmall c.toLower = true ∧ c.toLower.toUpper = c :=
  (ascii_case (ascii_of_capital h)).2.2.2 h

theorem settled_of_plain {c : Char} (h : isPlain c = true) : Text.Settled c :=
  Text.settled_of_ascii (ascii_of_plain h) (plain_stays h).1

theorem cased_of_small {c : Char} (h : isSmall c = true) : Text.isCased c = true := by
  simp only [isSmall, Bool.and_eq_true, decide_eq_true_eq] at h
  have low : 97 ≤ c.toNat := h.1
  have high : c.toNat ≤ 122 := h.2
  rw [Text.isCased, Text.inRanges, List.any_eq_true]
  exact ⟨(97, 122), by simp [Text.casedRanges], by simp [low, high]⟩

/-! ## Parts -/

theorem exists_last_plain {c : Char} {rest : List Char} (plain : ∀ a ∈ c :: rest, isPlain a = true) :
    ∃ b, (c :: rest).getLast? = some b ∧ isPlain b = true :=
  ⟨_, List.getLast?_eq_some_getLast (List.cons_ne_nil c rest), plain _ (List.getLast_mem _)⟩

theorem headPart_plain {head : List Char} (h : head ∈ headPart) :
    (∀ c ∈ head, isPlain c = true) ∧ ∃ b, head.getLast? = some b ∧ isPlain b = true := by
  obtain ⟨c, rest, rfl, small, rest_plain⟩ := mem_headPart.mp h
  have plain : ∀ a ∈ c :: rest, isPlain a = true := List.forall_mem_cons.mpr ⟨plain_of_small small, rest_plain⟩
  exact ⟨plain, exists_last_plain plain⟩

/-- After its first letter a word is plain, and there is more than that letter. -/
theorem wordPart_plain {first : Char → Bool} {w : List Char} (h : w ∈ wordPart first) :
    ∃ c rest, w = c :: rest ∧ first c = true ∧ (∀ a ∈ rest, isPlain a = true) ∧
      ∃ b, rest.getLast? = some b ∧ isPlain b = true := by
  obtain ⟨c, d, letters, digits, rfl, hc, small, letters_small, digits_digit⟩ := mem_wordPart.mp h
  have plain : ∀ a ∈ d :: (letters ++ digits), isPlain a = true := by
    intro a mem
    rcases List.mem_cons.mp mem with rfl | mem
    · exact plain_of_small small
    · rcases List.mem_append.mp mem with mem | mem
      · exact plain_of_small (letters_small a mem)
      · exact plain_of_digit (digits_digit a mem)
  exact ⟨c, _, rfl, hc, plain, exists_last_plain plain⟩

/-- Another first letter makes another word. -/
theorem modifyHead_mem_wordPart {first second : Char → Bool} {f : Char → Char}
    (h : ∀ c, first c = true → second (f c) = true) {w : List Char} (hw : w ∈ wordPart first) :
    w.modifyHead f ∈ wordPart second := by
  obtain ⟨c, d, letters, digits, rfl, hc, rest⟩ := mem_wordPart.mp hw
  exact mem_wordPart.mpr ⟨f c, d, letters, digits, rfl, h c hc, rest⟩

theorem modifyHead_modifyHead_wordPart {first : Char → Bool} {f g : Char → Char}
    (h : ∀ c, first c = true → g (f c) = c) {w : List Char} (hw : w ∈ wordPart first) :
    (w.modifyHead f).modifyHead g = w := by
  obtain ⟨c, d, letters, digits, rfl, hc, -⟩ := mem_wordPart.mp hw
  show g (f c) :: d :: (letters ++ digits) = _
  rw [h c hc]

/-! ## From snake case to camel case -/

theorem titleFrom_digits (before : List Char) {digits : List Char} (h : ∀ c ∈ digits, c.isDigit = true) :
    Text.titleFrom before digits = digits := by
  induction digits generalizing before with
  | nil => rfl
  | cons c after ih =>
    have digit := h c List.mem_cons_self
    have title : Text.titleChar c = [c] := by
      rw [Text.titleChar, if_pos (ascii_of_plain (plain_of_digit digit)), digit_stays digit]
    unfold Text.titleFrom
    dsimp only
    rw [settled_of_plain (plain_of_digit digit), title, ite_self, ih _ fun d hd => h d (List.mem_cons_of_mem c hd)]
    rfl

/-- After a small letter title case leaves small letters and digits. -/
theorem titleFrom_letters {b : Char} (hb : isSmall b = true) (before : List Char) {letters digits : List Char}
    (small : ∀ c ∈ letters, isSmall c = true) (digit : ∀ c ∈ digits, c.isDigit = true) :
    Text.titleFrom (b :: before) (letters ++ digits) = letters ++ digits := by
  -- what stands before a letter is the letter before it as it was, and small
  induction letters generalizing b before with
  | nil => exact titleFrom_digits _ digit
  | cons c after ih =>
    have here := small c List.mem_cons_self
    rw [List.cons_append, Text.titleFrom, if_pos (cased_of_small hb), settled_of_plain (plain_of_small here),
      ih here _ fun d hd => small d (List.mem_cons_of_mem c hd)]
    rfl

/-- **In title case a word begins with a capital and is otherwise the same.** -/
theorem title_wordPart {w : List Char} (h : w ∈ wordPart isSmall) : Text.title w = w.modifyHead Char.toUpper := by
  obtain ⟨c, d, letters, digits, rfl, hc, hd, small, digit⟩ := mem_wordPart.mp h
  have first : Text.titleChar c = [c.toUpper] := by
    rw [Text.titleChar, if_pos (ascii_of_plain (plain_of_small hc))]
  have rest : Text.titleFrom [c] (d :: letters ++ digits) = d :: letters ++ digits :=
    titleFrom_letters hc [] (List.forall_mem_cons.mpr ⟨hd, small⟩) digit
  rw [Text.title, Text.titleFrom, if_neg Bool.false_ne_true, first, ← List.cons_append, rest]
  rfl

theorem underscore_notMem {cs : List Char} (h : ∀ c ∈ cs, isPlain c = true) : '_' ∉ cs :=
  fun mem => (plain_stays (h '_' mem)).2.2 rfl

theorem camelChars_snake {head : List Char} {words : List (List Char)} (hhead : head ∈ headPart)
    (hwords : ∀ w ∈ words, w ∈ wordPart isSmall) :
    camelChars (head ++ words.flatMap ('_' :: ·)) = head ++ (words.map (List.modifyHead Char.toUpper)).flatten := by
  have noneInHead : '_' ∉ head := underscore_notMem (headPart_plain hhead).1
  have noneInWords : ∀ w ∈ words, '_' ∉ w := by
    intro w mem
    obtain ⟨c, rest, rfl, small, plain, -⟩ := wordPart_plain (hwords w mem)
    exact underscore_notMem (List.forall_mem_cons.mpr ⟨plain_of_small small, plain⟩)
  have titles : words.map Text.title = words.map (List.modifyHead Char.toUpper) :=
    List.map_congr_left fun w mem => title_wordPart (hwords w mem)
  rw [camelChars, Text.parts_flatMap noneInHead noneInWords]
  dsimp only
  rw [List.flatMap_def, titles]

/-! ## From camel case to snake case -/

/-- After a plain character each word of camel case is put after an underscore. -/
theorem separate_flatten {b : Char} (hb : isPlain b = true) {words : List (List Char)}
    (h : ∀ w ∈ words, w ∈ wordPart isCapital) : separate (some b) words.flatten = words.flatMap ('_' :: ·) := by
  -- a word ends in a plain character again, which then stands before the next one
  induction words generalizing b with
  | nil => rfl
  | cons w more ih =>
    obtain ⟨c, rest, rfl, capital, plain, last, isLast, hlast⟩ := wordPart_plain (h w List.mem_cons_self)
    have begins (after : List Char) : isBoundary (some b) c after = true := by
      have closed : (isSmall b || b.isDigit) = true := hb
      show (isCapital c && (isSmall b || b.isDigit || _)) = true
      rw [capital, closed, Bool.true_or, Bool.true_and]
    have passed := separate_append (fun a mem => (plain_stays (plain a mem)).2.1) (some c) more.flatten
    rw [isLast, Option.some_or, ih hlast fun v mem => h v (List.mem_cons_of_mem _ mem)] at passed
    rw [List.flatten_cons, List.cons_append, separate, begins, if_pos rfl, passed, List.flatMap_cons]
    rfl

theorem lowerFrom_ascii (before : List Char) {cs : List Char} (h : ∀ c ∈ cs, c.toNat < 128) :
    Text.lowerFrom before cs = cs.map Char.toLower := by
  induction cs generalizing before with
  | nil => rfl
  | cons c after ih =>
    rw [Text.lowerFrom, Text.lowerChar, if_pos (h c List.mem_cons_self), ih _ fun d hd => h d (List.mem_cons_of_mem c hd)]
    rfl

theorem map_toLower_plain {cs : List Char} (h : ∀ c ∈ cs, isPlain c = true) : cs.map Char.toLower = cs := by
  rw [List.map_congr_left fun c mem => (plain_stays (h c mem)).1, List.map_id']

theorem map_toLower_wordPart {w : List Char} (h : w ∈ wordPart isCapital) :
    w.map Char.toLower = w.modifyHead Char.toLower := by
  obtain ⟨c, rest, rfl, -, plain, -⟩ := wordPart_plain h
  rw [List.map_cons, map_toLower_plain plain]
  rfl

theorem snakeChars_camel {head : List Char} {words : List (List Char)} (hhead : head ∈ headPart)
    (hwords : ∀ w ∈ words, w ∈ wordPart isCapital) :
    snakeChars (head ++ words.flatten) = head ++ (words.map (List.modifyHead Char.toLower)).flatMap ('_' :: ·) := by
  obtain ⟨plain, b, isLast, hb⟩ := headPart_plain hhead
  have separated : separate none (head ++ words.flatten) = head ++ words.flatMap ('_' :: ·) := by
    rw [separate_append fun c mem => (plain_stays (plain c mem)).2.1, isLast, Option.some_or, separate_flatten hb hwords]
  have ascii : ∀ c ∈ head ++ words.flatMap ('_' :: ·), c.toNat < 128 := by
    intro c mem
    rcases List.mem_append.mp mem with mem | mem
    · exact ascii_of_plain (plain c mem)
    · obtain ⟨w, isWord, mem⟩ := List.mem_flatMap.mp mem
      obtain ⟨d, rest, rfl, capital, plain, -⟩ := wordPart_plain (hwords w isWord)
      rcases List.mem_cons.mp mem with rfl | mem
      · decide
      · rcases List.mem_cons.mp mem with rfl | mem
        · exact ascii_of_capital capital
        · exact ascii_of_plain (plain c mem)
  have lowered : (words.flatMap ('_' :: ·)).map Char.toLower =
      (words.map (List.modifyHead Char.toLower)).flatMap ('_' :: ·) := by
    rw [List.map_flatMap, List.flatMap_map, List.flatMap_def, List.flatMap_def]
    refine congrArg List.flatten (List.map_congr_left fun w mem => ?_)
    exact congrArg ('_' :: ·) (map_toLower_wordPart (hwords w mem))
  rw [snakeChars, separated, Text.lower, lowerFrom_ascii _ ascii, List.map_append, map_toLower_plain plain, lowered]

/-! ## Both spellings -/

/-- Words that get another first letter are words of another kind. -/
theorem mem_map_modifyHead {first second : Char → Bool} {f : Char → Char} (h : ∀ c, first c = true → second (f c) = true)
    {words : List (List Char)} (hwords : ∀ w ∈ words, w ∈ wordPart first) :
    ∀ w ∈ words.map (List.modifyHead f), w ∈ wordPart second := by
  intro w mem
  obtain ⟨v, isWord, rfl⟩ := List.mem_map.mp mem
  exact modifyHead_mem_wordPart h (hwords v isWord)

theorem map_modifyHead_modifyHead {first : Char → Bool} {f g : Char → Char} (h : ∀ c, first c = true → g (f c) = c)
    {words : List (List Char)} (hwords : ∀ w ∈ words, w ∈ wordPart first) :
    (words.map (List.modifyHead f)).map (List.modifyHead g) = words := by
  rw [List.map_map]
  exact (List.map_congr_left fun w mem => modifyHead_modifyHead_wordPart h (hwords w mem)).trans (List.map_id' words)

theorem toCamel_mem {name : String} (h : name ∈ snakeNames) :
    toCamel name ∈ camelNames ∧ toSnake (toCamel name) = name := by
  obtain ⟨head, words, isHead, isWords, whole⟩ := mem_snakeNames.mp h
  have capitals := mem_map_modifyHead (fun c small => (upper_small small).1) isWords
  have camel : (toCamel name).toList = head ++ (words.map (List.modifyHead Char.toUpper)).flatten := by
    rw [toCamel, String.toList_ofList, whole, camelChars_snake isHead isWords]
  refine ⟨mem_camelNames.mpr ⟨head, _, isHead, capitals, camel⟩, ?_⟩
  rw [toSnake, camel, snakeChars_camel isHead capitals,
    map_modifyHead_modifyHead (fun c small => (upper_small small).2) isWords, ← whole, String.ofList_toList]

theorem toSnake_mem {name : String} (h : name ∈ camelNames) :
    toSnake name ∈ snakeNames ∧ toCamel (toSnake name) = name := by
  obtain ⟨head, words, isHead, isWords, whole⟩ := mem_camelNames.mp h
  have smalls := mem_map_modifyHead (fun c capital => (lower_capital capital).1) isWords
  have snake : (toSnake name).toList = head ++ (words.map (List.modifyHead Char.toLower)).flatMap ('_' :: ·) := by
    rw [toSnake, String.toList_ofList, whole, snakeChars_camel isHead isWords]
  refine ⟨mem_snakeNames.mpr ⟨head, _, isHead, smalls, snake⟩, ?_⟩
  rw [toCamel, snake, camelChars_snake isHead smalls,
    map_modifyHead_modifyHead (fun c capital => (lower_capital capital).2) isWords, ← whole, String.ofList_toList]

/-- A name in snake case is its own snake case: it is that of its camel case. -/
theorem toSnake_of_mem {name : String} (h : name ∈ snakeNames) : toSnake name = name := by
  rw [← (toCamel_mem h).2, toSnake_toSnake]

/-! ## Lookups -/

/-- The field of an object that is found under a name is that of a key with the name for its snake case, the name itself
if it is a key. -/
theorem exists_key_of_named? {name : String} (h : name ∈ snakeNames) {v item : Value} {fields : Fields Value}
    (object : v.fields? = some fields) (found : v.named? name = some item) :
    ∃ k, fields.get? k = some item ∧ toSnake k = name ∧ (name ∈ fields.keys → k = name) := by
  rw [Value.named?, object, Option.bind_some] at found
  cases own : fields.get? name with
  | some other =>
    rw [own, Option.some_or] at found
    exact ⟨name, own.trans found, toSnake_of_mem h, fun _ => rfl⟩
  | none =>
    rw [own, Option.none_or] at found
    refine ⟨toCamel name, found, (toCamel_mem h).2, fun mem => ?_⟩
    rw [← Fields.contains_iff, Fields.contains, own] at mem
    cases mem

/-- **The two spellings of a field name.**  Camel case takes the names in snake case one to one to the names in camel
case, and snake case takes these back.  So what an object is found to hold under such a name, it holds under a key that
normalizing makes that name, and under the name itself if it is a key; and where the name is spelled once among the keys
the normalized fields hold under it just what is found. -/
theorem two_spellings :
    Set.BijOn toCamel snakeNames camelNames ∧ Set.BijOn toSnake camelNames snakeNames ∧
      Set.InvOn toSnake toCamel snakeNames camelNames ∧
      ∀ name ∈ snakeNames, ∀ (v : Value) (fields : Fields Value), v.asObject = .ok fields →
        ∃ found normal, find? v name = .ok found ∧
          normalize (fields.entries.map fun e => (.text e.1, .value e.2)) = .ok normal ∧
          (∀ item, found = some item →
            ∃ k, fields.get? k = some item ∧ toSnake k = name ∧ (name ∈ fields.keys → k = name)) ∧
          (SpelledOnce name fields.keys → normal.get? name = found.map .value) := by
  have inverse : Set.InvOn toSnake toCamel snakeNames camelNames :=
    ⟨fun _ h => (toCamel_mem h).2, fun _ h => (toSnake_mem h).2⟩
  have toCamel_maps : Set.MapsTo toCamel snakeNames camelNames := fun _ h => (toCamel_mem h).1
  have toSnake_maps : Set.MapsTo toSnake camelNames snakeNames := fun _ h => (toSnake_mem h).1
  refine ⟨inverse.bijOn toCamel_maps toSnake_maps, inverse.symm.bijOn toSnake_maps toCamel_maps, inverse, ?_⟩
  intro name h v fields isObject
  have object := Value.asObject_iff.mp isObject
  have entries : (fields.map Datum.value).entries.map (fun e => (Datum.text e.1, e.2)) =
      fields.entries.map fun e => (.text e.1, .value e.2) := by
    rw [Fields.map, List.map_map]
    rfl
  obtain ⟨normal, made⟩ : ∃ normal,
      normalize ((fields.map Datum.value).entries.map fun e => (.text e.1, e.2)) = .ok normal := by
    refine exists_normalizeOver (fun e mem => ?_) .empty
    obtain ⟨field, -, rfl⟩ := List.mem_map.mp mem
    exact ⟨field.1, rfl⟩
  refine ⟨v.named? name, normal, ?_, entries ▸ made, fun item => exists_key_of_named? h object, fun once => ?_⟩
  · exact Processing.find?_of_isObject ((Processing.isObject_iff v).mpr ⟨fields, object⟩) name
  · rw [get?_normalized_of_spelledOnce (toSnake_of_mem h) (toCamel_mem h).2 (by rwa [Fields.keys_map]) made,
      Fields.get?_map, Fields.get?_map, ← Option.map_or, Value.named?, object, Option.bind_some]

/-- An object that counts under a name in camel case, and under another one. -/
def countedObject : Value :=
  .object "$" (.ofList [("retry1Count", .number "$" (.int 3)), ("retry1_counts", .number "$" (.int 4))])

theorem countedObject_found : "retry1_count" ∈ snakeNames ∧ toSnake (toCamel "retry1_count") = "retry1_count" ∧
    ∃ found other normal, find? countedObject "retry1_count" = .ok (some found) ∧ found.json = .number (.int 3) ∧
      normalize [(.text "retry1Count", .value found), (.text "retry1_counts", .value other)] = .ok normal ∧
      normal.get? "retry1_count" = some (.value found) := by
  have isName : "retry1_count" ∈ snakeNames := by
    refine mem_snakeNames.mpr ⟨"retry1".toList, ["count".toList], ?_, ?_, rfl⟩
    · exact mem_headPart.mpr ⟨'r', ['e', 't', 'r', 'y', '1'], rfl, rfl, by simp [isPlain, isSmall]⟩
    · rw [List.forall_mem_singleton]
      exact mem_wordPart.mpr ⟨'c', 'o', ['u', 'n', 't'], [], rfl, rfl, rfl, by simp [isSmall], nofun⟩
  obtain ⟨-, -, inverse, lookup⟩ := two_spellings
  obtain ⟨found, normal, isFound, made, -, agree⟩ := lookup "retry1_count" isName countedObject _ rfl
  have three : find? countedObject "retry1_count" = .ok (some (.number "$.retry1Count" (.int 3))) := rfl
  obtain rfl : some (Value.number "$.retry1Count" (.int 3)) = found := Except.ok.inj (three.symm.trans isFound)
  refine ⟨isName, inverse.1 isName, _, _, normal, three, rfl, made, agree ⟨?_, ?_⟩⟩
  · decide +kernel
  · decide +kernel

end Stepflow.FieldName
