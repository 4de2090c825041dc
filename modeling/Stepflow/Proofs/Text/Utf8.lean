import Mathlib.Tactic.SplitIfs
import Stepflow.Text.Encoding

/-!
# Stepflow.Proofs.Text.Utf8 — a text is read back from its bytes, and its bytes look like no other encoding

* `utf8Step_encodeChar`: the bytes of a character are taken off the front as that character, one lemma for each width.
* `decodeUtf8_encodeUtf8`: the bytes of a text decode to the text.
* `detect_encodeUtf8`: without the character zero, and without a byte order mark at the front, the bytes of a text show
  UTF-8 and nothing else.
* `decodeDetected_encodeUtf8`: such a text is read back from its bytes, whatever its first four bytes are.
-/

namespace Stepflow.Text

/-! ## Bytes -/

theorem toNat_toUInt8 {n : Nat} (h : n < 256) : n.toUInt8.toNat = n := by
  simp [Nat.toUInt8, Nat.mod_eq_of_lt h]

theorem toUInt8_lt_iff {n : Nat} (h : n < 256) (b : UInt8) : n.toUInt8 < b ↔ n < b.toNat := by
  rw [UInt8.lt_iff_toNat_lt, toNat_toUInt8 h]

theorem toUInt8_eq_iff {n : Nat} (h : n < 256) (b : UInt8) : n.toUInt8 = b ↔ n = b.toNat := by
  rw [← UInt8.toNat_inj, toNat_toUInt8 h]

/-- A byte that continues a character carries six bits. -/
theorem continuation (n : Nat) :
    isContinuation (0x80 + n % 64).toUInt8 = true ∧ payload (0x80 + n % 64).toUInt8 = n % 64 := by
  have value := toNat_toUInt8 (show 0x80 + n % 64 < 256 by omega)
  constructor
  · simp only [isContinuation, Bool.and_eq_true, decide_eq_true_eq, UInt8.le_iff_toNat_le, UInt8.lt_iff_toNat_lt, value,
      UInt8.reduceToNat]
    omega
  · rw [payload, value]
    omega

/-! ## One character -/

theorem utf8Step_one {n : Nat} (narrow : n < 0x80) (rest : List UInt8) :
    utf8Step n.toUInt8 rest = .char (Char.ofNat n) 1 := by
  have small : n < 256 := by omega
  unfold utf8Step
  rw [if_pos ((toUInt8_lt_iff small 0x80).mpr narrow), toNat_toUInt8 small]

theorem utf8Step_two {n : Nat} (least : 0x80 ≤ n) (most : n < 0x800) (rest : List UInt8) :
    utf8Step (0xC0 + n / 64).toUInt8 ((0x80 + n % 64).toUInt8 :: rest) = .char (Char.ofNat n) 2 := by
  have small : 0xC0 + n / 64 < 256 := by omega
  obtain ⟨continues, bits⟩ := continuation n
  have whole : (0xC0 + n / 64) % 32 * 64 + n % 64 = n := by omega
  unfold utf8Step
  simp only [toUInt8_lt_iff small, UInt8.reduceToNat]
  rw [if_neg (by omega), if_neg (by omega), if_pos (by omega), if_pos continues, toNat_toUInt8 small, bits, whole]

/-- The second of three bytes keeps clear of shorter forms and of surrogates. -/
theorem mayFollow_three {n : Nat} (least : 0x800 ≤ n) (most : n < 0x10000) (scalar : n < 0xD800 ∨ 0xDFFF < n) :
    mayFollow (0xE0 + n / 4096).toUInt8 (0x80 + n / 64 % 64).toUInt8 = true := by
  have first : 0xE0 + n / 4096 < 256 := by omega
  have second := toNat_toUInt8 (show 0x80 + n / 64 % 64 < 256 by omega)
  simp only [mayFollow, secondBounds, toUInt8_eq_iff first, UInt8.reduceToNat, Bool.and_eq_true, decide_eq_true_eq,
    UInt8.le_iff_toNat_le, second]
  split_ifs <;> simp only [UInt8.reduceToNat] <;> omega

theorem utf8Step_three {n : Nat} (least : 0x800 ≤ n) (most : n < 0x10000) (scalar : n < 0xD800 ∨ 0xDFFF < n)
    (rest : List UInt8) :
    utf8Step (0xE0 + n / 4096).toUInt8 ((0x80 + n / 64 % 64).toUInt8 :: (0x80 + n % 64).toUInt8 :: rest) =
      .char (Char.ofNat n) 3 := by
  have small : 0xE0 + n / 4096 < 256 := by omega
  obtain ⟨-, middle⟩ := continuation (n / 64)
  obtain ⟨continues, bits⟩ := continuation n
  have follows := mayFollow_three least most scalar
  have whole : (0xE0 + n / 4096) % 16 * 4096 + n / 64 % 64 * 64 + n % 64 = n := by omega
  unfold utf8Step
  simp only [toUInt8_lt_iff small, UInt8.reduceToNat]
  rw [if_neg (by omega), if_neg (by omega), if_neg (by omega), if_pos (by omega), follows, Bool.not_true,
    if_neg Bool.false_ne_true, if_pos continues, toNat_toUInt8 small, middle, bits, whole]

/-- The second of four bytes keeps clear of shorter forms and stays in the range of characters. -/
theorem mayFollow_four {n : Nat} (least : 0x10000 ≤ n) (most : n < 0x110000) :
    mayFollow (0xF0 + n / 262144).toUInt8 (0x80 + n / 4096 % 64).toUInt8 = true := by
  have first : 0xF0 + n / 262144 < 256 := by omega
  have second := toNat_toUInt8 (show 0x80 + n / 4096 % 64 < 256 by omega)
  simp only [mayFollow, secondBounds, toUInt8_eq_iff first, UInt8.reduceToNat, Bool.and_eq_true, decide_eq_true_eq,
    UInt8.le_iff_toNat_le, second]
  split_ifs <;> simp only [UInt8.reduceToNat] <;> omega

theorem utf8Step_four {n : Nat} (least : 0x10000 ≤ n) (most : n < 0x110000) (rest : List UInt8) :
    utf8Step (0xF0 + n / 262144).toUInt8 ((0x80 + n / 4096 % 64).toUInt8 :: (0x80 + n / 64 % 64).toUInt8 ::
      (0x80 + n % 64).toUInt8 :: rest) = .char (Char.ofNat n) 4 := by
  have small : 0xF0 + n / 262144 < 256 := by omega
  obtain ⟨-, high⟩ := continuation (n / 4096)
  obtain ⟨goesOn, middle⟩ := continuation (n / 64)
  obtain ⟨continues, bits⟩ := continuation n
  have follows := mayFollow_four least most
  have whole : (0xF0 + n / 262144) % 8 * 262144 + n / 4096 % 64 * 4096 + n / 64 % 64 * 64 + n % 64 = n := by omega
  unfold utf8Step
  simp only [toUInt8_lt_iff small, UInt8.reduceToNat]
  rw [if_neg (by omega), if_neg (by omega), if_neg (by omega), if_neg (by omega), if_pos (by omega), follows, goesOn,
    Bool.not_true, if_neg Bool.false_ne_true, if_neg Bool.false_ne_true, if_pos continues, toNat_toUInt8 small, high,
    middle, bits, whole]

/-- **The bytes of a character are taken off the front as that character.** -/
theorem utf8Step_encodeChar (c : Char) : ∃ first more, encodeChar c = first :: more ∧
    ∀ rest, utf8Step first (more ++ rest) = .char c (more.length + 1) := by
  have scalar : c.toNat < 0xD800 ∨ 0xDFFF < c.toNat := c.valid.imp_right And.left
  have most : c.toNat < 0x110000 := c.valid.elim (fun h => Nat.lt_trans h (by decide)) And.right
  have back := Char.ofNat_toNat c
  unfold encodeChar
  dsimp only
  split
  · rename_i narrow
    exact ⟨_, [], rfl, fun rest => by rw [utf8Step_one narrow, back]; rfl⟩
  split
  · rename_i least narrow
    exact ⟨_, [_], rfl, fun rest => by
      rw [List.singleton_append, utf8Step_two (Nat.le_of_not_lt least) narrow, back]; rfl⟩
  split
  · rename_i least narrow
    exact ⟨_, [_, _], rfl, fun rest => (utf8Step_three (Nat.le_of_not_lt least) narrow scalar rest).trans (by rw [back]; rfl)⟩
  · rename_i least
    exact ⟨_, [_, _, _], rfl, fun rest => (utf8Step_four (Nat.le_of_not_lt least) most rest).trans (by rw [back]; rfl)⟩

/-! ## Texts -/

theorem length_le_encodeUtf8 (cs : List Char) : cs.length ≤ (encodeUtf8 cs).length := by
  induction cs with
  | nil => exact Nat.le_refl 0
  | cons c rest ih =>
    obtain ⟨first, more, eq, -⟩ := utf8Step_encodeChar c
    rw [encodeUtf8, List.flatMap_cons, eq]
    change rest.length ≤ (rest.flatMap encodeChar).length at ih
    simp only [List.length_cons, List.length_append]
    omega

theorem strictUtf8_encodeUtf8 {cs : List Char} {fuel : Nat} (enough : cs.length ≤ fuel) :
    strictUtf8 fuel (encodeUtf8 cs) = .ok cs := by
  induction cs generalizing fuel with
  | nil => cases fuel <;> rfl
  | cons c rest ih =>
    obtain ⟨fuel, rfl⟩ : ∃ k, fuel = k + 1 := ⟨fuel - 1, by simp at enough; omega⟩
    obtain ⟨first, more, eq, step⟩ := utf8Step_encodeChar c
    have bytes : encodeUtf8 (c :: rest) = first :: (more ++ encodeUtf8 rest) := by
      rw [encodeUtf8, List.flatMap_cons, eq]
      rfl
    rw [bytes, strictUtf8, step]
    dsimp only
    rw [Nat.add_sub_cancel, List.drop_left, ih (Nat.le_of_succ_le_succ enough)]
    rfl

/-- **The bytes of a text decode to the text.** -/
theorem decodeUtf8_encodeUtf8 (cs : List Char) : decodeUtf8 (encodeUtf8 cs) = .ok cs :=
  strictUtf8_encodeUtf8 (length_le_encodeUtf8 cs)

/-! ## The encoding that shows -/

/-- A byte of a character is zero only for the character zero, and none is as large as those of a mark. -/
theorem encodeChar_bytes {c : Char} (nonzero : c.toNat ≠ 0) : ∀ b ∈ encodeChar c, b ≠ 0 ∧ b < 0xFE := by
  have most : c.toNat < 0x110000 := c.valid.elim (fun h => Nat.lt_trans h (by decide)) And.right
  have within (k : Nat) (low : 0 < k) (high : k < 0xFE) : k.toUInt8 ≠ 0 ∧ k.toUInt8 < 0xFE := by
    have small : k < 256 := by omega
    rw [Ne, toUInt8_eq_iff small, toUInt8_lt_iff small]
    exact ⟨by simp; omega, high⟩
  intro b mem
  unfold encodeChar at mem
  dsimp only at mem
  split at mem
  · obtain rfl := List.mem_singleton.mp mem
    exact within _ (by omega) (by omega)
  split at mem
  · simp only [List.mem_cons, List.not_mem_nil, or_false] at mem
    rcases mem with rfl | rfl <;> exact within _ (by omega) (by omega)
  split at mem
  · simp only [List.mem_cons, List.not_mem_nil, or_false] at mem
    rcases mem with rfl | rfl | rfl <;> exact within _ (by omega) (by omega)
  · simp only [List.mem_cons, List.not_mem_nil, or_false] at mem
    rcases mem with rfl | rfl | rfl | rfl <;> exact within _ (by omega) (by omega)

/-- Only the byte order mark has the bytes of the mark. -/
theorem eq_mark_of_encodeChar {c : Char} {rest more : List UInt8}
    (h : encodeChar c ++ rest = 0xEF :: 0xBB :: 0xBF :: more) : c.toNat = 0xFEFF := by
  have most : c.toNat < 0x110000 := c.valid.elim (fun h => Nat.lt_trans h (by decide)) And.right
  have value (k : Nat) (b : UInt8) (small : k < 256) (same : k.toUInt8 = b) : k = b.toNat :=
    (toUInt8_eq_iff small b).mp same
  unfold encodeChar at h
  dsimp only at h
  split at h
  · have first := value _ _ (by omega) (List.cons.inj h).1
    simp only [UInt8.reduceToNat] at first
    omega
  split at h
  · have first := value _ _ (by omega) (List.cons.inj h).1
    simp only [UInt8.reduceToNat] at first
    omega
  split at h
  · obtain ⟨first, h⟩ := List.cons.inj h
    obtain ⟨second, h⟩ := List.cons.inj h
    have first := value _ _ (by omega) first
    have second := value _ _ (by omega) second
    have third := value _ _ (by omega) (List.cons.inj h).1
    simp only [UInt8.reduceToNat] at first second third
    omega
  · have first := value _ _ (by omega) (List.cons.inj h).1
    simp only [UInt8.reduceToNat] at first
    omega

/-- Bytes without zeros and without a mark show UTF-8. -/
theorem detectUnmarked_of_bytes {bs : List UInt8} (nonzero : ∀ b ∈ bs, b ≠ 0) : detectUnmarked bs = .utf8 := by
  unfold detectUnmarked
  split
  · rw [if_neg (nonzero _ (by simp)), if_neg (nonzero _ (by simp))]
  · rw [if_neg (nonzero _ (by simp)), if_neg (nonzero _ (by simp))]
  · rfl

/-- Bytes without zeros, without the bytes of the marks of two bytes, and not those of the mark of UTF-8 at the front,
show UTF-8. -/
theorem detect_of_bytes {bs : List UInt8} (bytes : ∀ b ∈ bs, b ≠ 0 ∧ b < 0xFE)
    (unmarked : ∀ more, bs ≠ 0xEF :: 0xBB :: 0xBF :: more) : detect bs = .utf8 := by
  unfold detect
  split
  · exact absurd rfl (bytes 0 List.mem_cons_self).1
  · exact absurd (bytes 0xFF List.mem_cons_self).2 (by decide)
  · exact absurd (bytes 0xFE List.mem_cons_self).2 (by decide)
  · exact absurd (bytes 0xFF List.mem_cons_self).2 (by decide)
  · exact absurd rfl (unmarked _)
  · exact detectUnmarked_of_bytes fun b mem => (bytes b mem).1

/-- **The bytes of a text without the character zero, and without a mark at the front, show UTF-8.** -/
theorem detect_encodeUtf8 {cs : List Char} (nonzero : ∀ c ∈ cs, c.toNat ≠ 0)
    (unmarked : ∀ c, cs.head? = some c → c.toNat ≠ 0xFEFF) : detect (encodeUtf8 cs) = .utf8 := by
  refine detect_of_bytes (fun b mem => ?_) fun more h => ?_
  · obtain ⟨c, isChar, isByte⟩ := List.mem_flatMap.mp mem
    exact encodeChar_bytes (nonzero c isChar) b isByte
  · cases cs with
    | nil => cases h
    | cons c rest => exact unmarked c rfl (eq_mark_of_encodeChar h)

/-- Such a text is read back from its bytes. -/
theorem decodeDetected_encodeUtf8 {cs : List Char} (nonzero : ∀ c ∈ cs, c.toNat ≠ 0)
    (unmarked : ∀ c, cs.head? = some c → c.toNat ≠ 0xFEFF) : decodeDetected (encodeUtf8 cs) = .ok cs := by
  rw [decodeDetected, detect_encodeUtf8 nonzero unmarked]
  exact decodeUtf8_encodeUtf8 cs

end Stepflow.Text
