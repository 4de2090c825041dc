import Stepflow.Interaction.Transport
import Stepflow.Proofs.Json.RoundTrip
import Stepflow.Proofs.Refusals
import Stepflow.Proofs.Text.Utf8

/-!
# Stepflow.Proofs.Responses — a value survives the way through the bytes of a response

* `Json.uncontrolled_write`: the text of a tree has no control characters, and so no zero.
* `Value.ofBytes_encodeUtf8`: the bytes of a text decode as the text does.
* `Value.encode_not_blank`, `Value.detect_encode`, `Value.ofBytes_encode`: the bytes of the text of a value are not blank,
  show UTF-8, and decode to the value.
* `Interaction.bodies_of_responses`: this, what the resolver of interactions answers with, and what becomes of any bytes.
-/

namespace Stepflow

namespace Json

/-! ## Texts without control characters -/

/-- No character is a control character of ASCII below the space. -/
def Uncontrolled (cs : List Char) : Prop := ∀ c ∈ cs, 0x20 ≤ c.toNat

instance (cs : List Char) : Decidable (Uncontrolled cs) :=
  decidable_of_iff (cs.all (0x20 ≤ Char.toNat ·) = true) (by simp [Uncontrolled])

theorem uncontrolled_nil : Uncontrolled [] := nofun

theorem uncontrolled_cons {c : Char} {cs : List Char} (first : 0x20 ≤ c.toNat) (rest : Uncontrolled cs) :
    Uncontrolled (c :: cs) := by
  rintro d (_ | ⟨_, mem⟩)
  · exact first
  · exact rest d mem

theorem Uncontrolled.append {cs ds : List Char} (h : Uncontrolled cs) (h' : Uncontrolled ds) : Uncontrolled (cs ++ ds) :=
  fun c mem => (List.mem_append.mp mem).elim (h c) (h' c)

theorem uncontrolled_digits {cs : List Char} (digits : ∀ c ∈ cs, c.isDigit = true) : Uncontrolled cs := fun c mem => by
  have bounds := isDigit_iff.mp (digits c mem)
  omega

theorem uncontrolled_signText (sign : Option Bool) : Uncontrolled (Exponent.signText sign) := by
  rcases sign with _ | _ | _ <;> simp [Uncontrolled, Exponent.signText]

theorem Numeral.uncontrolled (n : Numeral) : Uncontrolled n.text := by
  have sign : Uncontrolled (if n.negative then ['-'] else []) := by
    cases n.negative <;> simp [Uncontrolled]
  have fraction : Uncontrolled (fractionText n.fraction) := by
    have digits := uncontrolled_digits n.fraction_all
    cases written : n.fraction with
    | nil => exact uncontrolled_nil
    | cons c rest => exact uncontrolled_cons (by decide) (written ▸ digits)
  have exponent : Uncontrolled (exponentText n.exponent) := by
    cases n.exponent with
    | none => exact uncontrolled_nil
    | some e =>
      have letter : 0x20 ≤ e.letter.toNat := by rcases e.letter_eq with eq | eq <;> rw [eq] <;> decide
      exact (uncontrolled_cons letter (uncontrolled_signText e.sign)).append (uncontrolled_digits e.digits_all)
  exact sign.append (((uncontrolled_digits n.whole_all).append fraction).append exponent)

theorem uncontrolled_hexadecimal {n : Nat} (control : n < 0x20) : Uncontrolled (Text.hexadecimal 4 n) := by
  have all : ∀ n < 0x20, Uncontrolled (Text.hexadecimal 4 n) := by decide
  exact all n control

theorem uncontrolled_escapedChar (c : Char) : Uncontrolled (escapedChar c) := by
  have short (letter : Char) (high : 0x20 ≤ letter.toNat) : Uncontrolled ['\\', letter] :=
    uncontrolled_cons (by decide) (uncontrolled_cons high uncontrolled_nil)
  unfold escapedChar
  split
  · exact short '"' (by decide)
  split
  · exact short '\\' (by decide)
  split
  · exact short 'n' (by decide)
  split
  · exact short 'r' (by decide)
  split
  · exact short 't' (by decide)
  split
  · exact short 'f' (by decide)
  split
  · exact short 'b' (by decide)
  split
  · rename_i control
    exact uncontrolled_cons (by decide) (uncontrolled_cons (by decide) (uncontrolled_hexadecimal control))
  · rename_i printable
    exact uncontrolled_cons (Nat.le_of_not_lt printable) uncontrolled_nil

theorem uncontrolled_writeText (s : String) : Uncontrolled (writeText s) := by
  have quote : Uncontrolled ['"'] := uncontrolled_cons (by decide) uncontrolled_nil
  refine (uncontrolled_cons (by decide) fun c mem => ?_).append quote
  obtain ⟨d, -, mem⟩ := List.mem_flatMap.mp mem
  exact uncontrolled_escapedChar d c mem

mutual

/-- **The text of a tree has no control characters.** -/
theorem uncontrolled_write (j : Json) : Uncontrolled (write j) := by
  cases j with
  | null => decide
  | bool b => cases b <;> decide
  | number x =>
    obtain ⟨n, text, -⟩ := x.exists_numeral
    rw [write, ← text]
    exact n.uncontrolled
  | text s => exact uncontrolled_writeText s
  | array items =>
    exact (uncontrolled_cons (by decide) (uncontrolled_writeItems items)).append
      (uncontrolled_cons (by decide) uncontrolled_nil)
  | object fields =>
    exact (uncontrolled_cons (by decide) (uncontrolled_writeFields fields)).append
      (uncontrolled_cons (by decide) uncontrolled_nil)

theorem uncontrolled_writeItems (items : List Json) : Uncontrolled (writeItems items) := by
  cases items with
  | nil => exact uncontrolled_nil
  | cons item rest => cases rest with
    | nil => exact uncontrolled_write item
    | cons second rest =>
      exact (uncontrolled_write item).append (uncontrolled_cons (by decide) (uncontrolled_writeItems (second :: rest)))

theorem uncontrolled_writeFields (fields : List (String × Json)) : Uncontrolled (writeFields fields) := by
  cases fields with
  | nil => exact uncontrolled_nil
  | cons field rest =>
    obtain ⟨k, item⟩ := field
    have first := (uncontrolled_writeText k).append (uncontrolled_cons (c := ':') (by decide) (uncontrolled_write item))
    cases rest with
    | nil => exact first
    | cons second rest =>
      exact first.append (uncontrolled_cons (by decide) (uncontrolled_writeFields (second :: rest)))

end

end Json

/-! ## Texts and their bytes -/

namespace Value

/-- **The bytes of a text decode as the text does**, if it has no zero and no mark at the front. -/
theorem ofBytes_encodeUtf8 {limit : Option Nat} {t : String} (nonzero : ∀ c ∈ t.toList, c.toNat ≠ 0)
    (unmarked : t.toList.head? ≠ some (Char.ofNat 0xFEFF)) :
    ofBytes (Text.encodeUtf8 t.toList) limit = ofText t limit := by
  have notMark : ∀ c, t.toList.head? = some c → c.toNat ≠ 0xFEFF := by
    rintro c first mark
    rw [first, ← mark, Char.ofNat_toNat] at unmarked
    exact unmarked rfl
  rw [ofBytes, Text.decodeDetected_encodeUtf8 nonzero notMark, ofText]
  dsimp only
  unfold Json.readUnmarked
  cases begins : t.toList with
  | nil => rfl
  | cons c rest =>
    have other : c ≠ Char.ofNat 0xFEFF := fun same => unmarked (by rw [begins, same]; rfl)
    dsimp only
    rw [if_neg other]

/-- What bytes are refused for is a failure of decoding, or a number that is too long. -/
theorem ofBytes_refused {limit : Option Nat} {bs : List UInt8} {f : Failure} (h : ofBytes bs limit = .error f) :
    f.family? = some .decode ∨ ∃ cs most digits, Text.decodeDetected bs = .ok cs ∧
      Json.read cs limit = .error (.tooLong most digits) ∧ f = (Json.Fault.tooLong most digits).failure := by
  unfold ofBytes at h
  split at h
  · rename_i cs decoded
    cases read : Json.read cs limit with
    | ok d =>
      rw [read] at h
      exact .inl (decodesOnly_ofDatum rootPath d f h)
    | error fault =>
      rw [read] at h
      cases h
      cases fault with
      | tooLong most digits => exact .inr ⟨cs, most, digits, decoded, read, rfl⟩
      | _ => exact .inl rfl
  · cases h
    exact .inl rfl

/-! ## Values and their bytes -/

open Interaction (isBlankByte)

/-- The bytes of the text of a value. -/
def encode (v : Value) : List UInt8 := Text.encodeUtf8 v.render.toList

theorem render_begins (v : Value) : ∃ c cs, v.render.toList = c :: cs ∧ Json.Begins c ∧ 0x20 ≤ c.toNat := by
  obtain ⟨f, derives, -⟩ := Json.exists_form v.distinct
  have printable := Json.uncontrolled_write v.json
  obtain ⟨c, cs, eq, begins⟩ := derives.begins
  rw [Value.render, Json.render, String.toList_ofList]
  rw [eq] at printable ⊢
  exact ⟨c, cs, rfl, begins, printable c List.mem_cons_self⟩

/-- The text of a value is not taken for blank. -/
theorem encode_not_blank (v : Value) : v.encode.all isBlankByte = false := by
  obtain ⟨c, cs, eq, begins, printable⟩ := render_begins v
  have ascii := begins.ascii
  have bytes : v.encode = c.toNat.toUInt8 :: Text.encodeUtf8 cs := by
    rw [encode, eq, Text.encodeUtf8, List.flatMap_cons, Text.encodeChar, if_pos ascii]
    rfl
  have small : c.toNat < 256 := by omega
  have not_space : c.toNat ≠ 32 := by
    intro space
    have blank := begins.not_blank
    rw [← Char.ofNat_toNat c, space] at blank
    cases blank
  have not_blank : isBlankByte c.toNat.toUInt8 = false := by
    rw [← Bool.not_eq_true]
    simp only [isBlankByte, Bool.or_eq_true, beq_iff_eq, Bool.and_eq_true, decide_eq_true_eq, UInt8.le_iff_toNat_le,
      Text.toUInt8_eq_iff small, Text.toNat_toUInt8 small, UInt8.reduceToNat]
    omega
  rw [bytes, List.all_cons, not_blank, Bool.false_and]

theorem render_nonzero (v : Value) : ∀ c ∈ v.render.toList, c.toNat ≠ 0 := by
  intro c mem
  rw [Value.render, Json.render, String.toList_ofList] at mem
  have printable := Json.uncontrolled_write v.json c mem
  omega

theorem render_unmarked (v : Value) : v.render.toList.head? ≠ some (Char.ofNat 0xFEFF) := by
  obtain ⟨c, cs, eq, begins, -⟩ := render_begins v
  rw [eq]
  rintro ⟨⟩
  exact absurd begins.ascii (by decide)

/-- The bytes of the text of a value show UTF-8. -/
theorem detect_encode (v : Value) : Text.detect v.encode = .utf8 := by
  refine Text.detect_encodeUtf8 (render_nonzero v) fun c first mark => render_unmarked v ?_
  rw [first, ← mark, Char.ofNat_toNat]

theorem ofBytes_encode {limit : Option Nat} {v : Value} (within : v.json.Within limit) :
    Value.ofBytes v.encode limit = .ok (v.relocate Value.rootPath) := by
  rw [encode, Value.ofBytes_encodeUtf8 (render_nonzero v) (render_unmarked v)]
  exact Value.ofText_renderJson v.distinct within

/-- A number that is too long is what the bytes of its text fail for. -/
theorem ofBytes_of_tooLong {bytes : List UInt8} {cs : List Char} {limit : Option Nat} {most digits : Nat}
    (decoded : Text.decodeDetected bytes = .ok cs) (read : Json.read cs limit = .error (.tooLong most digits)) :
    Value.ofBytes bytes limit = .error (Json.Fault.tooLong most digits).failure := by
  rw [Value.ofBytes, decoded]
  dsimp only
  rw [read]
  rfl

end Value

namespace Interaction

/-! ## Bodies -/

/-- What becomes of the bytes of a response: null where they are blank, the value that they decode to, a text where they
do not decode, and else the failure that is none of decoding. -/
theorem body_cases (r : Response) :
    (r.content.all isBlankByte = true → r.body = .ok .null) ∧
      (r.content.all isBlankByte = false → ∀ v, Value.ofBytes r.content Json.digitLimit = .ok v → r.body = .ok v) ∧
      (r.content.all isBlankByte = false → ∀ f, Value.ofBytes r.content Json.digitLimit = .error f →
        r.body = if f.family? = some .decode then
          .ok (.text Value.rootPath (String.ofList (Text.decodeUtf8Lenient r.content))) else .error f) := by
  unfold Response.body
  refine ⟨fun blank => if_pos blank, fun filled v decoded => ?_, fun filled f refused => ?_⟩
  · rw [filled, if_neg Bool.false_ne_true, decoded]
  · rw [filled, if_neg Bool.false_ne_true, refused]

/-- **The body of a response with the text of a value is the value**, at the root. -/
theorem body_of_render {v : Value} (within : v.json.Within Json.digitLimit) (status : Int) :
    (Response.mk status v.encode).body = .ok (v.relocate Value.rootPath) :=
  (body_cases ⟨status, v.encode⟩).2.1 (Value.encode_not_blank v) _ (Value.ofBytes_encode within)

/-- **A body fails for a number that is too long, and for nothing else.** -/
theorem body_eq_error_iff {r : Response} {f : Failure} : r.body = .error f ↔
    r.content.all isBlankByte = false ∧ ∃ cs most digits, Text.decodeDetected r.content = .ok cs ∧
      Json.read cs Json.digitLimit = .error (.tooLong most digits) ∧ f = (Json.Fault.tooLong most digits).failure := by
  obtain ⟨blank, filled, refused⟩ := body_cases r
  constructor
  · intro fails
    cases some_filled : r.content.all isBlankByte with
    | true => cases (blank some_filled).symm.trans fails
    | false =>
      refine ⟨rfl, ?_⟩
      cases decoded : Value.ofBytes r.content Json.digitLimit with
      | ok v => cases (filled some_filled v decoded).symm.trans fails
      | error g =>
        have body := (refused some_filled g decoded).symm.trans fails
        split at body
        · cases body
        · rename_i not_decode
          cases body
          exact (Value.ofBytes_refused decoded).resolve_left not_decode
  · rintro ⟨some_filled, cs, most, digits, decoded, read, rfl⟩
    exact (refused some_filled _ (Value.ofBytes_of_tooLong decoded read)).trans (if_neg nofun)

/-- The failure of a body is none of decoding, and more digits than are read stand in a row in the text. -/
theorem excess_of_body {r : Response} {f : Failure} (fails : r.body = .error f) :
    f.family? = none ∧ Value.ofBytes r.content Json.digitLimit = .error f ∧
      ∃ cs digits, Text.decodeDetected r.content = .ok cs ∧ Json.digitLimit < digits ∧ Json.HasRun digits cs := by
  obtain ⟨-, cs, most, digits, decoded, read, rfl⟩ := body_eq_error_iff.mp fails
  obtain ⟨exceeds, run⟩ := Json.tooLong_of_read read
  obtain ⟨limit_eq, more⟩ := Json.exceeded?_eq_some_iff.mp exceeds
  cases limit_eq
  exact ⟨rfl, Value.ofBytes_of_tooLong decoded read, cs, digits, decoded, more, run⟩

theorem exists_body_of_short {r : Response}
    (short : ∀ cs digits, Text.decodeDetected r.content = .ok cs → Json.HasRun digits cs → digits ≤ Json.digitLimit) :
    ∃ body, r.body = .ok body := by
  cases body : r.body with
  | ok v => exact ⟨v, rfl⟩
  | error f =>
    obtain ⟨-, -, cs, digits, decoded, more, run⟩ := excess_of_body body
    exact absurd (short cs digits decoded run) (Nat.not_le_of_lt more)

/-- **A text of the grammar gives a body exactly if none of its whole numbers is too long.** -/
theorem exists_body_iff_of_derives {r : Response} {cs : List Char} {f : Json.Form}
    (decoded : Text.decodeDetected r.content = .ok cs) (derives : Json.DerivesText cs f)
    (filled : r.content.all isBlankByte = false) : (∃ body, r.body = .ok body) ↔ f.Within Json.digitLimit := by
  constructor
  · rintro ⟨body, returns⟩
    by_contra beyond
    obtain ⟨most, digits, read⟩ := (Json.tooLong_iff_of_derives derives).mpr beyond
    cases returns.symm.trans (body_eq_error_iff.mpr ⟨filled, cs, most, digits, decoded, read, rfl⟩)
  · intro within
    cases body : r.body with
    | ok v => exact ⟨v, rfl⟩
    | error g =>
      obtain ⟨-, cs', most, digits, decoded', read, -⟩ := body_eq_error_iff.mp body
      cases decoded.symm.trans decoded'
      exact absurd within ((Json.tooLong_iff_of_derives derives).mp ⟨most, digits, read⟩)

/-- A response that reports success and has the text of a value, in UTF-8, has a body equal to the value, with the same
text, and the resolver of interactions answers with it, if no whole number of the value has more digits than are read; the
bytes are not blank, show UTF-8 and decode.  Whatever that limit is, the bytes of any text without a zero and without a
mark at the front decode as the text does, or are refused for the same failure.  Any bytes give a body: null where they
are blank, else the value that they decode to, else a text, unless a whole number of more digits than are read is met in
them.  Then, and only then, the body fails, which is no failure of decoding; it needs that many digits in a row, and of a
text of the grammar a whole number that is too long, overwritten or not. -/
theorem bodies_of_responses (v : Value) (status : Int) (limit : Option Nat) (t : String) (r : Response) :
    (v.json.Within Json.digitLimit → status < 400 →
      v.encode.all isBlankByte = false ∧ Text.detect v.encode = .utf8 ∧
        ∃ body, (Response.mk status v.encode).body = .ok body ∧
          Value.ofBytes v.encode Json.digitLimit = .ok body ∧ body.same v = true ∧ body.render = v.render ∧
          ∀ (transport : Transport) (payload : Value) (request : Request) (remarks : List Remark) (calls : Nat),
            Request.ofPayload payload = .ok request → transport request = (remarks, .ok ⟨status, v.encode⟩) →
              (resolver transport).respond calls payload = .remarks remarks (.answer (some body))) ∧
    ((∀ c ∈ t.toList, c.toNat ≠ 0) → t.toList.head? ≠ some (Char.ofNat 0xFEFF) →
      Value.ofBytes (Text.encodeUtf8 t.toList) limit = Value.ofText t limit) ∧
    (r.content.all isBlankByte = true → r.body = .ok .null) ∧
    (r.content.all isBlankByte = false → ∀ v, Value.ofBytes r.content Json.digitLimit = .ok v → r.body = .ok v) ∧
    (r.content.all isBlankByte = false → ∀ f, Value.ofBytes r.content Json.digitLimit = .error f →
      f.family? = some .decode →
        r.body = .ok (.text Value.rootPath (String.ofList (Text.decodeUtf8Lenient r.content)))) ∧
    (∀ f, r.body = .error f → f.family? = none ∧ Value.ofBytes r.content Json.digitLimit = .error f ∧
      ∃ cs digits, Text.decodeDetected r.content = .ok cs ∧ Json.digitLimit < digits ∧ Json.HasRun digits cs) ∧
    ((∀ cs digits, Text.decodeDetected r.content = .ok cs → Json.HasRun digits cs → digits ≤ Json.digitLimit) →
      ∃ body, r.body = .ok body) ∧
    ∀ cs f, Text.decodeDetected r.content = .ok cs → Json.DerivesText cs f →
      r.content.all isBlankByte = false → ((∃ body, r.body = .ok body) ↔ f.Within Json.digitLimit) := by
  obtain ⟨blank, filled, refused⟩ := body_cases r
  refine ⟨fun within success => ?_, Value.ofBytes_encodeUtf8, blank, filled,
    fun some_filled f fails decode => (refused some_filled f fails).trans (if_pos decode),
    fun _ => excess_of_body, exists_body_of_short, fun _ _ => exists_body_iff_of_derives⟩
  have body := body_of_render within status
  refine ⟨Value.encode_not_blank v, Value.detect_encode v, _, body, Value.ofBytes_encode within,
    Json.same_self v.distinct, rfl, ?_⟩
  intro transport payload request remarks calls decoded answered
  have succeeds : (Response.mk status v.encode).isSuccess = true := decide_eq_true success
  simp only [resolver, decoded, answered, conclude, succeeds, if_true, body]

/-- A receipt with characters of several widths. -/
def receipt : Value :=
  .object "$.receipt" (.ofList [("Käse", .text "$" "5 €"), ("total", .number "$" (.int 5)), ("\n", .array "$" [.null])])

/-- A payload that asks for it. -/
def receiptPayload : Value := .object "$" (.ofList [("path", .text "$" "/receipt"), ("method", .text "$" "get")])

/-- A server that answers with the receipt. -/
def receiptServer : Transport := fun _ => ([], .ok ⟨201, receipt.encode⟩)

theorem receipt_arrives : ∃ body, (resolver receiptServer).respond 0 receiptPayload = .answer (some body) ∧
    body.same receipt = true ∧ body.render = receipt.render ∧ receipt.encode.all isBlankByte = false := by
  obtain ⟨filled, -, body, -, -, same, text, answers⟩ :=
    (bodies_of_responses receipt 201 none "" ⟨201, receipt.encode⟩).1 (by decide) (by decide)
  obtain ⟨request, decoded⟩ : ∃ request, Request.ofPayload receiptPayload = .ok request := ⟨_, rfl⟩
  exact ⟨body, answers receiptServer receiptPayload request [] 0 decoded rfl, same, text, filled⟩

/-- A whole number of one digit more than is read. -/
def longNumber : Json.Numeral where
  negative := false
  whole := List.replicate (Json.digitLimit + 1) '1'
  fraction := []
  exponent := none
  whole_ne := List.cons_ne_nil _ _
  whole_all := fun c mem => by rw [List.eq_of_mem_replicate mem]; rfl
  whole_lead := fun first => absurd (Option.some.inj first) (by decide)
  fraction_all := Json.Numeral.no_digits

/-- A server's answer with this number alone. -/
def longAnswer : Response := ⟨200, Text.encodeUtf8 longNumber.text⟩

/-- **A body can fail**: the bytes are no JSON that is read, and yet they do not become a text. -/
theorem longAnswer_fails : longAnswer.body = .error (.outside .value
    ("Exceeds the limit (4300 digits) for integer string conversion: value has 4301 digits; " ++
      "use sys.set_int_max_str_digits() to increase the limit")) := by
  have ones : longNumber.text = '1' :: List.replicate Json.digitLimit '1' := by
    rw [Json.Numeral.text, Json.Numeral.magnitudeText]
    exact (List.append_nil _).trans (List.append_nil _)
  have one : ∀ c ∈ longNumber.text, c = '1' := by
    rw [ones]
    exact fun c mem => List.eq_of_mem_replicate (n := Json.digitLimit + 1) mem
  have filled : longAnswer.content.all isBlankByte = false := by
    rw [longAnswer, ones]
    rfl
  have decoded : Text.decodeDetected longAnswer.content = .ok longNumber.text :=
    Text.decodeDetected_encodeUtf8 (fun c mem => by rw [one c mem]; decide)
      fun c first => by rw [one c (List.mem_of_head? first)]; decide
  have digits : longNumber.whole.length = Json.digitLimit + 1 := List.length_replicate
  have exceeds : longNumber.excess? Json.digitLimit = some Json.digitLimit := by
    rw [Json.Numeral.excess?, digits]
    rfl
  have read := Json.read_of_excess exceeds
  rw [digits] at read
  exact body_eq_error_iff.mpr ⟨filled, _, Json.digitLimit, Json.digitLimit + 1, decoded, read, rfl⟩

end Interaction

end Stepflow
