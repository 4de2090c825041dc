import Stepflow.Proofs.Json.Reading

/-!
# Stepflow.Proofs.Json.Unambiguity — a text has at most one syntax tree

The reader is a function, so two derivations of one text agree on where each value ends and on what it is read as.  What
reading forgets, repeated members and the spelling of numbers, is found by going down both trees at once.

* `Numeral.ext_text`: a literal says all of a numeral.
* `DerivesText.unique`: a text has at most one tree.
-/

namespace Stepflow.Json

/-! ## Numerals -/

theorem nil_stops : Stops [] := ⟨nofun, nofun⟩

theorem Exponent.ext_text {e e' : Exponent} (h : e.text = e'.text) : e = e' := by
  obtain ⟨letter, sign, digits, _, ne, all⟩ := e
  obtain ⟨letter', sign', digits', _, ne', all'⟩ := e'
  have begins : ∀ {ds : List Char}, ds ≠ [] → (∀ c ∈ ds, c.isDigit = true) → ∀ c ∈ ds.head?, c.isDigit = true := by
    intro ds ds_ne ds_all c hc
    exact ds_all c (List.mem_of_mem_head? hc)
  obtain ⟨rfl, tail⟩ : letter = letter' ∧ signText sign ++ digits = signText sign' ++ digits' := List.cons.inj h
  have read := readSign_append sign (begins ne all)
  rw [tail, readSign_append sign' (begins ne' all')] at read
  obtain rfl : digits' = digits := (Prod.mk.inj read).2
  have signs : signText sign = signText sign' := List.append_cancel_right tail
  obtain rfl : sign = sign' := by
    revert signs
    cases sign with
    | none => cases sign' with
      | none => exact fun _ => rfl
      | some b => cases b <;> exact fun eq => nomatch eq
    | some a => cases sign' with
      | none => cases a <;> exact fun eq => nomatch eq
      | some b => cases a <;> cases b <;> simp [signText]
  rfl

theorem exponentText_inj {e e' : Option Exponent} (h : Numeral.exponentText e = Numeral.exponentText e') : e = e' := by
  cases e with
  | none => cases e' with
    | none => rfl
    | some e' => cases h
  | some e => cases e' with
    | none => cases h
    | some e' => exact congrArg some (Exponent.ext_text h)

/-- **Two numerals with one literal are the same.** -/
theorem Numeral.ext_text {n m : Numeral} (h : n.text = m.text) : n = m := by
  have parts : ∀ n : Numeral, cutMinus n.text = (n.negative, n.magnitudeText) := by
    intro n
    obtain ⟨c, cs, eq, digit⟩ := n.magnitudeText_head []
    rw [List.append_nil] at eq
    unfold Numeral.text
    cases n.negative with
    | true => rfl
    | false =>
      rw [if_neg Bool.false_ne_true, List.nil_append, eq]
      exact cutMinus_of_digit digit cs
  have whole : ∀ n : Numeral, readWhole n.magnitudeText =
      some (n.whole, fractionText n.fraction ++ exponentText n.exponent) := by
    intro n
    have stop := nil_stops.fractionText n.fraction n.exponent
    rw [List.append_nil] at stop
    rw [magnitudeText, List.append_assoc]
    exact readWhole_append n.whole_ne n.whole_all n.whole_lead stop
  have fraction : ∀ n : Numeral, readFraction (fractionText n.fraction ++ exponentText n.exponent) =
      (n.fraction, exponentText n.exponent) := by
    intro n
    have stop := nil_stops.exponentText n.exponent
    rw [List.append_nil] at stop
    exact readFraction_append n.fraction_all stop.1 stop.2
  obtain ⟨negative_eq, magnitude_eq⟩ := Prod.mk.inj ((parts n).symm.trans ((congrArg cutMinus h).trans (parts m)))
  obtain ⟨whole_eq, rest_eq⟩ :=
    Prod.mk.inj (Option.some.inj ((whole n).symm.trans ((congrArg readWhole magnitude_eq).trans (whole m))))
  obtain ⟨fraction_eq, exponent_eq⟩ :=
    Prod.mk.inj ((fraction n).symm.trans ((congrArg readFraction rest_eq).trans (fraction m)))
  have exponents := exponentText_inj exponent_eq
  cases n
  cases m
  simp_all

/-! ## Where a derivation ends -/

/-- Two derivations of the front of one text end at one place and are read alike. -/
theorem Derives.ends {cs cs' : List Char} {f g : Form} (h : Derives cs f) (h' : Derives cs' g) {rest rest' : List Char}
    (stop : Stops rest) (stop' : Stops rest') (eq : cs ++ rest = cs' ++ rest') :
    cs = cs' ∧ f.pruned.datum = g.pruned.datum := by
  have read := readValue_of_derives h (2 * cs.length + 2 * cs'.length + 1) (by omega) rest stop f.within_none
  rw [eq, readValue_of_derives h' _ (by omega) rest' stop' g.within_none] at read
  obtain ⟨datum_eq, rfl⟩ := Prod.mk.inj (Except.ok.inj read)
  exact ⟨List.append_cancel_right eq, datum_eq.symm⟩

theorem DerivesElement.ends {cs cs' : List Char} {f g : Form} (h : DerivesElement cs f) (h' : DerivesElement cs' g)
    {rest rest' : List Char} (closes : Closes rest) (closes' : Closes rest') (eq : cs ++ rest = cs' ++ rest') :
    cs = cs' ∧ rest = rest' := by
  obtain ⟨more, read, behind⟩ :=
    readValue_of_element h (2 * cs.length + 2 * cs'.length + 1) (by omega) rest closes f.within_none
  obtain ⟨more', read', behind'⟩ :=
    readValue_of_element h' (2 * cs.length + 2 * cs'.length + 1) (by omega) rest' closes' g.within_none
  rw [eq, read'] at read
  obtain ⟨-, rfl⟩ := Prod.mk.inj (Except.ok.inj read)
  obtain rfl : rest = rest' := behind.symm.trans behind'
  exact ⟨List.append_cancel_right eq, rfl⟩

/-- The value of an element is found by skipping blanks. -/
theorem DerivesElement.value {cs : List Char} {f : Form} (h : DerivesElement cs f) :
    ∃ value after, Derives value f ∧ Blanks after ∧ skipBlanks cs = value ++ after := by
  cases h with
  | intro blanks derives blanks' =>
    refine ⟨_, _, derives, blanks', ?_⟩
    rw [List.append_assoc, skipBlanks_append blanks, derives.skipBlanks_eq]

/-- The parts of a member are found by reading its key. -/
theorem DerivesMember.parts {cs : List Char} {m : String × Form} (h : DerivesMember cs m) (rest : List Char) :
    ∃ inner colon element, skipBlanks (cs ++ rest) = '"' :: inner ∧ readText inner = .ok (m.1.toList, colon) ∧
      skipBlanks colon = ':' :: (element ++ rest) ∧ DerivesElement element m.2 := by
  cases h with
  | @intro before key after cs k f blanks hkey blanks' element =>
    obtain ⟨inner, begins, read⟩ := hkey.skipBlanks_eq (after ++ ':' :: (cs ++ rest))
    refine ⟨inner, after ++ ':' :: (cs ++ rest), cs, ?_, read, ?_, element⟩
    · simp only [List.append_assoc, List.cons_append]
      rw [skipBlanks_append blanks]
      exact begins
    · rw [skipBlanks_append blanks', skipBlanks_cons (by decide)]

theorem DerivesMember.ends {cs cs' : List Char} {m m' : String × Form} (h : DerivesMember cs m)
    (h' : DerivesMember cs' m') {rest rest' : List Char} (closes : Closes rest) (closes' : Closes rest')
    (eq : cs ++ rest = cs' ++ rest') :
    cs = cs' ∧ rest = rest' ∧ m.1 = m'.1 ∧ ∃ element, DerivesElement element m.2 ∧ DerivesElement element m'.2 := by
  obtain ⟨inner, colon, element, begins, read, colon_eq, derives⟩ := h.parts rest
  obtain ⟨inner', colon', element', begins', read', colon_eq', derives'⟩ := h'.parts rest'
  rw [eq, begins'] at begins
  obtain rfl : inner' = inner := (List.cons.inj begins).2
  rw [read'] at read
  obtain ⟨key_eq, rfl⟩ := Prod.mk.inj (Except.ok.inj read)
  rw [colon_eq'] at colon_eq
  obtain ⟨rfl, rfl⟩ := derives.ends derives' closes closes' (List.cons.inj colon_eq).2.symm
  exact ⟨List.append_cancel_right eq, rfl, String.toList_injective key_eq.symm, element, derives, derives'⟩

theorem closes_comma (rest : List Char) : Closes (',' :: rest) := by simp [Closes]

theorem closes_nil : Closes [] := nofun

/-! ## One tree -/

theorem derives_array {cs : List Char} {items : List Form} (h : Derives cs (.array items)) :
    ∃ inner, cs = '[' :: inner ++ [']'] ∧ (items = [] ∧ Blanks inner ∨ DerivesItems inner items) := by
  cases h with
  | emptyArray blanks => exact ⟨_, rfl, .inl ⟨rfl, blanks⟩⟩
  | array derives => exact ⟨_, rfl, .inr derives⟩

theorem derives_object {cs : List Char} {members : List (String × Form)} (h : Derives cs (.object members)) :
    ∃ inner, cs = '\x7b' :: inner ++ ['\x7d'] ∧ (members = [] ∧ Blanks inner ∨ DerivesMembers inner members) := by
  cases h with
  | emptyObject blanks => exact ⟨_, rfl, .inl ⟨rfl, blanks⟩⟩
  | object derives => exact ⟨_, rfl, .inr derives⟩

theorem DerivesItems.not_blanks {cs : List Char} {items : List Form} (h : DerivesItems cs items) : ¬ Blanks cs := by
  intro blanks
  obtain ⟨c, more, eq, -⟩ := h.skipBlanks_eq []
  rw [List.append_nil, skipBlanks_of_blanks blanks] at eq
  cases eq

theorem DerivesMembers.not_blanks {cs : List Char} {members : List (String × Form)} (h : DerivesMembers cs members) :
    ¬ Blanks cs := by
  intro blanks
  obtain ⟨inner, eq⟩ := h.skipBlanks_eq []
  rw [List.append_nil, skipBlanks_of_blanks blanks] at eq
  cases eq

/-- The kind of values that a tree denotes. -/
def Form.kind : Form → Kind
  | .null => .null
  | .bool _ => .boolean
  | .numeral _ => .number
  | .text _ => .string
  | .array _ => .array
  | .object _ => .object

/-- The kind of what is read. -/
def kindOf : Datum → Option Kind
  | .null => some .null
  | .bool _ => some .boolean
  | .int _ | .float _ => some .number
  | .text _ => some .string
  | .list _ => some .array
  | .table _ => some .object
  | _ => none

theorem kindOf_datum (f : Form) : kindOf f.pruned.datum = some f.kind := by
  cases f with
  | numeral n =>
    show kindOf n.datum = some .number
    unfold Numeral.datum
    split <;> rfl
  | _ => rfl

theorem derives_numeral {cs : List Char} {n : Numeral} (h : Derives cs (.numeral n)) : cs = n.text := by
  cases h
  rfl

/-- Two elements of one text have one value. -/
theorem DerivesElement.values {cs : List Char} {f g : Form} (h : DerivesElement cs f) (h' : DerivesElement cs g) :
    ∃ value, Derives value f ∧ Derives value g := by
  obtain ⟨value, after, derives, blanks, eq⟩ := h.value
  obtain ⟨value', after', derives', blanks', eq'⟩ := h'.value
  obtain ⟨rfl, -⟩ := derives.ends derives' (closes_nil.stops_append blanks) (closes_nil.stops_append blanks')
    (by rw [List.append_nil, List.append_nil, ← eq, eq'])
  exact ⟨value, derives, derives'⟩

/-- What stands behind the first of several parts: nothing if it is the last, a comma and the others if not. -/
inductive Behind {α : Type} (derives : List Char → List α → Prop) : List Char → List α → Prop
  | last : Behind derives [] []
  | more {rest : List Char} {others : List α} : derives rest others → Behind derives (',' :: rest) others

namespace Behind

variable {α : Type} {derives : List Char → List α → Prop} {others : List α}

theorem closes {tail : List Char} (h : Behind derives tail others) : Closes tail := by
  cases h with
  | last => exact closes_nil
  | more _ => exact closes_comma _

theorem nil (h : Behind derives [] others) : others = [] := by
  cases h
  rfl

theorem cons {c : Char} {rest : List Char} (h : Behind derives (c :: rest) others) : c = ',' ∧ derives rest others := by
  cases h with
  | more others => exact ⟨rfl, others⟩

end Behind

theorem DerivesItems.first {cs : List Char} {f : Form} {items : List Form} (h : DerivesItems cs (f :: items)) :
    ∃ first tail, cs = first ++ tail ∧ DerivesElement first f ∧ Behind DerivesItems tail items := by
  cases h with
  | last element => exact ⟨cs, [], (List.append_nil cs).symm, element, .last⟩
  | more element others => exact ⟨_, _, rfl, element, .more others⟩

theorem DerivesMembers.first {cs : List Char} {m : String × Form} {members : List (String × Form)}
    (h : DerivesMembers cs (m :: members)) :
    ∃ first tail, cs = first ++ tail ∧ DerivesMember first m ∧ Behind DerivesMembers tail members := by
  cases h with
  | last member => exact ⟨cs, [], (List.append_nil cs).symm, member, .last⟩
  | more member others => exact ⟨_, _, rfl, member, .more others⟩

/-- Between brackets stand blanks or members, not both; so the members are unique if they are as members. -/
theorem eq_of_enclosed {α : Type} {derives : List Char → List α → Prop} {inner : List Char} {xs ys : List α}
    (hx : (xs = [] ∧ Blanks inner) ∨ derives inner xs) (hy : (ys = [] ∧ Blanks inner) ∨ derives inner ys)
    (not_blanks : ∀ {zs}, derives inner zs → ¬ Blanks inner)
    (unique : derives inner xs → derives inner ys → xs = ys) : xs = ys := by
  rcases hx with ⟨rfl, blanks⟩ | hx
  · rcases hy with ⟨rfl, -⟩ | hy
    · rfl
    · exact absurd blanks (not_blanks hy)
  · rcases hy with ⟨-, blanks⟩ | hy
    · exact absurd blanks (not_blanks hx)
    · exact unique hx hy

mutual

theorem Derives.unique {cs : List Char} {f g : Form} (h : Derives cs f) (h' : Derives cs g) : f = g := by
  have read : f.pruned.datum = g.pruned.datum := (h.ends h' nil_stops nil_stops rfl).2
  -- two trees of a text are read alike, so they are of one kind; a number is told by its text
  have kind : f.kind = g.kind := by
    rw [← Option.some_inj, ← kindOf_datum, ← kindOf_datum, read]
  cases f with
  | null => cases g with
    | null => rfl
    | _ => cases kind
  | bool a => cases g with
    | bool b => exact congrArg Form.bool (Datum.bool.inj read)
    | _ => cases kind
  | numeral n => cases g with
    | numeral m => exact congrArg Form.numeral (Numeral.ext_text ((derives_numeral h).symm.trans (derives_numeral h')))
    | _ => cases kind
  | text s => cases g with
    | text t => exact congrArg Form.text (Datum.text.inj read)
    | _ => cases kind
  | array items => cases g with
    | array items' =>
      obtain ⟨inner, rfl, derives⟩ := derives_array h
      obtain ⟨inner', eq, derives'⟩ := derives_array h'
      obtain rfl : inner = inner' := List.append_cancel_right (List.cons.inj eq).2
      exact congrArg Form.array
        (eq_of_enclosed derives derives' DerivesItems.not_blanks fun h h' => DerivesItems.unique h h')
    | _ => cases kind
  | object members => cases g with
    | object members' =>
      obtain ⟨inner, rfl, derives⟩ := derives_object h
      obtain ⟨inner', eq, derives'⟩ := derives_object h'
      obtain rfl : inner = inner' := List.append_cancel_right (List.cons.inj eq).2
      exact congrArg Form.object
        (eq_of_enclosed derives derives' DerivesMembers.not_blanks fun h h' => DerivesMembers.unique h h')
    | _ => cases kind
termination_by structural f

theorem DerivesItems.unique {cs : List Char} {items items' : List Form} (h : DerivesItems cs items)
    (h' : DerivesItems cs items') : items = items' := by
  cases items with
  | nil => cases h
  | cons f items =>
    cases items' with
    | nil => cases h'
    | cons g items' =>
      obtain ⟨first, tail, rfl, element, behind⟩ := h.first
      obtain ⟨first', tail', eq, element', behind'⟩ := h'.first
      -- the first elements end at the same place, since a closing sign or a comma follows
      obtain ⟨rfl, rfl⟩ := element.ends element' behind.closes behind'.closes eq
      obtain ⟨value, derives, derives'⟩ := element.values element'
      rw [Derives.unique derives derives']
      cases tail with
      | nil =>
        obtain rfl := behind.nil
        obtain rfl := behind'.nil
        rfl
      | cons c rest =>
        obtain ⟨-, others⟩ := behind.cons
        obtain ⟨-, others'⟩ := behind'.cons
        rw [DerivesItems.unique others others']
termination_by structural items

theorem DerivesMembers.unique {cs : List Char} {members members' : List (String × Form)} (h : DerivesMembers cs members)
    (h' : DerivesMembers cs members') : members = members' := by
  cases members with
  | nil => cases h
  | cons m members =>
    cases members' with
    | nil => cases h'
    | cons m' members' =>
      obtain ⟨first, tail, rfl, member, behind⟩ := h.first
      obtain ⟨first', tail', eq, member', behind'⟩ := h'.first
      obtain ⟨rfl, rfl, key, cs, element, element'⟩ := member.ends member' behind.closes behind'.closes eq
      obtain ⟨value, derives, derives'⟩ := element.values element'
      have same : m = m' := Prod.ext key (Derives.unique derives derives')
      rw [same]
      cases tail with
      | nil =>
        obtain rfl := behind.nil
        obtain rfl := behind'.nil
        rfl
      | cons c rest =>
        obtain ⟨-, others⟩ := behind.cons
        obtain ⟨-, others'⟩ := behind'.cons
        rw [DerivesMembers.unique others others']
termination_by structural members

end

/-- **A text has at most one syntax tree.** -/
theorem DerivesText.unique {cs : List Char} {f g : Form} (h : DerivesText cs f) (h' : DerivesText cs g) : f = g := by
  obtain ⟨value, derives, derives'⟩ := h.values h'
  exact derives.unique derives'

end Stepflow.Json
