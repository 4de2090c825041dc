import Stepflow.Proofs.Json.Unambiguity
import Stepflow.Proofs.Number.Value
import Stepflow.Proofs.Routes
import Stepflow.Value.Access

/-!
# Stepflow.Proofs.Navigation — reaching into a value is reaching into its plain data

A chain of links, each a key or an index, is followed in a value and, apart from that, in plain data, where `Leads` says
to which part a link leads and `Walks` to which route and node a chain does.

* `Value.take_of_leads`, `Value.take_of_not_leads`: one link, where it leads somewhere and where it does not.
* `Value.follow_of_walks`, `Value.follow_of_not_walks`: a chain.
* `Value.project_of_yields`, `Value.project_of_not_yields`: a projection.
* `Value.navigation`: all of this together.
-/

namespace Stepflow

/-! ## Links -/

/-- A link of a chain: a mandatory field, or what stands under a key or an index in brackets.  A truth value in brackets
is an index too. -/
inductive Link where
  | require (key : String)
  | key (key : String)
  | index (i : Int)
  | flag (b : Bool)

namespace Value

/-- Take one link. -/
def take (v : Value) : Link → Except Failure Value
  | .require k => v.require k
  | .key k => v.pick (.text k)
  | .index i => v.pick (.int i)
  | .flag b => v.pick (.bool b)

/-- Take the links of a chain in order. -/
def follow (v : Value) : List Link → Except Failure Value
  | [] => .ok v
  | link :: links => v.take link >>= fun w => w.follow links

end Value

/-- Where a link points in a node of its kind: under its key, or at a position that is its index, counted from the start
or from the end. -/
inductive Points : Datum → Link → Place → Prop where
  | require (entries : List (Datum × Datum)) (k : String) : Points (.table entries) (.require k) (.field k)
  | key (entries : List (Datum × Datum)) (k : String) : Points (.table entries) (.key k) (.field k)
  | index {items : List Datum} {i : Int} {j : Nat} (here : (j : Int) = i ∨ (j : Int) = i + items.length) :
      Points (.list items) (.index i) (.item j)
  | flag (items : List Datum) (b : Bool) : Points (.list items) (.flag b) (.item b.toNat)

/-- The part of plain data to which a link leads, and its place. -/
def Leads (d : Datum) (link : Link) (place : Place) (part : Datum) : Prop :=
  Points d link place ∧ d.child? place = some part

/-- The node of plain data to which a chain leads, and its route. -/
inductive Walks : Datum → List Link → List Place → Datum → Prop where
  | nil (d : Datum) : Walks d [] [] d
  | cons {d part goal : Datum} {link : Link} {links : List Link} {place : Place} {route : List Place}
      (first : Leads d link place part) (others : Walks part links route goal) :
      Walks d (link :: links) (place :: route) goal

/-- The name of the kind of plain data. -/
def Datum.kindName? (d : Datum) : Option String := (Json.kindOf d).map Kind.name

/-- The failure for a field that the plain data at `path` do not have. -/
def fieldFault (path k : String) : Datum → Failure
  | .table _ => .decode ("field '" ++ k ++ "'") (some "nothing") path
  | d => .decode Kind.object.name d.kindName? path

/-- The failure for an index, shown as given, that the plain data at `path` do not have. -/
def itemFault (path shown : String) : Datum → Failure
  | .list items => .decode ("index " ++ shown) (some ("array of length " ++ toString items.length)) path
  | d => .decode Kind.array.name d.kindName? path

/-- The failure for a link that leads nowhere from the plain data at `path`. -/
def Link.fault (path : String) : Link → Datum → Failure
  | .require k | .key k => fieldFault path k
  | .index i => itemFault path (toString i)
  | .flag b => itemFault path (if b then "True" else "False")

namespace Value

/-- A text in brackets is a mandatory field. -/
theorem pick_text (v : Value) (k : String) : v.pick (.text k) = v.require k := by
  change v.requireBy (.text k) = v.require k
  rw [requireBy, require, getBy?, get?]
  cases v.asObject <;> rfl

/-- **The position of an index**: the index itself, or counted from the end, within the sequence. -/
theorem position?_eq_some_iff {i : Int} {n j : Nat} :
    position? i n = some j ↔ j < n ∧ ((j : Int) = i ∨ (j : Int) = i + n) := by
  have within : ∀ k : Int, (if 0 ≤ k ∧ k < n then some k.toNat else none) = some j ↔ j < n ∧ (j : Int) = k := by
    intro k
    by_cases inside : 0 ≤ k ∧ k < n
    · rw [if_pos inside, Option.some_inj]
      omega
    · rw [if_neg inside]
      simp only [reduceCtorEq, false_iff]
      omega
  refine (within _).trans ?_
  by_cases negative : i < 0
  · rw [if_pos negative]
    omega
  · rw [if_neg negative]
    omega

theorem require_of_child? {v w : Value} {k : String} (found : v.child? (.field k) = some w) : v.require k = .ok w := by
  obtain ⟨fields, view, here⟩ := Option.bind_eq_some_iff.mp found
  simp only [require, get?, asObject, view, bind, Except.bind, pure, Except.pure, here]

theorem require_of_absent {v : Value} {k : String} (absent : v.child? (.field k) = none) :
    v.require k = .error (fieldFault v.path k v.toDatum) := by
  cases view : v.fields? with
  | none =>
    obtain ⟨path, j, distinct⟩ := v
    cases j with
    | object => cases view
    | number n => cases n <;> rfl
    | _ => rfl
  | some fields =>
    rw [child?, view] at absent
    have none_here : fields.get? k = none := absent
    simp only [require, get?, asObject, view, bind, Except.bind, pure, Except.pure, none_here, toDatum_of_fields? view]
    rfl

theorem item_of_child? {v w : Value} {i : Int} {j : Nat} {items : List Datum} (plain : v.toDatum = .list items)
    (position : position? i items.length = some j) (found : v.child? (.item j) = some w) (shown : String) :
    v.item i shown = .ok w := by
  obtain ⟨ws, view, here⟩ := Option.bind_eq_some_iff.mp found
  have lengths : items.length = ws.length := by
    rw [Datum.list.inj (plain.symm.trans (toDatum_of_items? view)), List.length_map]
  rw [lengths] at position
  simp only [item, asArray, view, bind, Except.bind, position, Option.bind_some, here, pure, Except.pure]

theorem item_of_absent {v : Value} {i : Int}
    (absent : ∀ items j, v.toDatum = .list items → position? i items.length = some j → v.child? (.item j) = none)
    (shown : String) : v.item i shown = .error (itemFault v.path shown v.toDatum) := by
  cases view : v.items? with
  | none =>
    obtain ⟨path, j, distinct⟩ := v
    cases j with
    | array => cases view
    | number n => cases n <;> rfl
    | _ => rfl
  | some ws =>
    have none_here : (position? i ws.length).bind (ws[·]?) = none := by
      refine Option.bind_eq_none_iff.mpr fun j position => ?_
      have gone := absent _ j (toDatum_of_items? view) (by rwa [List.length_map])
      rwa [child?, view] at gone
    rw [toDatum_of_items? view, itemFault, List.length_map]
    simp only [item, asArray, view, bind, Except.bind, none_here]
    rfl

/-- **Where a link leads in the plain data, it leads in the value.** -/
theorem take_of_leads {v : Value} {link : Link} {place : Place} {part : Datum}
    (leads : Leads v.toDatum link place part) :
    ∃ w, v.take link = .ok w ∧ v.child? place = some w ∧ w.toDatum = part := by
  obtain ⟨points, there⟩ := leads
  have both := there
  rw [← toDatum_child?] at both
  obtain ⟨w, found, plain⟩ := Option.map_eq_some_iff.mp both
  refine ⟨w, ?_, found, plain⟩
  generalize data : v.toDatum = d at points there
  cases points with
  | require entries k => exact require_of_child? found
  | key entries k => exact (pick_text v k).trans (require_of_child? found)
  | @index items i j here =>
    obtain ⟨inside, -⟩ := List.getElem?_eq_some_iff.mp there
    exact item_of_child? data (position?_eq_some_iff.mpr ⟨inside, here⟩) found _
  | flag items b =>
    obtain ⟨inside, -⟩ := List.getElem?_eq_some_iff.mp there
    refine item_of_child? data (position?_eq_some_iff.mpr ⟨inside, .inl ?_⟩) found _
    cases b <;> rfl

/-- **Where a link leads nowhere in the plain data**, it fails with the path of the node and says what is missing. -/
theorem take_of_not_leads {v : Value} {link : Link} (astray : ∀ place part, ¬ Leads v.toDatum link place part) :
    v.take link = .error (link.fault v.path v.toDatum) := by
  have absent : ∀ {place}, Points v.toDatum link place → v.child? place = none := by
    intro place points
    refine Option.eq_none_iff_forall_ne_some.mpr fun w found => astray place w.toDatum ⟨points, ?_⟩
    rw [← toDatum_child?, found, Option.map_some]
  have no_field : ∀ {k}, (∀ entries, Points (.table entries) link (.field k)) → v.child? (.field k) = none := by
    intro k points
    refine Option.eq_none_iff_forall_ne_some.mpr fun w found => ?_
    obtain ⟨fields, view, -⟩ := Option.bind_eq_some_iff.mp found
    have here := points (fields.entries.map fun e => (.text e.1, e.2.toDatum))
    rw [← toDatum_of_fields? view] at here
    cases (absent here).symm.trans found
  cases link with
  | require k => exact require_of_absent (no_field fun entries => .require entries k)
  | key k => exact (pick_text v k).trans (require_of_absent (no_field fun entries => .key entries k))
  | index i =>
    refine item_of_absent (fun items j plain position => absent ?_) _
    rw [plain]
    exact .index (position?_eq_some_iff.mp position).2
  | flag b =>
    refine item_of_absent (fun items j plain position => absent ?_) _
    obtain ⟨inside, here⟩ := position?_eq_some_iff.mp position
    have counted : j = b.toNat := by cases b <;> simp at here ⊢ <;> omega
    rw [plain, counted]
    exact .flag items b

/-! ## Chains -/

/-- **A chain that leads somewhere in the plain data** leads to the node at the end of the same route. -/
theorem follow_of_walks {v : Value} {links : List Link} {route : List Place} {goal : Datum}
    (walks : Walks v.toDatum links route goal) :
    ∃ w, v.follow links = .ok w ∧ v.at? route = some w ∧ w.toDatum = goal := by
  generalize data : v.toDatum = d at walks
  induction walks generalizing v with
  | nil d => exact ⟨v, rfl, rfl, data⟩
  | cons first others ih =>
    rw [← data] at first
    obtain ⟨part, taken, here, plain⟩ := take_of_leads first
    obtain ⟨w, followed, below, goal_eq⟩ := ih plain
    refine ⟨w, ?_, ?_, goal_eq⟩
    · rw [follow, taken]
      exact followed
    · rw [at?, here]
      exact below

/-- **A chain that leads nowhere in the plain data** fails at its first link that does not, with the path of the node
reached until then. -/
theorem follow_of_not_walks {v : Value} {links : List Link}
    (astray : ∀ route goal, ¬ Walks v.toDatum links route goal) :
    ∃ before link after route d, links = before ++ link :: after ∧ Walks v.toDatum before route d ∧
      (∀ place part, ¬ Leads d link place part) ∧ v.follow links = .error (link.fault (pathAlong v.path route) d) := by
  induction links generalizing v with
  | nil => exact absurd (.nil v.toDatum) (astray [] v.toDatum)
  | cons link links ih =>
    by_cases leads : ∃ place part, Leads v.toDatum link place part
    · obtain ⟨place, part, first⟩ := leads
      obtain ⟨w, taken, here, rfl⟩ := take_of_leads first
      obtain ⟨before, stop, after, route, d, rfl, walks, nowhere, failed⟩ :=
        ih fun route goal others => astray _ _ (.cons first others)
      refine ⟨link :: before, stop, after, place :: route, d, rfl, .cons first walks, nowhere, ?_⟩
      rw [follow, taken]
      change w.follow _ = _
      rw [failed, path_of_child? here]
      rfl
    · have nowhere : ∀ place part, ¬ Leads v.toDatum link place part := fun place part first =>
        leads ⟨place, part, first⟩
      refine ⟨[], link, links, [], v.toDatum, rfl, .nil _, nowhere, ?_⟩
      rw [follow, take_of_not_leads nowhere]
      rfl

end Value

/-! ## Projections -/

/-- The projections of a value. -/
inductive Projection where
  | bool
  | number
  | int
  | text
  | array
  | object

/-- What projections give. -/
inductive Projected where
  | bool (b : Bool)
  | number (n : Number)
  | int (i : Int)
  | text (s : String)
  | array (items : List Value)
  | object (fields : Fields Value)

namespace Projected

/-- The plain data of what a projection gave. -/
def toDatum : Projected → Datum
  | .bool b => .bool b
  | .number n => .ofNumber n
  | .int i => .int i
  | .text s => .text s
  | .array items => .list (items.map Value.toDatum)
  | .object fields => .table (fields.entries.map fun e => (.text e.1, e.2.toDatum))

/-- The value at a place of what a projection gave. -/
def child? : Projected → Place → Option Value
  | .array items, .item i => items[i]?
  | .object fields, .field k => fields.get? k
  | _, _ => none

end Projected

/-- Project a value. -/
def Value.project (v : Value) : Projection → Except Failure Projected
  | .bool => v.asBool.map .bool
  | .number => v.asNumber.map .number
  | .int => v.asInt.map .int
  | .text => v.asText.map .text
  | .array => v.asArray.map .array
  | .object => v.asObject.map .object

/-- Follow a chain and project the value to which it leads. -/
def Value.navigate (v : Value) (links : List Link) (p : Projection) : Except Failure Projected :=
  v.follow links >>= fun w => w.project p

/-- What a projection of plain data gives: the data themselves, if they are of its kind, and as a whole number the one
with their exact value. -/
inductive Yields : Datum → Projection → Datum → Prop where
  | bool (b : Bool) : Yields (.bool b) .bool (.bool b)
  | whole (n : Int) : Yields (.int n) .number (.int n)
  | double (d : Double) : Yields (.float (.finite d)) .number (.float (.finite d))
  | int (n : Int) : Yields (.int n) .int (.int n)
  | integral {d : Double} {i : Int} (exact : d.value = i) : Yields (.float (.finite d)) .int (.int i)
  | text (s : String) : Yields (.text s) .text (.text s)
  | array (items : List Datum) : Yields (.list items) .array (.list items)
  | object (entries : List (Datum × Datum)) : Yields (.table entries) .object (.table entries)

/-- The kind of what can be projected. -/
def Projection.kind : Projection → Kind
  | .bool => .boolean
  | .number | .int => .number
  | .text => .string
  | .array => .array
  | .object => .object

/-- The failure of a projection of the plain data at `path`. -/
def Projection.fault (path : String) : Projection → Datum → Failure
  | .int, .float x => .decode "integer" (some x.text) path
  | p, d => .decode p.kind.name d.kindName? path

namespace Value

theorem project_int {path : String} {n : Number} {distinct : (Json.number n).Distinct} :
    project ⟨path, .number n, distinct⟩ .int = match n.toInt? with
      | some i => .ok (.int i)
      | none => .error (.decode "integer" (some n.text) path) := by
  simp only [project, asInt, asNumber, bind, Except.bind]
  cases n.toInt? <;> rfl

/-- **A projection that the plain data allow** gives the same, with the parts of the value as its parts. -/
theorem project_of_yields {v : Value} {p : Projection} {plain : Datum} (yields : Yields v.toDatum p plain) :
    ∃ r, v.project p = .ok r ∧ r.toDatum = plain ∧
      ∀ place part, r.child? place = some part → v.child? place = some part := by
  obtain ⟨path, j, distinct⟩ := v
  cases j with
  | null => cases yields
  | bool b =>
    cases yields
    exact ⟨.bool b, rfl, rfl, nofun⟩
  | number n =>
    cases n with
    | int i =>
      cases yields with
      | whole => exact ⟨.number (.int i), rfl, rfl, nofun⟩
      | int => exact ⟨.int i, rfl, rfl, nofun⟩
    | double d =>
      cases yields with
      | double => exact ⟨.number (.double d), rfl, rfl, nofun⟩
      -- a double is projected to a whole number exactly if it is one
      | @integral _ i exact =>
        have found : (Number.double d).toInt? = some i := Number.toInt?_eq_some_iff.mpr exact
        refine ⟨.int i, ?_, rfl, nofun⟩
        rw [project_int, found]
  | text s =>
    cases yields
    exact ⟨.text s, rfl, rfl, nofun⟩
  | array items =>
    cases yields
    obtain ⟨ws, view⟩ : ∃ ws, items? ⟨path, .array items, distinct⟩ = some ws := ⟨_, rfl⟩
    refine ⟨.array ws, ?_, (toDatum_of_items? view).symm, ?_⟩
    · rw [project, asArray, view]
      rfl
    · rintro (k | i) part here
      · cases here
      · rw [child?, view]
        exact here
  | object fields =>
    cases yields
    obtain ⟨ws, view⟩ : ∃ ws, fields? ⟨path, .object fields, distinct⟩ = some ws := ⟨_, rfl⟩
    refine ⟨.object ws, ?_, (toDatum_of_fields? view).symm, ?_⟩
    · rw [project, asObject, view]
      rfl
    · rintro (k | i) part here
      · rw [child?, view]
        exact here
      · cases here

/-- **A projection that the plain data do not allow** fails with the path of the node, and says what was expected and
what is there. -/
theorem project_of_not_yields {v : Value} {p : Projection} (refused : ∀ plain, ¬ Yields v.toDatum p plain) :
    v.project p = .error (p.fault v.path v.toDatum) := by
  obtain ⟨path, j, distinct⟩ := v
  cases j with
  | null => cases p <;> rfl
  | bool b => cases p with
    | bool => exact absurd (.bool b) (refused _)
    | _ => rfl
  | number n => cases n with
    | int i => cases p with
      | number => exact absurd (.whole i) (refused _)
      | int => exact absurd (.int i) (refused _)
      | _ => rfl
    | double d => cases p with
      | number => exact absurd (.double d) (refused _)
      | int =>
        have broken : (Number.double d).toInt? = none :=
          Option.eq_none_iff_forall_ne_some.mpr fun i found =>
            refused (.int i) (.integral (Number.toInt?_eq_some_iff.mp found))
        rw [project_int, broken]
        rfl
      | _ => rfl
  | text s => cases p with
    | text => exact absurd (.text s) (refused _)
    | _ => rfl
  | array items => cases p with
    | array => exact absurd (.array _) (refused _)
    | _ => rfl
  | object fields => cases p with
    | object => exact absurd (.object _) (refused _)
    | _ => rfl

end Value

/-! ## Navigation -/

/-- A chain that leads to a node of the plain data of a value leads to the node of the value with these data and with
the route of the chain behind the path; a projection then succeeds exactly if the data allow it, with what they yield,
and else fails with that path.  Any other chain fails, whatever projection was to follow, at its first link that leads
nowhere, with the path of the node reached until then. -/
theorem Value.navigation (v : Value) (links : List Link) :
    (∀ route d, Walks v.toDatum links route d → ∃ w, v.follow links = .ok w ∧ w.toDatum = d ∧
      w.path = pathAlong v.path route ∧
      ∀ p, (∀ plain, Yields d p plain → ∃ r, v.navigate links p = .ok r ∧ r.toDatum = plain ∧
          ∀ place part, r.child? place = some part → part.path = place.below w.path) ∧
        ((∀ plain, ¬ Yields d p plain) → v.navigate links p = .error (p.fault w.path d))) ∧
    ((∀ route d, ¬ Walks v.toDatum links route d) → ∃ before link after route d, links = before ++ link :: after ∧
      Walks v.toDatum before route d ∧ (∀ place part, ¬ Leads d link place part) ∧
      v.follow links = .error (link.fault (pathAlong v.path route) d) ∧
      ∀ p, v.navigate links p = .error (link.fault (pathAlong v.path route) d)) := by
  constructor
  · intro route d walks
    obtain ⟨w, followed, there, rfl⟩ := follow_of_walks walks
    have projected : ∀ p, v.navigate links p = w.project p := by
      intro p
      rw [navigate, followed]
      rfl
    refine ⟨w, followed, rfl, path_of_at? there, fun p => ⟨fun plain yields => ?_, fun refused => ?_⟩⟩
    · obtain ⟨r, success, plain_eq, parts⟩ := project_of_yields yields
      refine ⟨r, (projected p).trans success, plain_eq, fun place part here => ?_⟩
      exact path_of_child? (parts place part here)
    · exact (projected p).trans (project_of_not_yields refused)
  · intro astray
    obtain ⟨before, link, after, route, d, split, walks, nowhere, failed⟩ := follow_of_not_walks astray
    refine ⟨before, link, after, route, d, split, walks, nowhere, failed, fun p => ?_⟩
    rw [navigate, failed]
    rfl

/-- A till with a sum that has been paid. -/
def till : Value :=
  .object "$.till" (.ofList [("sums", .array "$" [.null,
    .object "$" (.ofList [("paid", .number "$" (.double .one))])])])

/-- To the paid sum, counted from the end. -/
def toPaid : List Link := [.require "sums", .index (-1), .key "paid"]

/-- Beyond the start. -/
def toNothing : List Link := [.key "sums", .index (-3), .key "paid"]

theorem till_navigation :
    (∃ w, till.follow toPaid = .ok w ∧ w.path = "$.till.sums[1].paid" ∧
      ∃ r, till.navigate toPaid .int = .ok r ∧ r.toDatum = .int 1) ∧
    ∃ before link after route d, toNothing = before ++ link :: after ∧ Walks till.toDatum before route d ∧
      (∀ place part, ¬ Leads d link place part) ∧
      .decode "index -3" (some "array of length 2") "$.till.sums" = link.fault (pathAlong till.path route) d := by
  have one : Double.one.value = (1 : Int) :=
    Number.toInt?_eq_some_iff.mp (show (Number.double .one).toInt? = some 1 by decide +kernel)
  constructor
  · have walks : Walks till.toDatum toPaid [.field "sums", .item 1, .field "paid"] (.float (.finite .one)) :=
      .cons ⟨.require _ _, rfl⟩ (.cons ⟨.index (.inr rfl), rfl⟩ (.cons ⟨.key _ _, rfl⟩ (.nil _)))
    obtain ⟨w, followed, -, path_eq, projections⟩ := (Value.navigation till toPaid).1 _ _ walks
    obtain ⟨r, projected, plain, -⟩ := (projections .int).1 (.int 1) (.integral one)
    exact ⟨w, followed, path_eq.trans (by decide +kernel), r, projected, plain⟩
  · obtain ⟨reached, stopped⟩ := Value.navigation till toNothing
    have astray : ∀ route d, ¬ Walks till.toDatum toNothing route d := by
      intro route d walks
      obtain ⟨w, followed, -⟩ := reached route d walks
      cases followed
    obtain ⟨before, link, after, route, d, split, walks, nowhere, failed, -⟩ := stopped astray
    exact ⟨before, link, after, route, d, split, walks, nowhere, Except.error.inj failed⟩

end Stepflow
