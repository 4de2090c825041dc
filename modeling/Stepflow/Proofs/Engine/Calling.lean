import Mathlib.Data.List.Nodup
import Stepflow.Proofs.Engine.Dispatching
import Stepflow.Proofs.Engine.Threading

/-!
# Stepflow.Proofs.Engine.Calling — for which steps resolvers are called, and when

* `begunIn`: the steps of an execution for which resolvers were called, in the order of the calls.
* `Invokes`: how they go with the history.  A step that was handled has been called for, one that was skipped has not, and
  the stage of the task tells whether the step after the recorded ones has.
* `Invoking`: what a move does to calls and history; `Invokes.moved`, `Invokes.begun` and `Invokes.aside` keep `Invokes`
  when the execution moves, when its detached call begins, and when something else happens.
* `Outline.running_of_begun`: a call begins for the step after the recorded ones of an execution that runs.
* `calls_of_reachable`: what this comes to for the calls of an execution, now and in the next act.
-/

namespace Stepflow

/-! ## Calls and records -/

/-- The steps of execution number `x` for which resolvers were called, in the order of the calls. -/
def begunIn (calls : List CallNote) (x : Nat) : List Nat :=
  calls.filterMap fun
    | .begun y i .. => if y = x then some i else none
    | .ended .. => none

/-- A resolver has dealt with the step, or has been left to. -/
def StepRecord.Attempted (r : StepRecord) : Prop :=
  r.status = .succeeded ∨ r.status = .recovered ∨ r.status = .dispatched

/-- The task has not turned to the step after the recorded ones. -/
def Unmet : Life Stage → Prop
  | .live .opening _ | .live .admitted _ | .live (.reaching _) _ => True
  | _ => False

/-- The task has turned to the step after the recorded ones, and unless a detached call for it has yet to begin, a resolver
has been called. -/
def Met : Life Stage → Prop
  | .live (.calling ..) _ | .live (.holding ..) _ => True
  | .live (.handled _ _ status _) interrupted => status = .dispatched → interrupted = false
  | _ => False

/-- The calls for the steps of an execution go with its history; `detaches` tells whether a detached call for it has not
begun. -/
structure Invokes (calls : List CallNote) (x : Nat) (c : Course) (detaches : Prop) : Prop where
  increasing : (begunIn calls x).Pairwise (· < ·)
  le : ∀ i ∈ begunIn calls x, i ≤ c.execution.history.length
  attempted : ∀ r ∈ c.execution.history, r.Attempted → r.index ∈ begunIn calls x
  skipped : ∀ r ∈ c.execution.history, r.status = .skipped → r.index ∉ begunIn calls x
  unmet : Unmet c.life ∨ detaches → c.execution.history.length ∉ begunIn calls x
  met : Met c.life → ¬ detaches → c.execution.history.length ∈ begunIn calls x

/-- What a move does to the calls and the history of an execution. -/
inductive Invoking (x : Nat) (c : Course) (eff : Effect) : Prop
  | quiet (history : eff.execution.history = c.execution.history) (begun : begunIn eff.notes x = [])
      (unmet : Unmet (Engine.lifeAfter eff.move) ∨ eff.dispatched.isSome = true → Unmet c.life)
      (met : Met (Engine.lifeAfter eff.move) → eff.dispatched.isSome = false → Met c.life)
  | called (history : eff.execution.history = c.execution.history) (unmet : Unmet c.life)
      (begun : begunIn eff.notes x = [c.execution.history.length]) (attached : eff.dispatched = none)
      (after : ¬ Unmet (Engine.lifeAfter eff.move))
  | recorded {r : StepRecord} (history : eff.execution.history = c.execution.history ++ [r])
      (index : r.index = c.execution.history.length) (begun : begunIn eff.notes x = [])
      (attempted : r.Attempted → Met c.life) (skipped : r.status = .skipped → Unmet c.life)
      (attached : eff.dispatched = none) (after : ¬ Met (Engine.lifeAfter eff.move))

section Calls

variable {e : Engine} {x : Nat} {c c' : Course} {eff : Effect} {calls notes : List CallNote} {detaches : Prop}

theorem begunIn_append (calls more : List CallNote) (x : Nat) :
    begunIn (calls ++ more) x = begunIn calls x ++ begunIn more x :=
  List.filterMap_append

theorem begunIn_eq_nil (h : ∀ i slot payload, CallNote.begun x i slot payload ∉ calls) : begunIn calls x = [] := by
  refine List.filterMap_eq_nil_iff.mpr fun n hn => ?_
  cases n with
  | ended => rfl
  | begun y i slot payload =>
    refine if_neg ?_
    rintro rfl
    exact h i slot payload hn

theorem Moved.invoking {maxDepth : Int} (h : Moved e x c eff)
    (stands : Stands maxDepth c.execution c.scheduled c.life) : Invoking x c eff := by
  cases h with
  | @diverted stage life =>
    rw [life] at stands
    cases stands <;> refine .quiet rfl rfl ?_ ?_ <;>
      simp [Engine.cancelCourse, Engine.lifeAfter, Unmet, Met, life]
  | advanced life advance =>
    rw [life] at stands
    -- only these moves call or record; all others leave both alone
    cases advance
    case called =>
      cases stands with
      | reaching running =>
        refine .called rfl ?_ ?_ rfl ?_ <;> simp [Unmet, life, begunIn, running.length, Engine.lifeAfter]
    case skipped | unknown =>
      cases stands with
      | reaching running =>
        refine .recorded rfl running.length.symm rfl ?_ ?_ rfl ?_ <;>
          simp [StepRecord.Attempted, Unmet, Met, life, Engine.lifeAfter]
    case unresolved =>
      cases stands with
      | calling running =>
        refine .recorded rfl running.length.symm rfl ?_ ?_ rfl ?_ <;>
          simp [StepRecord.Attempted, Unmet, Met, life, Engine.lifeAfter]
    case unprocessed =>
      cases stands with
      | handled running | dispatched running =>
        refine .recorded rfl running.length.symm rfl ?_ ?_ rfl ?_ <;>
          simp [StepRecord.Attempted, Unmet, Met, life, Engine.lifeAfter]
    case adopted =>
      cases stands with
      | handled running current result =>
        refine .recorded rfl running.length.symm rfl ?_ ?_ rfl ?_ <;>
          rcases result with rfl | ⟨rfl, -⟩ <;> simp [Unmet, Met, life, Engine.lifeAfter]
      | dispatched running =>
        refine .recorded rfl running.length.symm rfl ?_ ?_ rfl ?_ <;> simp [Unmet, Met, life, Engine.lifeAfter]
    all_goals
      refine .quiet rfl rfl ?_ ?_ <;> simp [Engine.lifeAfter, Unmet, Met, life]

theorem Invokes.fresh (unbegun : begunIn calls x = []) {a : Execution} (history : a.history = []) :
    Invokes calls x (.fresh a) detaches where
  increasing := by simp [unbegun]
  le := by simp [unbegun]
  attempted := by simp [Course.fresh, history]
  skipped := by simp [unbegun]
  unmet := by simp [unbegun]
  met met := met.elim

/-- Nothing is called for the execution, and its history stays. -/
theorem Invokes.aside {calls' : List CallNote} {detaches' : Prop} (h : Invokes calls x c detaches)
    (begun : begunIn calls' x = begunIn calls x) (history : c'.execution.history = c.execution.history)
    (unmet : Unmet c'.life → Unmet c.life) (met : Met c'.life → Met c.life) (same : detaches' ↔ detaches) :
    Invokes calls' x c' detaches' where
  increasing := begun ▸ h.increasing
  le := by rw [begun, history]; exact h.le
  attempted := by rw [begun, history]; exact h.attempted
  skipped := by rw [begun, history]; exact h.skipped
  unmet := by
    rw [begun, history]
    exact fun before => h.unmet (before.imp unmet same.mp)
  met := by
    rw [begun, history]
    exact fun called quiet => h.met (met called) fun detached => quiet (same.mpr detached)

/-- One more call begins, for the step after the recorded ones. -/
theorem Invokes.call {calls' : List CallNote} (h : Invokes calls x c detaches) (recorded : c.execution.Recorded)
    (begun : begunIn calls' x = begunIn calls x ++ [c.execution.history.length])
    (fresh : c.execution.history.length ∉ begunIn calls x) (history : c'.execution.history = c.execution.history)
    (after : ¬ Unmet c'.life) : Invokes calls' x c' False where
  increasing := by
    rw [begun, List.pairwise_append]
    refine ⟨h.increasing, List.pairwise_singleton _ _, fun i hi j hj => ?_⟩
    obtain rfl := List.mem_singleton.mp hj
    have ne : i ≠ c.execution.history.length := fun eq => fresh (eq ▸ hi)
    have le := h.le i hi
    omega
  le := by
    intro i hi
    rw [history]
    rw [begun] at hi
    rcases List.mem_append.mp hi with old | new
    · exact h.le i old
    · exact Nat.le_of_eq (List.mem_singleton.mp new)
  attempted := by
    rw [begun, history]
    exact fun r hr attempted => List.mem_append_left _ (h.attempted r hr attempted)
  skipped := by
    rw [begun, history]
    intro r hr skipped mem
    rcases List.mem_append.mp mem with old | new
    · exact h.skipped r hr skipped old
    · have lt := recorded.index_lt hr
      have eq := List.mem_singleton.mp new
      omega
  unmet before := absurd (before.resolve_right id) after
  met _ _ := by
    rw [begun, history]
    exact List.mem_append_right _ (List.mem_singleton.mpr rfl)

/-- One more step is recorded. -/
theorem Invokes.record {calls' : List CallNote} {r : StepRecord} (h : Invokes calls x c False)
    (begun : begunIn calls' x = begunIn calls x) (history : c'.execution.history = c.execution.history ++ [r])
    (index : r.index = c.execution.history.length) (attempted : r.Attempted → Met c.life)
    (skipped : r.status = .skipped → Unmet c.life) (after : ¬ Met c'.life) : Invokes calls' x c' detaches where
  increasing := begun ▸ h.increasing
  le := by
    intro i hi
    have le := h.le i (begun ▸ hi)
    rw [history, List.length_append]
    omega
  attempted := by
    rw [begun, history]
    intro s hs done
    rcases List.mem_append.mp hs with old | new
    · exact h.attempted s old done
    · obtain rfl := List.mem_singleton.mp new
      rw [index]
      exact h.met (attempted done) id
  skipped := by
    rw [begun, history]
    intro s hs passed
    rcases List.mem_append.mp hs with old | new
    · exact h.skipped s old passed
    · obtain rfl := List.mem_singleton.mp new
      rw [index]
      exact h.unmet (.inl (skipped passed))
  unmet _ mem := by
    have le := h.le _ (begun ▸ mem)
    rw [history, List.length_append, List.length_singleton] at le
    omega
  met called := absurd called after

/-- A move of the execution, which has no detached call that has yet to begin but the one that it queues. -/
theorem Invokes.moved {maxDepth : Int} {calls' : List CallNote} (h : Invokes calls x c False)
    (recorded : c.execution.Recorded) (moved : Moved e x c eff)
    (stands : Stands maxDepth c.execution c.scheduled c.life) (noted : calls' = calls ++ eff.notes)
    (same : detaches ↔ eff.dispatched.isSome = true) : Invokes calls' x (eff.course c) detaches := by
  have begun_eq : begunIn calls' x = begunIn calls x ++ begunIn eff.notes x := by rw [noted, begunIn_append]
  cases moved.invoking stands with
  | quiet history begun unmet met =>
    rw [begun, List.append_nil] at begun_eq
    by_cases detached : eff.dispatched.isSome = true
    · have before : Unmet c.life := unmet (.inr detached)
      have fresh := h.unmet (.inl before)
      refine ⟨begun_eq ▸ h.increasing, ?_, ?_, ?_, fun _ => ?_, fun _ quiet => absurd (same.mpr detached) quiet⟩ <;>
        simp only [begun_eq, Effect.course, history]
      · exact h.le
      · exact h.attempted
      · exact h.skipped
      · exact fresh
    · refine h.aside begun_eq history (fun after => unmet (.inl after)) (fun after => met after (by simpa using detached)) ?_
      exact iff_of_false (fun d => detached (same.mp d)) id
  | called history unmet begun attached after =>
    rw [begun] at begun_eq
    have quiet : detaches = False := eq_false fun d => by simpa [attached] using same.mp d
    rw [quiet]
    exact h.call recorded begun_eq (h.unmet (.inl unmet)) history after
  | recorded history index begun attempted skipped attached after =>
    rw [begun, List.append_nil] at begun_eq
    exact h.record begun_eq history index attempted skipped after

/-- The detached call for the execution will not begin. -/
theorem Invokes.drop (h : Invokes calls x c detaches) (unmet : ¬ Unmet c.life) (met : ¬ Met c.life) :
    Invokes calls x c False :=
  ⟨h.increasing, h.le, h.attempted, h.skipped, fun before => absurd (before.resolve_right id) unmet,
    fun called => absurd called met⟩

/-- A detached call begins in its first move, unless a cancellation is on its way to it. -/
theorem MovedDelivery.begunIn_eq {d : Delivery} {eff : DeliveryEffect} (h : MovedDelivery e d eff) :
    d.life = .live .entering false ∧ begunIn eff.notes d.execution = [d.index] ∨
      d.life ≠ .live .entering false ∧ ∀ x, begunIn eff.notes x = [] := by
  cases h with
  | diverted life => exact .inr ⟨by simp [life], fun _ => rfl⟩
  | delivered life delivers =>
    cases delivers with
    | begun => exact .inl ⟨life, by simp [begunIn]⟩
    | _ => exact .inr ⟨by simp [life], fun _ => rfl⟩

theorem Touched.unmet {now : Rat} (h : Touched now c c') (unmet : Unmet c'.life) : Unmet c.life := by
  rcases h.life_eq with eq | eq
  · exact eq ▸ unmet
  · rw [eq] at unmet
    cases life : c.life with
    | live stage interrupted => cases stage <;> simp_all [Life.interrupt, Unmet]
    | ended ending => simp [life, Life.interrupt, Unmet] at unmet

theorem Touched.met {now : Rat} (h : Touched now c c') (met : Met c'.life) : Met c.life := by
  rcases h.life_eq with eq | eq
  · exact eq ▸ met
  · rw [eq] at met
    cases life : c.life with
    | live stage interrupted => cases stage <;> simp_all [Life.interrupt, Met]
    | ended ending => simp [life, Life.interrupt, Met] at met

end Calls

namespace Engine

/-- A detached call for execution number `x` has not begun. -/
def Detaches (e : Engine) (x : Nat) : Prop :=
  ∃ d ∈ e.deliveries, d.execution = x ∧ ∃ interrupted, d.life = .live .entering interrupted

/-- The calls for every execution go with its history. -/
structure Calls (e : Engine) : Prop where
  invokes : ∀ (x : Nat) (c : Course), e.courses[x]? = some c → Invokes e.calls x c (e.Detaches x)
  unborn : ∀ x, e.courses.length ≤ x → begunIn e.calls x = []

section Calls

variable {e e' : Engine} {x k : Nat} {c c' : Course} {d : Delivery} {a : Act}

theorem detaches_iff : e.Detaches x ↔ ∃ k d interrupted, e.Enters k d interrupted ∧ d.execution = x := by
  constructor
  · rintro ⟨d, mem, execution, interrupted, life⟩
    obtain ⟨k, at_k⟩ := List.mem_iff_getElem?.mp mem
    exact ⟨k, d, interrupted, ⟨at_k, life⟩, execution⟩
  · rintro ⟨k, d, interrupted, ⟨at_k, life⟩, execution⟩
    exact ⟨d, List.mem_of_getElem? at_k, execution, interrupted, life⟩

theorem detaches_append {new : Option Delivery} (deliveries : e'.deliveries = e.deliveries ++ new.toList)
    (entering : ∀ d, new = some d → d.life = .live .entering false) :
    e'.Detaches x ↔ e.Detaches x ∨ ∃ d, new = some d ∧ d.execution = x := by
  unfold Detaches
  rw [deliveries]
  cases new with
  | none => simp
  | some d =>
    have life := entering d rfl
    simp [or_and_right, exists_or, life]

/-- A detached call that moves is not one that has not begun any more. -/
theorem Entering.detaches_set {eff : DeliveryEffect} (entering : e.Entering) (at_k : e.deliveries[k]? = some d)
    (moved : MovedDelivery e d eff) (deliveries : e'.deliveries = e.deliveries.set k { d with life := lifeAfter eff.move }) :
    e'.Detaches x ↔ e.Detaches x ∧ ¬ (d.execution = x ∧ ∃ b, d.life = .live .entering b) := by
  have others : ∀ j d' b, e'.Enters j d' b ↔ j ≠ k ∧ e.Enters j d' b := by
    intro j d' b
    unfold Enters
    rw [deliveries]
    by_cases hjk : j = k
    · subst hjk
      rw [set_getElem? at_k]
      constructor
      · rintro ⟨eq, life⟩
        obtain rfl := Option.some.inj eq
        exact absurd life (moved.not_entering b)
      · rintro ⟨ne, -⟩
        exact absurd rfl ne
    · rw [List.getElem?_set_ne (Ne.symm hjk)]
      simp [hjk]
  simp only [detaches_iff, others]
  constructor
  · rintro ⟨j, d', b, ⟨ne, enters⟩, execution⟩
    refine ⟨⟨j, d', b, enters, execution⟩, ?_⟩
    rintro ⟨same, b', life⟩
    exact ne (entering.single j k d' d b b' enters ⟨at_k, life⟩ (execution.trans same.symm))
  · rintro ⟨⟨j, d', b, enters, execution⟩, other⟩
    refine ⟨j, d', b, ⟨?_, enters⟩, execution⟩
    rintro rfl
    obtain rfl : d = d' := Option.some.inj (at_k.symm.trans enters.1)
    exact other ⟨execution, b, enters.2⟩

theorem detaches_signaled (signaled : Pointwise SignaledDelivery e.deliveries e'.deliveries) :
    e'.Detaches x ↔ e.Detaches x := by
  obtain ⟨length, pointwise⟩ := signaled
  simp only [detaches_iff]
  constructor
  · rintro ⟨k, d', b, ⟨at_k', life'⟩, execution⟩
    have lt : k < e.deliveries.length := length ▸ (List.getElem?_eq_some_iff.mp at_k').1
    obtain ⟨d, at_k, signaled⟩ := pointwise k _ (List.getElem?_eq_getElem lt)
    obtain rfl : d' = d := Option.some.inj (at_k'.symm.trans at_k)
    have before := List.getElem?_eq_getElem lt
    rcases signaled with eq | eq
    · exact ⟨k, _, b, ⟨before, eq ▸ life'⟩, eq ▸ execution⟩
    · rw [eq] at life' execution
      cases life : e.deliveries[k].life with
      | ended ending => simp [life, Life.interrupt] at life'
      | live stage b' =>
        simp only [life, Life.interrupt, Life.live.injEq] at life'
        exact ⟨k, _, b', ⟨before, by rw [life, life'.1]⟩, execution⟩
  · rintro ⟨k, d, b, ⟨at_k, life⟩, execution⟩
    obtain ⟨d', at_k', rfl | rfl⟩ := pointwise k d at_k
    · exact ⟨k, _, b, ⟨at_k', life⟩, execution⟩
    · exact ⟨k, _, true, ⟨at_k', by rw [life]; rfl⟩, execution⟩

theorem Outline.unbegun (outline : Outline e e') (orderly : e.Orderly) (calls : e.Calls)
    (hx : e.courses.length ≤ x) : begunIn e'.calls x = [] := by
  obtain ⟨notes, eq, executions⟩ := outline.calls_append orderly
  rw [eq, begunIn_append, calls.unborn x hx, List.nil_append]
  refine begunIn_eq_nil fun i slot payload mem => ?_
  have lt : x < e.courses.length := executions _ mem
  omega

/-- The task of execution number `y` moves. -/
theorem Entering.invokes_course (entering : e.Entering) (sound : e.Sound)
    (invokes : Invokes e.calls x c (e.Detaches x)) (hx : e.courses[x]? = some c) {y : Nat} {d : Course} {eff : Effect}
    (current : e.current = some (.course y)) (at_y : e.courses[y]? = some d) (moved : Moved e y d eff)
    (calls : e'.calls = e.calls ++ eff.notes)
    (deliveries : e'.deliveries = e.deliveries ++ eff.dispatched.toList) :
    Invokes e'.calls x (if y = x then eff.course d else c) (e'.Detaches x) := by
  have detaches := detaches_append (x := x) deliveries fun d' dispatched => by
    obtain ⟨index, step, handler, rfl, -⟩ := moved.dispatched_eq dispatched
    rfl
  have queued : (∃ d', eff.dispatched = some d' ∧ d'.execution = x) ↔ eff.dispatched.isSome = true ∧ y = x := by
    cases dispatched : eff.dispatched with
    | none => simp
    | some d' =>
      obtain ⟨index, step, handler, rfl, -⟩ := moved.dispatched_eq dispatched
      simp
  rw [queued] at detaches
  by_cases hxy : y = x
  · subst hxy
    obtain rfl : d = c := by simpa [at_y] using hx
    -- whose detached call has yet to begin has given the processor away, so it is not the one that moves
    have away : ¬ e.Detaches y := by
      rw [detaches_iff]
      rintro ⟨k, d', b, enters, execution⟩
      have away := entering.away enters
      rw [execution] at away
      exact away current
    rw [eq_false away] at invokes
    rw [if_pos rfl]
    refine invokes.moved (sound.threading.threads y d at_y).recorded moved (sound.standing.stands y d at_y) calls ?_
    simpa [away] using detaches
  · rw [if_neg hxy]
    have silent : begunIn eff.notes x = [] := begunIn_eq_nil fun i slot payload mem =>
      hxy (moved.notes_execution _ mem).symm
    refine invokes.aside ?_ rfl id id (by simpa [hxy] using detaches)
    rw [calls, begunIn_append, silent, List.append_nil]

/-- A detached call moves. -/
theorem Entering.invokes_delivery (entering : e.Entering) (sound : e.Sound)
    (invokes : Invokes e.calls x c (e.Detaches x)) (hx : e.courses[x]? = some c) {eff : DeliveryEffect}
    (at_k : e.deliveries[k]? = some d) (moved : MovedDelivery e d eff) (calls : e'.calls = e.calls ++ eff.notes)
    (deliveries : e'.deliveries = e.deliveries.set k { d with life := lifeAfter eff.move }) :
    Invokes e'.calls x c (e'.Detaches x) := by
  have detaches := entering.detaches_set (x := x) at_k moved deliveries
  by_cases ours : d.execution = x ∧ ∃ b, d.life = .live .entering b
  · obtain ⟨rfl, b, life⟩ := ours
    have detached : e.Detaches d.execution := detaches_iff.mpr ⟨k, d, b, ⟨at_k, life⟩, rfl⟩
    have ceased : e'.Detaches d.execution = False := eq_false fun h => (detaches.mp h).2 ⟨rfl, b, life⟩
    obtain ⟨c₀, canceled, hx₀, stage, canceled_of⟩ := entering.stands k d b ⟨at_k, life⟩
    obtain rfl : c = c₀ := by simpa [hx] using hx₀
    have stands := sound.standing.stands _ c hx
    rw [stage] at stands
    have length : c.execution.history.length = d.index := by
      cases stands with
      | handled running | dispatched running => exact running.length
    have turned : ¬ Unmet c.life := by simp [stage, Unmet]
    rw [ceased]
    -- the call begins, or a cancellation has come before its first turn and it never will
    rcases moved.begunIn_eq with ⟨entered, begun⟩ | ⟨flagged, silent⟩
    · refine invokes.call (sound.threading.threads _ c hx).recorded ?_ (invokes.unmet (.inr detached)) rfl turned
      rw [calls, begunIn_append, begun, length]
    · obtain rfl : b = true := by simpa [life] using flagged
      have dropped := invokes.drop turned (by simp [stage, Met, canceled_of rfl])
      refine dropped.aside ?_ rfl id id Iff.rfl
      rw [calls, begunIn_append, silent, List.append_nil]
  · have silent : begunIn eff.notes x = [] := by
      rcases moved.begunIn_eq with ⟨entered, -⟩ | ⟨-, silent⟩
      · refine begunIn_eq_nil fun i slot payload mem => ours ⟨?_, false, entered⟩
        exact (moved.notes_about _ mem).1.symm
      · exact silent x
    refine invokes.aside ?_ rfl id id ?_
    · rw [calls, begunIn_append, silent, List.append_nil]
    · rw [detaches]
      exact and_iff_left ours

theorem Outline.invokes (outline : Outline e e') (sound : e.Sound) (entering : e.Entering)
    (invokes : Invokes e.calls x c (e.Detaches x)) (hx : e.courses[x]? = some c) (hx' : e'.courses[x]? = some c') :
    Invokes e'.calls x c' (e'.Detaches x) := by
  have lt := (List.getElem?_eq_some_iff.mp hx).1
  cases outline with
  | still =>
    obtain rfl : c = c' := by simpa [hx] using hx'
    exact invokes
  | @course y d eff journal log current at_y moved =>
    have at_x : ((e.realize y (eff.course d) eff journal log).handOn (.course y) eff.move).courses[x]? =
        some (if y = x then eff.course d else c) := by
      rw [handOn_courses, realize, List.getElem?_append_left (by simpa using lt)]
      by_cases hxy : y = x
      · subst hxy
        rw [set_getElem? at_y, if_pos rfl]
      · rw [List.getElem?_set_ne hxy, if_neg hxy, hx]
    obtain rfl := Option.some.inj (hx'.symm.trans at_x)
    exact entering.invokes_course sound invokes hx current at_y moved (handOn_calls _ _ _) (handOn_deliveries _ _ _)
  | @delivery k d eff journal log current at_k moved =>
    rw [handOn_courses] at hx'
    obtain rfl : c = c' := Option.some.inj (hx.symm.trans hx')
    exact entering.invokes_delivery sound invokes hx at_k moved (handOn_calls _ _ _) (handOn_deliveries _ _ _)
  | other unmoved elsewhere =>
    obtain ⟨touched, born, courses, pointwise, -⟩ := elsewhere.courses
    obtain ⟨c'', hc'', touch⟩ := pointwise.2 x c hx
    rw [courses, List.getElem?_append_left (List.getElem?_eq_some_iff.mp hc'').1] at hx'
    obtain rfl : c' = c'' := Option.some.inj (hx'.symm.trans hc'')
    refine invokes.aside (by rw [elsewhere.calls]) touch.thread_eq.1 touch.unmet touch.met ?_
    exact detaches_signaled elsewhere.deliveries

theorem Outline.calls (outline : Outline e e') (sound : e.Sound) (entering : e.Entering) (calls : e.Calls) :
    e'.Calls where
  invokes := by
    intro x c' hx'
    cases hx : e.courses[x]? with
    | some c => exact outline.invokes sound entering (calls.invokes x c hx) hx hx'
    | none =>
      obtain ⟨-, execution, rfl, -⟩ := outline.newborn hx' hx
      have unbegun := outline.newborn_unbegun hx' hx
      exact .fresh (outline.unbegun sound.orderly calls (List.getElem?_eq_none_iff.mp hx)) unbegun.history_eq
  unborn := by
    intro x le
    exact outline.unbegun sound.orderly calls (Nat.le_trans outline.length_le le)

/-- **Calls go with histories**, in every sound state that the queue in its order leads to. -/
theorem ReachableBy.calls (reachable : e.ReachableBy inOrder) (sound : e.Sound) : e.Calls := by
  obtain ⟨settings, process, bus, registry, run⟩ := reachable
  refine run.induction ⟨_, _, _, _, .refl⟩ sound ⟨by simp [Engine.fresh], fun _ _ => rfl⟩ ?_
  intro e₁ a before sound₁ _ _ outline calls
  have reachable₁ : e₁.ReachableBy inOrder := before.of_fresh
  exact outline.calls sound₁ (reachable₁.entering sound₁) calls

end Calls

/-! ## The next act -/

section Next

variable {e e' : Engine} {x : Nat} {c c' : Course}

/-- **A call begins for the step after the recorded ones**, of an execution that runs. -/
theorem Outline.running_of_begun (outline : Outline e e') (sound : e.Sound) (entering : e.Entering)
    (hx : e.courses[x]? = some c) {notes : List CallNote} (calls : e'.calls = e.calls ++ notes) {i slot : Nat}
    {payload : Value} (mem : CallNote.begun x i slot payload ∈ notes) : c.execution.Running i := by
  have stands := sound.standing.stands x c hx
  have noted : ∀ more, e'.calls = e.calls ++ more → CallNote.begun x i slot payload ∈ more := by
    intro more eq
    rw [← List.append_cancel_left (calls.symm.trans eq)]
    exact mem
  -- a call is begun by the execution itself, or for it by a detached call
  cases outline with
  | still => simpa using noted [] (by simp)
  | other unmoved elsewhere => simpa using noted [] (by simp [elsewhere.calls])
  | @course y d eff journal log current at_y moved =>
    have begun := noted eff.notes (handOn_calls _ _ _)
    obtain rfl : x = y := moved.notes_execution _ begun
    obtain rfl : c = d := Option.some.inj (hx.symm.trans at_y)
    cases moved with
    | diverted => simp at begun
    | advanced life advance =>
      rw [life] at stands
      cases advance <;> simp at begun
      obtain ⟨rfl, -⟩ := begun
      cases stands with
      | reaching running => exact running
  | @delivery k d eff journal log current at_k moved =>
    have begun := noted eff.notes (handOn_calls _ _ _)
    obtain ⟨rfl, rfl⟩ : x = d.execution ∧ i = d.index := moved.notes_about _ begun
    have life : d.life = .live .entering false := by
      rcases moved.begunIn_eq with ⟨entered, -⟩ | ⟨-, silent⟩
      · exact entered
      · have member : d.index ∈ begunIn eff.notes d.execution :=
          List.mem_filterMap.mpr ⟨_, begun, by simp⟩
        simp [silent] at member
    obtain ⟨c₀, canceled, hx₀, stage, -⟩ := entering.stands k d false ⟨at_k, life⟩
    obtain rfl : c = c₀ := Option.some.inj (hx.symm.trans hx₀)
    rw [stage] at stands
    cases stands with
    | handled running | dispatched running => exact running

/-- A step is recorded as handled by a resolver once a resolver has been called for it. -/
theorem Outline.begun_of_recorded (outline : Outline e e') (sound : e.Sound) (entering : e.Entering) (calls : e.Calls)
    (hx : e.courses[x]? = some c) : ∃ c' more, e'.courses[x]? = some c' ∧
      c'.execution.history = c.execution.history ++ more ∧
      ∀ r ∈ more, r.Attempted → r.index ∈ begunIn e.calls x := by
  have stands := sound.standing.stands x c hx
  have invokes := calls.invokes x c hx
  obtain ⟨c', hx', fate⟩ := outline.fate hx
  have same (eq : c'.execution.history = c.execution.history) : ∃ c' more, e'.courses[x]? = some c' ∧
      c'.execution.history = c.execution.history ++ more ∧ ∀ r ∈ more, r.Attempted → r.index ∈ begunIn e.calls x :=
    ⟨c', [], hx', by rw [eq, List.append_nil], by simp⟩
  cases fate with
  | kept => exact same rfl
  | touched touched => exact same touched.thread_eq.1
  | moved current moved =>
    cases moved.invoking stands with
    | quiet history | called history => exact same history
    | @recorded r history index begun attempted =>
      have away : ¬ e.Detaches x := by
        rw [detaches_iff]
        rintro ⟨k, d, b, enters, execution⟩
        have away := entering.away enters
        rw [execution] at away
        exact away current
      refine ⟨_, [r], hx', history, fun s hs done => ?_⟩
      obtain rfl := List.mem_singleton.mp hs
      rw [index]
      exact invokes.met (attempted done) away

end Next

/-! ## The discipline of calls -/

/-- The calls for the steps of execution number `x`, found as `a`. -/
structure Disciplined (e : Engine) (x : Nat) (a : Execution) : Prop where
  /-- No step is called for twice, and none after a later one. -/
  increasing : (begunIn e.calls x).Pairwise (· < ·)
  once : ∀ r ∈ a.history, r.Attempted → (begunIn e.calls x).count r.index = 1
  never : ∀ r ∈ a.history, r.status = .skipped → r.index ∉ begunIn e.calls x

/-- What an act, from `e` to `e'`, adds to the calls and the history of execution number `x`, found as `a`. -/
structure CallsNext (e e' : Engine) (x : Nat) (a : Execution) : Prop where
  /-- A call begins only while the execution runs, once all earlier steps are recorded, none of them as failed, and their
  transitions are adopted. -/
  begun : ∃ notes, e'.calls = e.calls ++ notes ∧ ∀ i slot payload, CallNote.begun x i slot payload ∈ notes →
    a.status = .running ∧ a.history.map StepRecord.index = List.range i ∧ a.Clean ∧
      (e.replay x a).map Prod.fst = some a.state
  /-- A step is recorded as handled only once a call for it has begun. -/
  recorded : ∃ c' more, e'.courses[x]? = some c' ∧ c'.execution.history = a.history ++ more ∧
    ∀ r ∈ more, r.Attempted → r.index ∈ begunIn e.calls x

/-- **Discipline of calls**: in every state that the queue in its order leads to, with a calm bus and writable names, a
resolver is called at most once for a step, in the order of the steps, exactly once for a step that is handled and never
for one that is skipped; and the next act calls one only if everything before is settled. -/
theorem calls_of_reachable {e : Engine} (reachable : e.ReachableBy inOrder) (calm : e.Calm) (named : e.WellNamed)
    {x : Nat} {c : Course} (hx : e.courses[x]? = some c) :
    Disciplined e x c.execution ∧ ∀ a, CallsNext e (e.act a) x c.execution := by
  have sound := reachable.reachable.sound calm named
  have entering := reachable.entering sound
  have calls := reachable.calls sound
  have invokes := calls.invokes x c hx
  have threads := sound.threading.threads x c hx
  refine ⟨⟨invokes.increasing, fun r hr done => ?_, invokes.skipped⟩, fun a => ⟨?_, ?_⟩⟩
  · have distinct : (begunIn e.calls x).Nodup := invokes.increasing.imp Nat.ne_of_lt
    exact List.count_eq_one_of_mem distinct (invokes.attempted r hr done)
  · obtain ⟨notes, eq, -⟩ := (sound.outline a).calls_append sound.orderly
    refine ⟨notes, eq, fun i slot payload mem => ?_⟩
    have running := (sound.outline a).running_of_begun sound entering hx eq mem
    have replayed : (e.replay x c.execution).map Prod.fst = some c.execution.state := by
      rw [replay, threads.replayed]
      rfl
    exact ⟨running.status, by rw [threads.recorded.indices, running.length], running.clean, replayed⟩
  · exact (sound.outline a).begun_of_recorded sound entering calls hx

/-- A run in which a detached call for the first of three steps is about to begin. -/
def ringingRun : Engine :=
  let rings := Rehearsed.resolver "ring" .swallow true ⟨none, .gated, .returns (.ok none)⟩ []
  let patches := Rehearsed.resolver "patch" .propagate false ⟨none, .ungated, .returns (.ok none)⟩ []
  let steps := [⟨"ring", .null, .empty, by decide⟩, ⟨"patch", .null, .empty, by decide⟩, ⟨"trim", .null, .empty, by decide⟩]
  (fresh .standard Processing.standard none ((Registry.empty.register "ring" ⟨0, rings⟩).register "patch" ⟨1, patches⟩)).rehearse
    5 [.start ⟨steps, .text "trial", none, .empty, .empty⟩ .null]

/-- The call begins in the next turn; it is recorded, and so are the steps after it, while it waits. -/
theorem ringingRun_calls : begunIn ringingRun.calls 0 = [] ∧ begunIn (ringingRun.act (.turn 0)).calls 0 = [0] ∧
    (∃ c, ringingRun.courses[0]? = some c ∧ CallsNext ringingRun (ringingRun.act (.turn 0)) 0 c.execution) ∧
    begunIn (turns 20 ringingRun).calls 0 = [0, 1] ∧
    ∃ c, (turns 20 ringingRun).courses[0]? = some c ∧
      c.execution.history.map StepRecord.status = [.dispatched, .succeeded, .skipped] ∧
      Disciplined (turns 20 ringingRun) 0 c.execution := by
  have run : Reaches inOrder _ ringingRun := rehearse_reaches _ _ _
  have on : Reaches inOrder ringingRun (turns 20 ringingRun) := turns_reaches _ 20 fun _ _ => rfl
  have begins : ringingRun.courses[0]?.isSome = true := by decide +kernel
  obtain ⟨c, hx⟩ := Option.isSome_iff_exists.mp begins
  obtain ⟨-, next⟩ := calls_of_reachable run.of_fresh (run.calm_iff.mpr (fresh_calm _ _ _)) (by decide +kernel) hx
  have history : (turns 20 ringingRun).courses[0]?.map (·.execution.history.map StepRecord.status) =
      some [.dispatched, .succeeded, .skipped] := by decide +kernel
  obtain ⟨c', hx', history⟩ := Option.map_eq_some_iff.mp history
  obtain ⟨disciplined, -⟩ := calls_of_reachable (run.of_fresh.trans on) ((run.trans on).calm_iff.mpr (fresh_calm _ _ _))
    (by decide +kernel) hx'
  exact ⟨by decide +kernel, by decide +kernel, ⟨c, hx, next _⟩, by decide +kernel, c', hx', history, disciplined⟩

end Engine

end Stepflow
