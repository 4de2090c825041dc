import Stepflow.Proofs.Engine.Calling

/-!
# Stepflow.Proofs.Engine.Answering — a call that has begun ends, or is in progress

* `Course.inCall`, `Delivery.inCall`: the call that a task is in.
* `Moved.balance`, `MovedDelivery.balance`: what a move begins it is in, and what it is no longer in has ended.
* `Answering`: for every step of an execution as many calls have begun as have ended or are in progress, and never had more
  ended than begun; a detached call whose resolver has the processor has not been sent a cancellation.  `Sound.answering`:
  so it is in every sound state.
* `Answering.answered`: where all tasks are over, every call that has begun has ended since.
-/

namespace Stepflow

/-! ## Calls in progress -/

/-- The index of the step for which an execution is in a call. -/
def Course.inCall (c : Course) : Option Nat :=
  match c.life with
  | .live (.calling index _ _) _ | .live (.holding index _ _ _) _ => some index
  | _ => none

/-- Whether a detached call is in progress. -/
def Delivery.inCall (d : Delivery) : Bool :=
  match d.life with
  | .live (.calling _) _ | .live (.holding _ _) _ => true
  | _ => false

/-- Whether a detached call for a step of an execution is in progress. -/
def Delivery.inCallFor (x index : Nat) (d : Delivery) : Bool := d.inCall && d.execution == x && d.index == index

section InCall

variable {e : Engine} {x y index : Nat} {c c' : Course} {d d' : Delivery} {eff : Effect}

theorem inCall_of_over (stopped : c.life.isOver = true) : c.inCall = none := by
  unfold Course.inCall
  cases life : c.life with
  | live => simp [life, Life.isOver] at stopped
  | ended => rfl

theorem Delivery.inCall_of_over (stopped : d.life.isOver = true) : d.inCall = false := by
  unfold Delivery.inCall
  cases life : d.life with
  | live => simp [life, Life.isOver] at stopped
  | ended => rfl

theorem Touched.inCall_eq {now : Rat} (h : Touched now c c') : c'.inCall = c.inCall := by
  unfold Course.inCall
  rcases h.life_eq with eq | eq <;> rw [eq]
  cases c.life with
  | live stage => cases stage <;> rfl
  | ended => rfl

theorem SignaledDelivery.inCallFor_eq (h : SignaledDelivery d d') : d'.inCallFor x index = d.inCallFor x index := by
  rcases h with rfl | rfl
  · rfl
  · unfold Delivery.inCallFor Delivery.inCall
    cases d.life with
    | live stage => cases stage <;> rfl
    | ended => rfl

theorem Delivery.inCallFor_self (d : Delivery) :
    (if d.inCallFor d.execution d.index = true then 1 else 0) = d.inCall.toNat := by
  cases inCall : d.inCall <;> simp [Delivery.inCallFor, inCall]

theorem Delivery.inCallFor_of_ne (other : ¬ (d.execution = x ∧ d.index = index)) : d.inCallFor x index = false := by
  by_contra inCallFor
  simp only [Delivery.inCallFor, Bool.not_eq_false, Bool.and_eq_true, beq_iff_eq] at inCallFor
  exact other ⟨inCallFor.1.2, inCallFor.2⟩

theorem length_endingsIn_ended (x i index : Nat) (result : Except Raised (Option Value)) :
    (endingsIn [.ended x i result] x index).length = if i = index then 1 else 0 := by
  by_cases same : i = index <;> simp [endingsIn, same]

theorem count_begunIn_begun (x i slot index : Nat) (payload : Value) :
    (begunIn [.begun x i slot payload] x).count index = if i = index then 1 else 0 := by
  simp [begunIn, List.count_singleton]

/-- The calls that a move begins and those that were in progress are those that it ends and those that are in progress
after it. -/
theorem Moved.balance {maxDepth : Int} (h : Moved e x c eff) (stands : Stands maxDepth c.execution c.scheduled c.life)
    (index : Nat) : (begunIn eff.notes x).count index + c.inCall.toList.count index =
      (endingsIn eff.notes x index).length + (eff.course c).inCall.toList.count index := by
  have none_begun : begunIn [] x = [] := rfl
  have none_ended : endingsIn [] x index = [] := rfl
  cases h with
  | @diverted stage life =>
    rw [life] at stands
    cases stands <;>
      simp [Course.inCall, Effect.course, life, Engine.cancelCourse, Engine.lifeAfter, none_begun, none_ended]
  | advanced life advance =>
    cases advance with
    | called =>
      rw [count_begunIn_begun]
      simp [Course.inCall, Effect.course, life, Engine.lifeAfter, endingsIn, List.count_singleton]
    | answered | yielded | unresolved | recovered =>
      rw [length_endingsIn_ended]
      simp [Course.inCall, Effect.course, life, Engine.lifeAfter, List.count_singleton, begunIn]
    | _ => simp [Course.inCall, Effect.course, life, Engine.lifeAfter, none_begun, none_ended]

/-- So it is with a detached call, which meets no cancellation while its resolver has the processor. -/
theorem MovedDelivery.balance {deff : DeliveryEffect} (h : MovedDelivery e d deff)
    (undisturbed : ∀ script, d.life ≠ .live (.calling script) true) :
    (begunIn deff.notes d.execution).count d.index + d.inCall.toNat =
      (endingsIn deff.notes d.execution d.index).length +
        { d with life := Engine.lifeAfter deff.move : Delivery }.inCall.toNat := by
  have none_begun : begunIn [] d.execution = [] := rfl
  have none_ended : endingsIn [] d.execution d.index = [] := rfl
  cases h with
  | @diverted stage life =>
    cases stage with
    | calling script => exact absurd life (undisturbed script)
    | _ => simp [Delivery.inCall, life, Engine.cancelDelivery, Engine.lifeAfter, none_begun, none_ended]
  | delivered life delivers =>
    cases delivers with
    | begun =>
      rw [count_begunIn_begun]
      simp [Delivery.inCall, life, Engine.lifeAfter, endingsIn]
    | answered | yielded | recovered | reported =>
      rw [length_endingsIn_ended]
      simp [Delivery.inCall, life, Engine.lifeAfter, begunIn]
    | _ => simp [Delivery.inCall, life, Engine.lifeAfter, none_begun, none_ended]

/-- A detached call that goes on with its resolver keeps the processor. -/
theorem MovedDelivery.goes_on {deff : DeliveryEffect} {script : Script} {interrupted : Bool}
    (h : MovedDelivery e d deff) (after : Engine.lifeAfter deff.move = .live (.calling script) interrupted) :
    deff.move = .go (.calling script) ∧ interrupted = false := by
  cases h with
  | delivered life delivers => cases delivers <;> cases after <;> exact ⟨rfl, rfl⟩
  | @diverted stage life =>
    cases stage <;> cases after
    exact ⟨rfl, rfl⟩

/-- A move notes one thing at the most. -/
theorem Moved.notes_le (h : Moved e x c eff) : eff.notes.length ≤ 1 := by
  cases h with
  | diverted => exact Nat.zero_le _
  | advanced life advance => cases advance <;> simp

theorem MovedDelivery.notes_le {deff : DeliveryEffect} (h : MovedDelivery e d deff) : deff.notes.length ≤ 1 := by
  cases h with
  | diverted => exact Nat.zero_le _
  | delivered life delivers => cases delivers <;> simp

/-- Notes about other steps or executions do not count. -/
theorem unbalanced_of_ne {notes : List CallNote} (ne : ∀ n ∈ notes, ¬ (n.execution = x ∧ n.index = index)) :
    (begunIn notes x).count index = 0 ∧ (endingsIn notes x index).length = 0 := by
  constructor
  · rw [List.count_eq_zero]
    intro mem
    obtain ⟨n, hn, eq⟩ := List.mem_filterMap.mp mem
    cases n with
    | begun y i =>
      dsimp only at eq
      split at eq
      · rename_i about
        cases eq
        exact ne _ hn ⟨about, rfl⟩
      · cases eq
    | ended => cases eq
  · rw [endingsIn_eq_nil fun result mem => ne _ mem ⟨rfl, rfl⟩]
    rfl

end InCall

namespace Engine

/-- For every step of an execution as many calls have begun as have ended or are in progress, and at no time had more ended
than begun.  A detached call whose resolver has the processor has not been sent a cancellation. -/
structure Answering (e : Engine) : Prop where
  balanced : ∀ x index, (begunIn e.calls x).count index = (endingsIn e.calls x index).length +
    ((e.courses[x]?).bind Course.inCall).toList.count index + e.deliveries.countP (·.inCallFor x index)
  ordered : ∀ earlier, earlier <+: e.calls → ∀ x index,
    (endingsIn earlier x index).length ≤ (begunIn earlier x).count index
  undisturbed : ∀ (k : Nat) (d : Delivery) (script : Script) (interrupted : Bool), e.deliveries[k]? = some d →
    d.life = .live (.calling script) interrupted → interrupted = false ∧ e.current = some (.delivery k)

section Answering

variable {e e' : Engine}

theorem countP_eq_of_signaled (x index : Nat) (signaled : Pointwise SignaledDelivery e.deliveries e'.deliveries) :
    e'.deliveries.countP (·.inCallFor x index) = e.deliveries.countP (·.inCallFor x index) := by
  have same : e'.deliveries.map (·.inCallFor x index) = e.deliveries.map (·.inCallFor x index) := by
    refine List.ext_getElem? fun k => ?_
    rw [List.getElem?_map, List.getElem?_map]
    cases hk : e.deliveries[k]? with
    | none =>
      have past : e'.deliveries[k]? = none := by
        rw [List.getElem?_eq_none_iff, signaled.1]
        exact List.getElem?_eq_none_iff.mp hk
      rw [past]
    | some d =>
      obtain ⟨d', hd', sent⟩ := signaled.2 k d hk
      rw [hd', Option.map_some, Option.map_some, sent.inCallFor_eq]
  have counts := congrArg (List.countP id) same
  simpa only [List.countP_map, Function.id_comp] using counts

theorem inCall_getElem?_append (l : List Course) (born : Option Execution) (x : Nat) :
    ((l ++ (born.map Course.fresh).toList)[x]?).bind Course.inCall = (l[x]?).bind Course.inCall := by
  cases born with
  | none => simp
  | some execution =>
    rw [Option.map_some, Option.toList_some]
    rcases Nat.lt_trichotomy x l.length with before | rfl | after
    · rw [List.getElem?_append_left before]
    · simp [Course.fresh, Course.inCall]
    · have past : (l ++ [Course.fresh execution])[x]? = none := by
        rw [List.getElem?_eq_none_iff, List.length_append, List.length_singleton]
        omega
      rw [past, List.getElem?_eq_none (by omega)]

theorem inCall_of_touched {touched : List Course} (h : Pointwise (Touched e.clock) e.courses touched) (x : Nat) :
    (touched[x]?).bind Course.inCall = (e.courses[x]?).bind Course.inCall := by
  cases hx : e.courses[x]? with
  | none =>
    have past : touched[x]? = none := by
      rw [List.getElem?_eq_none_iff, h.1]
      exact List.getElem?_eq_none_iff.mp hx
    rw [past]
  | some c =>
    obtain ⟨c', hc', touched⟩ := h.2 x c hx
    rw [hc', Option.bind_some, Option.bind_some, touched.inCall_eq]

theorem Answering.append {notes : List CallNote} {x index : Nat} (h : e.Answering)
    (about : ∀ n ∈ notes, ¬ (n.execution = x ∧ n.index = index)) :
    (begunIn (e.calls ++ notes) x).count index = (endingsIn (e.calls ++ notes) x index).length +
      ((e.courses[x]?).bind Course.inCall).toList.count index + e.deliveries.countP (·.inCallFor x index) := by
  obtain ⟨begun, ended⟩ := unbalanced_of_ne about
  have balanced := h.balanced x index
  rw [begunIn_append, endingsIn_append, List.count_append, List.length_append, begun, ended]
  exact balanced

theorem Outline.balanced (outline : Outline e e') (standing : e.Standing) (answering : e.Answering) (x index : Nat) :
    (begunIn e'.calls x).count index = (endingsIn e'.calls x index).length +
      ((e'.courses[x]?).bind Course.inCall).toList.count index + e'.deliveries.countP (·.inCallFor x index) := by
  cases outline with
  | still => exact answering.balanced x index
  | @course y c eff journal log current at_y moved =>
    have queued : eff.dispatched.toList.countP (·.inCallFor x index) = 0 := by
      cases dispatched : eff.dispatched with
      | none => rfl
      | some d =>
        obtain ⟨_, _, _, rfl, -⟩ := moved.dispatched_eq dispatched
        simp [Delivery.inCallFor, Delivery.inCall]
    rw [handOn_calls, handOn_courses, handOn_deliveries]
    dsimp only [realize]
    rw [inCall_getElem?_append, List.countP_append, queued, Nat.add_zero]
    by_cases same : y = x
    -- a note of `y` moves its call from begun to ended, or opens it: both sides change alike
    · subst same
      have before := answering.balanced y index
      have moves := moved.balance (standing.stands y c at_y) index
      rw [at_y, Option.bind_some] at before
      rw [set_getElem? at_y, Option.bind_some, begunIn_append, endingsIn_append, List.count_append, List.length_append]
      omega
    · rw [List.getElem?_set_ne same]
      exact answering.append fun n hn about => same ((moved.notes_execution n hn).symm.trans about.1)
  | @delivery k d eff journal log current at_k moved =>
    rw [handOn_calls, handOn_courses, handOn_deliveries]
    dsimp only [realizeDelivery]
    obtain ⟨lt, eq⟩ := List.getElem?_eq_some_iff.mp at_k
    have before := answering.balanced x index
    by_cases same : d.execution = x ∧ d.index = index
    · obtain ⟨rfl, rfl⟩ := same
      have undisturbed : ∀ script, d.life ≠ .live (.calling script) true := fun script life => by
        simpa using (answering.undisturbed k d script true at_k life).1
      have moves := moved.balance undisturbed
      -- the call is counted among those in progress, so the difference does not go below zero
      have inList : d.inCall.toNat ≤ e.deliveries.countP (·.inCallFor d.execution d.index) := by
        cases inCall : d.inCall with
        | false => exact Nat.zero_le _
        | true => exact List.countP_pos_iff.mpr ⟨d, List.mem_of_getElem? at_k, by simp [Delivery.inCallFor, inCall]⟩
      rw [List.countP_set lt, eq, begunIn_append, endingsIn_append, List.count_append, List.length_append]
      have after := Delivery.inCallFor_self { d with life := lifeAfter eff.move }
      dsimp only at after
      rw [d.inCallFor_self, after]
      omega
    · have other : ({ d with life := lifeAfter eff.move } : Delivery).inCallFor x index = false :=
        Delivery.inCallFor_of_ne same
      rw [List.countP_set lt, eq, Delivery.inCallFor_of_ne same, other]
      refine answering.append fun n hn about => same ?_
      obtain ⟨execution, index_eq⟩ := moved.notes_about n hn
      exact ⟨execution.symm.trans about.1, index_eq.symm.trans about.2⟩
  | other unmoved elsewhere =>
    obtain ⟨touched, born, courses, pointwise, -⟩ := elsewhere.courses
    rw [elsewhere.calls, courses, inCall_getElem?_append, inCall_of_touched pointwise,
      countP_eq_of_signaled x index elsewhere.deliveries]
    exact answering.balanced x index

theorem Outline.calls_le (outline : Outline e e') : ∃ notes, e'.calls = e.calls ++ notes ∧ notes.length ≤ 1 := by
  cases outline with
  | still => exact ⟨[], (List.append_nil _).symm, Nat.zero_le _⟩
  | course current at_x moved => exact ⟨_, handOn_calls _ _ _, moved.notes_le⟩
  | delivery current at_k moved => exact ⟨_, handOn_calls _ _ _, moved.notes_le⟩
  | other unmoved elsewhere => exact ⟨[], by rw [elsewhere.calls, List.append_nil], Nat.zero_le _⟩

/-- What had been noted at an earlier time is what is noted now, or had been noted before the act. -/
theorem Outline.ordered (outline : Outline e e') (standing : e.Standing) (answering : e.Answering)
    {earlier : List CallNote} (before : earlier <+: e'.calls) (x index : Nat) :
    (endingsIn earlier x index).length ≤ (begunIn earlier x).count index := by
  obtain ⟨notes, calls, one⟩ := outline.calls_le
  obtain ⟨later, split⟩ := before
  by_cases now : later = []
  · obtain rfl : earlier = e'.calls := by simpa [now] using split
    have balanced := outline.balanced standing answering x index
    omega
  · refine answering.ordered earlier ?_ x index
    have lengths := congrArg List.length (split.trans calls)
    have some := List.length_pos_iff.mpr now
    simp only [List.length_append] at lengths
    exact List.prefix_of_prefix_length_le ⟨later, split.trans calls⟩ (List.prefix_append _ _) (by omega)

/-- While a detached call has the processor nothing happens but its own move. -/
theorem Happens.of_delivery {a : Act} {k : Nat} {d : Delivery} (h : Happens e a e')
    (current : e.current = some (.delivery k)) (at_k : e.deliveries[k]? = some d) (live : d.life.isOver = false) :
    e' = e ∨ ∃ eff journal log, MovedDelivery e d eff ∧
      e' = (e.realizeDelivery k { d with life := lifeAfter eff.move } eff journal log).handOn (.delivery k) eff.move := by
  cases h with
  | still => exact .inl rfl
  | vacant current' stopped =>
    obtain rfl := Option.some.inj (current'.symm.trans current)
    simp [isOver, at_k, live] at stopped
  | @delivery _ j d₀ eff journal log current' at_j moved =>
    obtain rfl : k = j := by simpa [current] using current'
    obtain rfl : d = d₀ := by simpa [at_k] using at_j
    exact .inr ⟨eff, journal, log, moved, rfl⟩
  | _ => simp_all

theorem Happens.undisturbed {a : Act} {k : Nat} {d' : Delivery} {script : Script} {interrupted : Bool}
    (h : Happens e a e') (outline : Outline e e') (answering : e.Answering) (at_k' : e'.deliveries[k]? = some d')
    (life' : d'.life = .live (.calling script) interrupted) :
    interrupted = false ∧ e'.current = some (.delivery k) := by
  obtain ⟨d, at_k, current, live⟩ :
      ∃ d, e.deliveries[k]? = some d ∧ e.current = some (.delivery k) ∧ d.life.isOver = false := by
    -- a signal keeps the stage, so the call was there before; a new one has not begun
    rcases outline.delivery_fate at_k' with ⟨d, at_k, signaled | ⟨eff, current, moved, -⟩⟩ |
      ⟨_, _, _, -, -, moved, dispatched, -⟩
    · obtain ⟨before, life⟩ : ∃ before, d.life = .live (.calling script) before := by
        rcases signaled with rfl | rfl
        · exact ⟨_, life'⟩
        · cases life : d.life with
          | live stage before =>
            simp only [life, Life.interrupt, Life.live.injEq] at life'
            exact ⟨before, by rw [life'.1]⟩
          | ended => simp [life, Life.interrupt] at life'
      exact ⟨d, at_k, (answering.undisturbed k d script before at_k life).2, by rw [life]; rfl⟩
    · refine ⟨d, at_k, current, ?_⟩
      cases moved with
      | delivered life | diverted life => rw [life]; rfl
    · obtain ⟨_, _, _, rfl, -⟩ := moved.dispatched_eq dispatched
      cases life'
  rcases h.of_delivery current at_k live with rfl | ⟨eff, journal, log, moved, rfl⟩
  · exact answering.undisturbed k d' script interrupted at_k' life'
  · obtain rfl : d' = { d with life := lifeAfter eff.move } := by
      rw [handOn_deliveries] at at_k'
      simpa [realizeDelivery, set_getElem? at_k] using at_k'.symm
    obtain ⟨move, rfl⟩ := moved.goes_on life'
    rw [move]
    exact ⟨rfl, current⟩

theorem Happens.answering {a : Act} (h : Happens e a e') (outline : Outline e e') (standing : e.Standing)
    (answering : e.Answering) : e'.Answering :=
  ⟨outline.balanced standing answering, fun _ before => outline.ordered standing answering before,
    fun _ _ _ _ at_k life => h.undisturbed outline answering at_k life⟩

/-- **Answering**: in every sound state a call that has begun has ended or is in progress. -/
theorem Sound.answering (h : e.Sound) : e.Answering := by
  refine h.induction (I := Answering) (fun settings process bus registry => ⟨?_, ?_, ?_⟩)
    fun e a sound _ outline answering => (sound.happens a).answering outline sound.standing answering
  · intro x index
    simp [fresh, begunIn, endingsIn]
  · intro earlier before x index
    obtain rfl := List.prefix_nil.mp before
    exact Nat.zero_le _
  · intro k d script interrupted at_k
    simp [fresh] at at_k

/-- Where all tasks are over, every call that has begun has ended since. -/
theorem Answering.answered {earlier later : List CallNote} {x index slot : Nat} {payload : Value} (h : e.Answering)
    (stopped : ∀ c ∈ e.courses, c.life.isOver = true) (stoppedDeliveries : ∀ d ∈ e.deliveries, d.life.isOver = true)
    (begun : e.calls = earlier ++ .begun x index slot payload :: later) : ∃ result, .ended x index result ∈ later := by
  have courses : (e.courses[x]?).bind Course.inCall = none := by
    cases at_x : e.courses[x]? with
    | none => rfl
    | some c => exact inCall_of_over (stopped c (List.mem_of_getElem? at_x))
  have deliveries : e.deliveries.countP (·.inCallFor x index) = 0 := by
    refine List.countP_eq_zero.mpr fun d mem => ?_
    simp [Delivery.inCallFor, Delivery.inCall_of_over (stoppedDeliveries d mem)]
  have balanced := h.balanced x index
  have before := h.ordered earlier ⟨_, begun.symm⟩ x index
  have split : e.calls = earlier ++ ([.begun x index slot payload] ++ later) := begun
  rw [split, begunIn_append, begunIn_append, endingsIn_append, endingsIn_append, List.count_append, List.count_append,
    count_begunIn_begun, if_pos rfl, List.length_append, List.length_append, courses, deliveries] at balanced
  have nothing : (endingsIn [CallNote.begun x index slot payload] x index).length = 0 := rfl
  have ended : 0 < (endingsIn later x index).length := by
    simp only [Option.toList_none, List.count_nil] at balanced
    omega
  by_contra absent
  have silent := endingsIn_eq_nil fun result mem => absent ⟨result, mem⟩
  simp [silent] at ended

end Answering

end Engine

end Stepflow
