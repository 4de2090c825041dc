import Stepflow.Proofs.Engine.Places
import Stepflow.Proofs.Engine.Standing

/-!
# Stepflow.Proofs.Engine.Ahead — an execution begins before its caller can cancel it

With the queue served in order, the task of an execution that a caller of `run` has submitted is ahead of that caller as
long as it has not begun: it was queued before the caller went to wait, and the caller comes back to the end of the
queue.  So the caller never has the processor while its execution has not begun (`ReachableBy.ahead`).
-/

namespace Stepflow.Engine

/-- Caller number `k` waits for execution number `x`. -/
def Awaits (e : Engine) (k x : Nat) : Prop :=
  ∃ c interrupted, e.callers[k]? = some c ∧ c.life = .live (.awaiting x) interrupted

/-- Callers wait for executions that exist, and for one that has not begun behind its task. -/
structure Ahead (e : Engine) : Prop where
  accepted : ∀ k x, e.Awaits k x → x < e.courses.length
  ahead : ∀ k x c interrupted, e.Awaits k x → e.courses[x]? = some c → c.life = .live .opening interrupted →
    e.current = some (.course x) ∨
      e.current ≠ some (.caller k) ∧ ∃ before after, e.ready = before ++ .course x :: after ∧ .caller k ∉ before

/-! ## Who waits -/

/-- From `e` to `e'` no caller begins to wait. -/
def KeepsAwaits (e e' : Engine) : Prop := ∀ k x, e'.Awaits k x → e.Awaits k x

section Awaits

variable {e e' e'' : Engine}

theorem KeepsAwaits.refl (e : Engine) : KeepsAwaits e e := fun _ _ => id

theorem KeepsAwaits.trans (h : KeepsAwaits e e') (h' : KeepsAwaits e' e'') : KeepsAwaits e e'' :=
  fun k x awaits => h k x (h' k x awaits)

theorem KeepsAwaits.of_eq (callers : e'.callers = e.callers) : KeepsAwaits e e' := by
  intro k x ⟨c, interrupted, hk, life⟩
  exact ⟨c, interrupted, callers ▸ hk, life⟩

theorem KeepsAwaits.modify {j : Nat} {f : Caller → Caller} (callers : e'.callers = e.callers.modify j f)
    (hf : ∀ c x interrupted, e.callers[j]? = some c → (f c).life = .live (.awaiting x) interrupted →
      ∃ interrupted, c.life = .live (.awaiting x) interrupted) : KeepsAwaits e e' := by
  intro k x ⟨c', interrupted, hk, life⟩
  rw [callers, List.getElem?_modify] at hk
  cases hc : e.callers[k]? with
  | none => simp [hc] at hk
  | some c =>
    by_cases hjk : j = k
    · subst hjk
      obtain rfl : f c = c' := by simpa [hc] using hk
      obtain ⟨b, life⟩ := hf c x interrupted hc life
      exact ⟨c, b, hc, life⟩
    · obtain rfl : c = c' := by simpa [hc, hjk] using hk
      exact ⟨c, interrupted, hc, life⟩

theorem flag_keepsAwaits (e : Engine) (t : TaskId) : KeepsAwaits e (e.flag t) := by
  cases t with
  | caller k =>
    refine .modify rfl fun c x interrupted _ life => ?_
    cases hc : c.life with
    | live stage b =>
      simp only [hc, Life.interrupt, Life.live.injEq] at life
      exact ⟨b, by rw [life.1]⟩
    | ended ending => simp [hc, Life.interrupt] at life
  | course | delivery | joiner | closer => exact .of_eq rfl

theorem interrupt_keepsAwaits (e : Engine) (t : TaskId) : KeepsAwaits e (e.interrupt t) := by
  unfold interrupt
  split
  · exact .refl e
  · dsimp only
    split
    · exact (flag_keepsAwaits e t).trans (.of_eq rfl)
    · exact flag_keepsAwaits e t

theorem awaits_nudging : Nudging KeepsAwaits where
  refl := .refl
  trans := .trans
  report _ _ _ := .of_eq rfl
  give _ _ _ := .of_eq rfl
  send := interrupt_keepsAwaits
  flag e k := flag_keepsAwaits e (.joiner k)

theorem handOn_callers {σ : Type} (e : Engine) (t : TaskId) (m : Move σ) : (e.handOn t m).callers = e.callers := by
  cases m <;> rfl

theorem sendCancel_keepsAwaits (e : Engine) (x : Nat) (c : Course) (reason : String) :
    KeepsAwaits e (e.sendCancel x c reason) := by
  unfold sendCancel
  split
  · exact .refl e
  · exact KeepsAwaits.trans (.of_eq rfl) (interrupt_keepsAwaits _ _)

theorem markCanceled_callers (e : Engine) (x : Nat) (execution : Execution) (reason : String) :
    (e.markCanceled x execution reason).1.callers = e.callers := by
  unfold markCanceled
  dsimp only
  split
  · unfold announce
    split <;> rfl
  · rfl
  · rfl

theorem undergo_keepsAwaits (e : Engine) (deed : Deed) : KeepsAwaits e (e.undergo deed) := by
  cases deed with
  | start workflow initial =>
    dsimp only [undergo, start]
    cases State.freeze initial <;> exact .of_eq rfl
  | run workflow initial =>
    intro k x ⟨c, interrupted, hk, life⟩
    refine ⟨c, interrupted, ?_, life⟩
    simp only [undergo, run] at hk
    rcases Nat.lt_trichotomy k e.callers.length with lt | rfl | gt
    · rwa [List.getElem?_append_left lt] at hk
    · obtain rfl : _ = c := by simpa using hk
      simp at life
    · rw [List.getElem?_eq_none (by simp; omega)] at hk
      cases hk
  | cancel x id reason =>
    obtain eq | ⟨y, c, -, -, eq | eq⟩ := cancel_cases e x id reason <;> simp only [undergo, eq]
    · exact .refl e
    · exact sendCancel_keepsAwaits e y c reason
    · exact (sendCancel_keepsAwaits e y c reason).trans (.of_eq (markCanceled_callers _ _ _ _))
  | cancelRun k => exact interrupt_keepsAwaits e _
  | cancelJoin k => exact awaits_nudging.cancelJoin e k
  | register stepType offered =>
    dsimp only [undergo, register]
    split <;> exact .of_eq rfl
  | pass time =>
    dsimp only [undergo]
    split <;> exact .of_eq rfl
  | join | shutdown | release | releaseBus | unregister => exact .of_eq rfl

/-- A caller begins to wait in the move in which it submits its workflow; the task of the execution is at the end of the
queue then. -/
theorem Happens.awaits {a : Act} (h : Happens e a e') : KeepsAwaits e e' ∨
    ∃ k, e.current = some (.caller k) ∧ e'.current = none ∧ e'.ready = e.ready ++ [.course e.courses.length] ∧
      e'.courses.length = e.courses.length + 1 ∧
      ∀ j x, e'.Awaits j x → e.Awaits j x ∨ j = k ∧ x = e.courses.length := by
  cases h with
  | still => exact .inl (.refl e)
  | chosen => exact .inl (.of_eq rfl)
  | vacant => exact .inl (.of_eq rfl)
  | course => exact .inl (.of_eq (handOn_callers _ _ _))
  | delivery => exact .inl (.of_eq (handOn_callers _ _ _))
  | @caller _ k c stage current at_k life =>
    cases stage with
    | awaiting x =>
      refine .inl (.modify (handOn_callers _ _ _) fun d y b _ after => ?_)
      simp [moveCaller, lifeAfter] at after
    | surrendering x =>
      refine .inl (.modify (handOn_callers _ _ _) fun d y b _ after => ?_)
      simp [moveCaller, lifeAfter] at after
    | entering workflow initial =>
      cases frozen : State.freeze initial with
      | error f =>
        simp only [moveCaller, frozen]
        refine .inl (.modify (handOn_callers _ _ _) fun d y b _ after => ?_)
        simp [lifeAfter] at after
      | ok state =>
        simp only [moveCaller, frozen]
        -- the move that submits is the only one after which a caller waits that did not wait before
        refine .inr ⟨k, current, rfl, rfl, by simp [settleCaller, handOn, submit], ?_⟩
        rintro j x ⟨c', b, hj, after⟩
        simp only [settleCaller, handOn, submit, List.modify_modify_eq, List.getElem?_modify] at hj
        by_cases hkj : k = j
        · subst hkj
          refine .inr ⟨rfl, ?_⟩
          simp only [at_k, Option.map_eq_map, Option.map_some, if_true, Option.some.injEq] at hj
          subst hj
          simp only [Function.comp, lifeAfter, Life.live.injEq, CallerStage.awaiting.injEq] at after
          exact after.1.symm
        · simp only [hkj, if_false, Option.map_eq_map, Option.map_id'] at hj
          exact .inl ⟨c', b, hj, after⟩
  | @callerCanceled _ k c stage current at_k life =>
    refine .inl ((awaits_nudging.cancelCaller e stage).trans (.modify (handOn_callers _ _ _) fun d y b _ after => ?_))
    have gone : ∀ y, lifeAfter (e.cancelCaller stage).2 ≠ .live (.awaiting y) b := by
      intro y
      cases stage with
      | awaiting x =>
        dsimp only [cancelCaller]
        split <;> simp [lifeAfter]
      | entering | surrendering => simp [cancelCaller, lifeAfter]
    exact absurd after (gone y)
  | joiner => exact .inl ((awaits_nudging.moveJoiner e _).trans (.of_eq (handOn_callers _ _ _)))
  | joinerCanceled => exact .inl (.of_eq (handOn_callers _ _ _))
  | closer => exact .inl ((awaits_nudging.moveCloser e _).trans (.of_eq (handOn_callers _ _ _)))
  | closerCanceled => exact .inl (.of_eq (handOn_callers _ _ _))
  | host => exact .inl (undergo_keepsAwaits e _)

end Awaits

/-! ## The order of the queue -/

section Order

variable {e e' : Engine}

theorem Ahead.choose {t : TaskId} (h : e.Ahead) (free : e.current = none) (at_head : e.ready[0]? = some t) :
    Ahead { e with current := some t, ready := e.ready.eraseIdx 0 } where
  accepted := h.accepted
  ahead := by
    intro k x c interrupted awaits hx life
    obtain current | ⟨-, before, after, ready, not_before⟩ := h.ahead k x c interrupted awaits hx life
    · simp [free] at current
    · simp only [ready] at at_head ⊢
      cases before with
      | nil =>
        obtain rfl : TaskId.course x = t := by simpa using at_head
        exact .inl rfl
      | cons s before =>
        obtain rfl : s = t := by simpa using at_head
        refine .inr ⟨fun eq => ?_, before, after, rfl, fun mem => not_before (List.mem_cons_of_mem _ mem)⟩
        exact not_before (by simp [Option.some.inj eq])

theorem Happens.ahead {a : Act} (h : Happens e a e') (in_order : a.InOrder) (outline : Outline e e') (placed : e.Placed)
    (ahead : e.Ahead) : e'.Ahead := by
  have choose : Chooses e a e' → e'.Ahead := by
    rintro ⟨place, t, rfl, free, at_place, rfl⟩
    obtain rfl : place = 0 := in_order
    exact ahead.choose free at_place
  rcases h.current with chosen | current
  · exact choose chosen
  rcases h.shuffles with chosen | shuffles
  · exact choose chosen
  obtain ⟨more, ready⟩ := shuffles.ready
  -- the queue loses its head and gains at its end, so who was ahead of a caller stays ahead
  have still_ahead : ∀ k x c' interrupted, e.Awaits k x → e'.courses[x]? = some c' →
      c'.life = .live .opening interrupted → e'.current = some (.course x) ∨
        e'.current ≠ some (.caller k) ∧ ∃ before after, e'.ready = before ++ .course x :: after ∧
          .caller k ∉ before := by
    intro k x c' interrupted awaits hx' life
    have hx := List.getElem?_eq_getElem (ahead.accepted k x awaits)
    obtain ⟨d, hd, fate⟩ := outline.fate hx
    obtain rfl : c' = d := by simpa [hx'] using hd
    obtain ⟨⟨b, before⟩, away⟩ := fate.opening life
    rcases ahead.ahead k x _ b awaits hx before with has_processor | ⟨not_caller, before, after, eq, not_before⟩
    · rw [away has_processor]
      exact .inl has_processor
    · refine .inr ⟨?_, before, after ++ more, by rw [← ready, eq]; simp, not_before⟩
      rcases current with eq | eq | ⟨j, eq⟩ <;> rw [eq]
      · exact not_caller
      · simp
      · simp
  rcases h.awaits with keeps | ⟨k, has_processor, current', ready', length, begins⟩
  · refine ⟨fun j x awaits => ?_, fun j x c' b awaits => still_ahead j x c' b (keeps j x awaits)⟩
    exact Nat.lt_of_lt_of_le (ahead.accepted j x (keeps j x awaits)) outline.length_le
  · refine ⟨fun j x awaits => ?_, fun j x c' b awaits hx' life => ?_⟩
    · rcases begins j x awaits with before | ⟨-, rfl⟩
      · exact Nat.lt_of_lt_of_le (ahead.accepted j x before) outline.length_le
      · omega
    · rcases begins j x awaits with before | ⟨rfl, rfl⟩
      · exact still_ahead j x c' b before hx' life
      · obtain ⟨unready, -⟩ := placed.away has_processor
        exact .inr ⟨by simp [current'], e.ready, [], ready', unready⟩

/-- **An execution begins before its caller can cancel it**, in every sound state that the queue in its order leads to. -/
theorem ReachableBy.ahead (reachable : e.ReachableBy inOrder) (sound : e.Sound) : e.Ahead := by
  obtain ⟨settings, process, bus, registry, run⟩ := reachable
  refine run.induction ⟨_, _, _, _, .refl⟩ sound ⟨?_, ?_⟩ fun e₁ a _ sound₁ _ in_order outline ahead =>
    (sound₁.happens a).ahead in_order outline sound₁.placed ahead
  · rintro k x ⟨c, b, hk, -⟩
    simp [fresh] at hk
  · rintro k x c b - hx
    simp [fresh] at hx

end Order

end Stepflow.Engine
