import Stepflow.Proofs.Engine.Bystanders
import Stepflow.Proofs.Engine.Shutdown
import Stepflow.Proofs.Engine.Waiting

/-!
# Stepflow.Proofs.Engine.Dispatching — a detached call begins before its step counts as handled

An execution that queues a detached call goes to the end of the queue itself.  With the queue served in order, the call
has the processor before the execution moves again, and it begins unless a shutdown has canceled it, which cancels the
execution as well.

* `Enters`: a detached call has not begun.
* `Happens.deliveries`: an act lets detached calls be, or moves one of them, or is the sweep of a shutdown.
* `Entering`: where an execution stands whose detached call has not begun, and that it is behind that call in the queue.
  `ReachableBy.entering`: so it is in every sound state that the queue in its order leads to.
-/

namespace Stepflow

/-- A detached call that has moved has begun or never will. -/
theorem MovedDelivery.not_entering {e : Engine} {d : Delivery} {eff : DeliveryEffect} (h : MovedDelivery e d eff)
    (interrupted : Bool) : Engine.lifeAfter eff.move ≠ .live .entering interrupted := by
  cases h with
  | delivered life delivers => cases delivers <;> simp [Engine.lifeAfter]
  | @diverted stage life => cases stage <;> simp [Engine.cancelDelivery, Engine.lifeAfter]

namespace Engine

/-- Detached call number `k` has not begun; `interrupted` tells whether a cancellation is on its way to it. -/
def Enters (e : Engine) (k : Nat) (d : Delivery) (interrupted : Bool) : Prop :=
  e.deliveries[k]? = some d ∧ d.life = .live .entering interrupted

/-! ## What becomes of detached calls -/

section Deliveries

variable {e e' : Engine} {k : Nat} {d : Delivery} {a : Act}

theorem interrupt_deliveries (e : Engine) {t : TaskId} (ne : ∀ k, t ≠ .delivery k) :
    (e.interrupt t).deliveries = e.deliveries := by
  have flagged : (e.flag t).deliveries = e.deliveries := by
    cases t with
    | delivery k => exact absurd rfl (ne k)
    | course | caller | joiner | closer => rfl
  unfold interrupt
  split
  · rfl
  · dsimp only
    split <;> exact flagged

theorem interruptAll_deliveries (ts : List TaskId) (e : Engine) (courses : ∀ t ∈ ts, ∃ x, t = .course x) :
    (e.interruptAll ts).deliveries = e.deliveries := by
  induction ts generalizing e with
  | nil => rfl
  | cons t ts ih =>
    obtain ⟨x, rfl⟩ := courses t List.mem_cons_self
    have rest := ih (e.interrupt (.course x)) fun t mem => courses t (List.mem_cons_of_mem _ mem)
    exact rest.trans (interrupt_deliveries e (by simp))

theorem undergo_deliveries (waiting : e.Waiting) (deed : Deed) : (e.undergo deed).deliveries = e.deliveries := by
  cases deed with
  | start workflow initial =>
    dsimp only [undergo, start]
    cases State.freeze initial <;> rfl
  | cancel x id reason =>
    have sent : ∀ y c, (e.sendCancel y c reason).deliveries = e.deliveries := by
      intro y c
      unfold sendCancel
      split
      · rfl
      · exact interrupt_deliveries _ (by simp)
    obtain eq | ⟨y, c, -, -, eq | eq⟩ := cancel_cases e x id reason <;> simp only [undergo, eq]
    · exact sent y c
    · exact (markCanceled_frame _ _ _ _).1.trans (sent y c)
  | cancelRun k => exact interrupt_deliveries e (by simp)
  | cancelJoin k =>
    dsimp only [undergo, cancelJoin]
    split
    · exact interrupt_deliveries e (by simp)
    · exact interruptAll_deliveries _ e fun t mem => waiting.awaited t (List.mem_of_mem_filter mem)
  | register stepType offered =>
    dsimp only [undergo, register]
    split <;> rfl
  | pass time =>
    dsimp only [undergo]
    split <;> rfl
  | run | join | shutdown | release | releaseBus | unregister => rfl

/-- A caller of `shutdown` changes no task but in a sweep. -/
theorem moveCloser_cases (e : Engine) (stage : CloserStage) :
    (e.moveCloser stage).1 = e ∨ e.moveCloser stage = e.sweep := by
  cases stage with
  | flushing deadline =>
    dsimp only [moveCloser]
    split
    · exact .inl rfl
    · split
      · exact .inr rfl
      · exact .inl rfl
  | sweeping => exact .inl rfl

/-- **What becomes of detached calls**: they are as they were, and there may be one more; or one of them has moved; or a
shutdown has canceled everything pending. -/
theorem Happens.deliveries (h : Happens e a e') (waiting : e.Waiting) : e.deliveries <+: e'.deliveries ∨
    (∃ k d eff, e.current = some (.delivery k) ∧ e.deliveries[k]? = some d ∧ MovedDelivery e d eff ∧
      e'.deliveries = e.deliveries.set k { d with life := lifeAfter eff.move }) ∨
    (∃ k, e.current = some (.closer k)) ∧ e'.courses = e.sweep.1.courses := by
  have kept : e'.deliveries = e.deliveries → e.deliveries <+: e'.deliveries := fun eq => ⟨[], by rw [eq, List.append_nil]⟩
  cases h with
  | still | chosen | vacant => exact .inl (kept rfl)
  | course =>
    refine .inl ?_
    rw [handOn_deliveries]
    exact List.prefix_append _ _
  | delivery current at_k moved =>
    exact .inr (.inl ⟨_, _, _, current, at_k, moved, handOn_deliveries _ _ _⟩)
  | @caller place k c stage =>
    refine .inl (kept ((handOn_deliveries _ _ _).trans ?_))
    cases stage with
    | entering workflow initial =>
      dsimp only [moveCaller]
      cases State.freeze initial <;> rfl
    | awaiting | surrendering => rfl
  | @callerCanceled place k c stage =>
    refine .inl (kept ((handOn_deliveries _ _ _).trans ?_))
    cases stage with
    | awaiting x =>
      dsimp only [cancelCaller]
      split
      · rfl
      · exact interrupt_deliveries _ (by simp)
    | entering | surrendering => rfl
  | @joiner place k stage =>
    refine .inl (kept ((handOn_deliveries _ _ _).trans ?_))
    cases stage with
    | watching =>
      dsimp only [moveJoiner]
      split <;> rfl
  | joinerCanceled | closerCanceled => exact .inl (kept (handOn_deliveries _ _ _))
  | @closer place k stage current =>
    -- a shutdown leaves them alone until its time is up
    rcases moveCloser_cases e stage with still | swept
    · exact .inl (kept ((handOn_deliveries _ _ _).trans (by rw [still])))
    · exact .inr (.inr ⟨⟨k, current⟩, (handOn_courses _ _ _).trans (by rw [swept])⟩)
  | host => exact .inl (kept (undergo_deliveries waiting _))

end Deliveries

/-! ## Detached calls that have not begun -/

/-- Where the execution of a detached call stands that has not begun: at the step of the call, and behind it in the queue. -/
structure Entering (e : Engine) : Prop where
  stands : ∀ k d interrupted, e.Enters k d interrupted → ∃ c canceled, e.courses[d.execution]? = some c ∧
    c.life = .live (.handled d.index none .dispatched none) canceled ∧ (interrupted = true → canceled = true)
  ahead : ∀ k d interrupted, e.Enters k d interrupted → e.current = some (.delivery k) ∨
    e.current ≠ some (.course d.execution) ∧
      ∃ before after, e.ready = before ++ .delivery k :: after ∧ .course d.execution ∉ before
  single : ∀ j k d₁ d₂ b₁ b₂, e.Enters j d₁ b₁ → e.Enters k d₂ b₂ → d₁.execution = d₂.execution → j = k

section Entering

variable {e e' : Engine} {k : Nat} {d d' : Delivery} {interrupted : Bool} {a : Act}

/-- The task of an execution whose detached call has not begun does not have the processor. -/
theorem Entering.away (h : e.Entering) (enters : e.Enters k d interrupted) :
    e.current ≠ some (.course d.execution) := by
  rcases h.ahead k d interrupted enters with current | ⟨away, -⟩
  · simp [current]
  · exact away

theorem Entering.choose {t : TaskId} (h : e.Entering) (free : e.current = none) (at_head : e.ready[0]? = some t) :
    Entering { e with current := some t, ready := e.ready.eraseIdx 0 } where
  stands := h.stands
  single := h.single
  ahead := by
    intro k d interrupted enters
    obtain current | ⟨-, before, after, ready, not_before⟩ := h.ahead k d interrupted enters
    · simp [free] at current
    · simp only [ready] at at_head ⊢
      cases before with
      | nil =>
        obtain rfl : TaskId.delivery k = t := by simpa using at_head
        exact .inl rfl
      | cons s before =>
        obtain rfl : s = t := by simpa using at_head
        refine .inr ⟨fun eq => ?_, before, after, rfl, fun mem => not_before (List.mem_cons_of_mem _ mem)⟩
        exact not_before (by simp [Option.some.inj eq])

/-- A detached call that is new has been queued by the execution that has moved, which is behind it in the queue. -/
theorem Happens.enters_new (h : Happens e a e') (outline : Outline e e') (at_k : e'.deliveries[k]? = some d')
    (new : e.deliveries.length ≤ k) : ∃ x c eff, e.current = some (.course x) ∧ e.courses[x]? = some c ∧
      Moved e x c eff ∧ eff.dispatched = some d' ∧ e'.courses[x]? = some (eff.course c) ∧ e'.current = none ∧
      k = e.deliveries.length ∧ e'.ready = e.ready ++ [.delivery k, .course x] := by
  have missing : e.deliveries[k]? = none := List.getElem?_eq_none new
  -- there was no such call before, so an execution has queued it, and is the task that moves
  rcases outline.delivery_fate at_k with ⟨d, known, -⟩ | ⟨x, c, -, current, -⟩
  · rw [missing] at known
    cases known
  cases h with
  | still | vacant =>
    have known : e.deliveries[k]? = some d' := at_k
    rw [missing] at known
    cases known
  | chosen free | host free => simp [free] at current
  | delivery current' | caller current' | callerCanceled current' | joiner current' | joinerCanceled current'
  | closer current' | closerCanceled current' => simp [current'] at current
  | @course place y d eff journal log current' at_y moved =>
    rw [handOn_deliveries, realize, List.getElem?_append_right new] at at_k
    cases dispatched : eff.dispatched with
    | none => simp [dispatched] at at_k
    | some queued =>
      have first : k - e.deliveries.length = 0 := by
        have lt := (List.getElem?_eq_some_iff.mp at_k).1
        simp only [dispatched, Option.toList_some, List.length_singleton] at lt
        omega
      obtain rfl : queued = d' := by simpa [dispatched, first] using at_k
      obtain rfl : k = e.deliveries.length := by omega
      have unborn : eff.born = none := by simpa [dispatched] using moved.born_or_dispatched
      obtain ⟨index, step, handler, -, -, -, -, -, move⟩ := moved.dispatched_eq dispatched
      have lt := (List.getElem?_eq_some_iff.mp at_y).1
      refine ⟨y, d, eff, current', at_y, moved, dispatched, ?_, ?_, rfl, ?_⟩
      · rw [handOn_courses, realize]
        simp [unborn, lt]
      · rw [move]
        rfl
      · rw [move]
        simp [handOn, realize, unborn, dispatched]

/-- A detached call that has not begun had not before, or it is new; only a sweep may have sent it a cancellation. -/
theorem Happens.enters_old (h : Happens e a e') (waiting : e.Waiting) (outline : Outline e e')
    (enters : e'.Enters k d' interrupted) (old : k < e.deliveries.length) : ∃ d b, e.Enters k d b ∧
      d'.execution = d.execution ∧ d'.index = d.index ∧ (interrupted = b ∨ e'.courses = e.sweep.1.courses) := by
  obtain ⟨at_k, life⟩ := enters
  rcases h.deliveries waiting with ⟨more, eq⟩ | ⟨j, d, eff, -, at_j, moved, deliveries⟩ | ⟨⟨j, current⟩, swept⟩
  · rw [← eq, List.getElem?_append_left old] at at_k
    exact ⟨d', interrupted, ⟨at_k, life⟩, rfl, rfl, .inl rfl⟩
  · by_cases hjk : j = k
    · subst hjk
      rw [deliveries, set_getElem? at_j] at at_k
      obtain rfl := Option.some.inj at_k
      exact absurd life (moved.not_entering interrupted)
    · rw [deliveries, List.getElem?_set_ne hjk] at at_k
      exact ⟨d', interrupted, ⟨at_k, life⟩, rfl, rfl, .inl rfl⟩
  · rcases outline.delivery_fate at_k with ⟨d, before, signaled | ⟨eff, has, -⟩⟩ | ⟨x, c, eff, has, -⟩
    · rcases signaled with rfl | rfl
      · exact ⟨_, interrupted, ⟨before, life⟩, rfl, rfl, .inl rfl⟩
      · cases was : d.life with
        | ended ending => simp [was, Life.interrupt] at life
        | live stage b =>
          simp only [was, Life.interrupt, Life.live.injEq] at life
          exact ⟨d, b, ⟨before, by rw [was, life.1]⟩, rfl, rfl, .inr swept⟩
    · simp [current] at has
    · simp [current] at has

/-- A detached call that has the processor has not begun afterwards only if it does not move. -/
theorem Happens.still_of_enters {b : Bool} (h : Happens e a e') (current : e.current = some (.delivery k))
    (enters : e.Enters k d b) (enters' : e'.Enters k d' interrupted) : e' = e := by
  obtain ⟨at_k, life⟩ := enters
  obtain ⟨at_k', life'⟩ := enters'
  cases h with
  | still => rfl
  | chosen free | host free => simp [free] at current
  | vacant current' stopped =>
    obtain rfl := Option.some.inj (current'.symm.trans current)
    simp [isOver, at_k, life, Life.isOver] at stopped
  | course current' | caller current' | callerCanceled current' | joiner current' | joinerCanceled current'
  | closer current' | closerCanceled current' => simp [current'] at current
  | delivery current' at_j moved =>
    simp only [current', Option.some.injEq, TaskId.delivery.injEq] at current
    subst current
    rw [handOn_deliveries, realizeDelivery, set_getElem? at_j] at at_k'
    obtain rfl := Option.some.inj at_k'
    exact absurd life' (moved.not_entering interrupted)

/-- What happens to the execution of a detached call that has not begun leaves it where it stands. -/
theorem Entering.kept (entering : e.Entering) (standing : e.Standing) (outline : Outline e e') {b : Bool}
    (enters : e.Enters k d b) : ∃ c canceled, e'.courses[d.execution]? = some c ∧
      c.life = .live (.handled d.index none .dispatched none) canceled ∧ (b = true → canceled = true) := by
  obtain ⟨c, canceled, hx, life, canceled_of⟩ := entering.stands k d b enters
  obtain ⟨c', hx', fate⟩ := outline.fate hx
  have stands := standing.stands _ c hx
  rw [life] at stands
  refine ⟨c', ?_⟩
  cases fate with
  | kept => exact ⟨canceled, hx', life, canceled_of⟩
  | moved current => exact absurd current (entering.away enters)
  | touched touched =>
    rcases touched.life_eq with same | flagged
    · exact ⟨canceled, hx', by rw [same, life], canceled_of⟩
    · exact ⟨true, hx', by rw [flagged, life]; rfl, fun _ => rfl⟩

section Step

variable (h : Happens e a e') (sound : e.Sound) (outline : Outline e e') (detached : e.Entering)

include h sound outline detached

/-- An act leaves the execution of a detached call that has not begun at the step of the call. -/
theorem Happens.enters_stands (enters : e'.Enters k d' interrupted) : ∃ c canceled,
    e'.courses[d'.execution]? = some c ∧ c.life = .live (.handled d'.index none .dispatched none) canceled ∧
      (interrupted = true → canceled = true) := by
  rcases Nat.lt_or_ge k e.deliveries.length with lt | new
  · obtain ⟨d, b, before, execution, index, flag⟩ := h.enters_old sound.waiting outline enters lt
    rw [execution, index]
    rcases flag with rfl | swept
    · exact detached.kept sound.standing outline before
    · obtain ⟨c, _, hx, life, -⟩ := detached.stands k d b before
      have after := sweep_courses hx
      simp only [life, Life.isOver, Bool.false_eq_true, if_false] at after
      exact ⟨_, true, by rw [swept]; exact after, rfl, fun _ => rfl⟩
  · obtain ⟨x, c, eff, -, -, moved, dispatched, hx', -⟩ := h.enters_new outline enters.1 new
    obtain ⟨index, step, handler, rfl, -, -, -, -, move⟩ := moved.dispatched_eq dispatched
    refine ⟨_, false, hx', by simp [Effect.course, move, lifeAfter], fun flagged => ?_⟩
    obtain rfl : false = interrupted := by simpa using enters.2
    cases flagged

/-- Unless a task is chosen, a detached call that has not begun stays ahead of its execution. -/
theorem Happens.enters_ahead (shuffles : Shuffles e e')
    (current : e'.current = e.current ∨ e'.current = none ∨ ∃ j, e'.current = some (.closer j))
    (enters : e'.Enters k d' interrupted) : e'.current = some (.delivery k) ∨
      e'.current ≠ some (.course d'.execution) ∧
        ∃ before after, e'.ready = before ++ .delivery k :: after ∧ .course d'.execution ∉ before := by
  obtain ⟨more, ready⟩ := shuffles.ready
  rcases Nat.lt_or_ge k e.deliveries.length with lt | new
  · obtain ⟨d, b, before, execution, -⟩ := h.enters_old sound.waiting outline enters lt
    rw [execution]
    rcases detached.ahead k d b before with has_processor | ⟨away, front, after, eq, not_front⟩
    · rw [h.still_of_enters has_processor before enters]
      exact .inl has_processor
    · refine .inr ⟨?_, front, after ++ more, by rw [← ready, eq]; simp, not_front⟩
      rcases current with eq | eq | ⟨j, eq⟩ <;> rw [eq]
      · exact away
      · simp
      · simp
  · obtain ⟨x, c, eff, has_processor, -, moved, dispatched, -, free, -, ready'⟩ := h.enters_new outline enters.1 new
    obtain ⟨index, step, handler, rfl, -⟩ := moved.dispatched_eq dispatched
    obtain ⟨unready, -⟩ := sound.placed.away has_processor
    exact .inr ⟨by simp [free], e.ready, [.course x], ready', unready⟩

/-- While a detached call has not begun its execution queues no other. -/
theorem Happens.old_of_enters {j : Nat} {d₁ d₂ : Delivery} {b₁ b₂ : Bool} (enters₁ : e'.Enters j d₁ b₁)
    (enters₂ : e'.Enters k d₂ b₂) (same : d₁.execution = d₂.execution) (lt : j < e.deliveries.length) :
    k < e.deliveries.length := by
  by_contra new
  obtain ⟨d, b, before, execution, -⟩ := h.enters_old sound.waiting outline enters₁ lt
  obtain ⟨x, c, eff, has_processor, -, moved, dispatched, -⟩ := h.enters_new outline enters₂.1 (Nat.not_lt.mp new)
  obtain ⟨index, step, handler, rfl, -⟩ := moved.dispatched_eq dispatched
  have away := detached.away before
  rw [← execution, same] at away
  exact away has_processor

theorem Happens.enters_single {j : Nat} {d₁ d₂ : Delivery} {b₁ b₂ : Bool} (enters₁ : e'.Enters j d₁ b₁)
    (enters₂ : e'.Enters k d₂ b₂) (same : d₁.execution = d₂.execution) : j = k := by
  have both : j < e.deliveries.length ↔ k < e.deliveries.length :=
    ⟨h.old_of_enters sound outline detached enters₁ enters₂ same,
      h.old_of_enters sound outline detached enters₂ enters₁ same.symm⟩
  by_cases lt : j < e.deliveries.length
  · obtain ⟨d, b, before, execution, -⟩ := h.enters_old sound.waiting outline enters₁ lt
    obtain ⟨d', b', before', execution', -⟩ := h.enters_old sound.waiting outline enters₂ (both.mp lt)
    exact detached.single j k d d' b b' before before' (by rw [← execution, ← execution', same])
  · have lt' := fun lt' => lt (both.mpr lt')
    obtain ⟨_, _, _, -, -, -, -, -, -, rfl, -⟩ := h.enters_new outline enters₁.1 (Nat.not_lt.mp lt)
    obtain ⟨_, _, _, -, -, -, -, -, -, rfl, -⟩ := h.enters_new outline enters₂.1 (Nat.not_lt.mp lt')
    rfl

theorem Happens.entering (in_order : a.InOrder) : e'.Entering := by
  have choose : Chooses e a e' → e'.Entering := by
    rintro ⟨place, t, rfl, free, at_place, rfl⟩
    obtain rfl : place = 0 := in_order
    exact detached.choose free at_place
  rcases h.current with chosen | current
  · exact choose chosen
  rcases h.shuffles with chosen | shuffles
  · exact choose chosen
  exact ⟨fun _ _ _ => h.enters_stands sound outline detached,
    fun _ _ _ => h.enters_ahead sound outline detached shuffles current,
    fun _ _ _ _ _ _ => h.enters_single sound outline detached⟩

end Step

/-- **A detached call begins before its execution moves on**, in every sound state that the queue in its order leads to. -/
theorem ReachableBy.entering (reachable : e.ReachableBy inOrder) (sound : e.Sound) : e.Entering := by
  obtain ⟨settings, process, bus, registry, run⟩ := reachable
  refine run.induction ⟨_, _, _, _, .refl⟩ sound ⟨?_, ?_, ?_⟩ fun e₁ a _ sound₁ _ in_order outline entering =>
    (sound₁.happens a).entering sound₁ outline entering in_order
  · rintro k d b ⟨at_k, -⟩
    simp [fresh] at at_k
  · rintro k d b ⟨at_k, -⟩
    simp [fresh] at at_k
  · rintro j k d₁ d₂ b₁ b₂ ⟨at_j, -⟩
    simp [fresh] at at_j

end Entering

end Engine

end Stepflow
