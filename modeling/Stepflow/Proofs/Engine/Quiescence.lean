import Stepflow.Proofs.Engine.Alertness
import Stepflow.Proofs.Engine.Answering

/-!
# Stepflow.Proofs.Engine.Quiescence — a shutdown that returns leaves nothing behind that is still to come

* `Freed`: only live tasks have a reason for a cancellation.  `Sound.freed`: so it is in every sound state.
* `Emptying`: from the last look of a shutdown on nothing is pending that was not pending then, and the shutdown waits for
  all of it or is done with it.  `Emptying.step` keeps it.
* `Quiescent`: no task is live, no reason is on its way, every call has ended.  `quiescent_of_shutdown`: that is what a
  shutdown that returns leaves, whether or not its time was up.
-/

namespace Stepflow

/-- A task that is over has no reason for a cancellation. -/
def Course.Freed (c : Course) : Prop := c.life.isOver = true → c.reason = none

section Freed

variable {e : Engine} {x : Nat} {c : Course} {eff : Effect}

theorem Course.Freed.of_live (live : c.life.isOver = false) : c.Freed := fun stopped =>
  absurd (live.symm.trans stopped) Bool.false_ne_true

/-- The reason goes with the task. -/
theorem Effect.freed : (eff.course c).Freed := by
  intro stopped
  unfold Effect.course at stopped ⊢
  cases move : eff.move with
  | stop ending => rfl
  | go | yield | wait => simp [move, Engine.lifeAfter, Life.isOver] at stopped

theorem Course.Freed.interrupt (h : c.Freed) : Course.Freed { c with life := c.life.interrupt } := fun stopped =>
  h (c.life.isOver_interrupt.symm.trans stopped)

end Freed

namespace Engine

/-! ## Reasons -/

/-- Only live tasks have a reason for a cancellation. -/
def Freed (e : Engine) : Prop := ∀ (x : Nat) (c : Course), e.courses[x]? = some c → c.Freed

section Freed

variable {e e' : Engine} {x : Nat} {c : Course}

theorem Freed.of_eq (h : e.Freed) (courses : e'.courses = e.courses) : e'.Freed := fun x c at_x =>
  h x c (by rw [← courses]; exact at_x)

theorem Freed.modify {f : Course → Course} (h : e.Freed) (courses : e'.courses = e.courses.modify x f)
    (hf : ∀ c, e.courses[x]? = some c → (f c).Freed) : e'.Freed := by
  intro y c' at_y
  rw [courses, List.getElem?_modify] at at_y
  cases before : e.courses[y]? with
  | none => simp [before] at at_y
  | some c =>
    by_cases same : x = y
    · subst same
      obtain rfl : f c = c' := by simpa [before] using at_y
      exact hf c before
    · obtain rfl : c = c' := by simpa [before, same] using at_y
      exact h y c before

theorem Freed.append {more : List Course} (h : e.Freed) (courses : e'.courses = e.courses ++ more)
    (new : ∀ c ∈ more, c.life.isOver = false) : e'.Freed := by
  intro x c at_x
  rw [courses] at at_x
  rcases Nat.lt_or_ge x e.courses.length with old | beyond
  · exact h x c (by rwa [List.getElem?_append_left old] at at_x)
  · rw [List.getElem?_append_right beyond] at at_x
    exact .of_live (new c (List.mem_of_getElem? at_x))

theorem Freed.submit (h : e.Freed) (a : Execution) : (e.submit a).Freed := by
  refine h.append rfl fun c mem => ?_
  obtain rfl := List.mem_singleton.mp mem
  rfl

theorem Freed.interruptAll (h : e.Freed) (ts : List TaskId) : (e.interruptAll ts).Freed := by
  intro x c' at_x
  rw [interruptAll_courses] at at_x
  cases before : e.courses[x]? with
  | none => simp [before] at at_x
  | some c =>
    obtain rfl : _ = c' := by simpa [before] using at_x
    split
    · exact (h x c before).interrupt
    · exact h x c before

theorem Freed.interrupt (h : e.Freed) (t : TaskId) : (e.interrupt t).Freed := h.interruptAll [t]

/-- A live task is sent a cancellation with its reason. -/
theorem Freed.order (h : e.Freed) (at_x : e.courses[x]? = some c) (live : c.life.isOver = false) {e₁ : Engine}
    {give : Course → Option String} (given : e₁.courses = e.courses.modify x fun c => { c with reason := give c }) :
    (e₁.interrupt (.course x)).Freed := by
  refine Freed.interrupt (h.modify given fun c₁ at_x₁ => ?_) _
  obtain rfl : c = c₁ := Option.some.inj (at_x.symm.trans at_x₁)
  exact .of_live live

theorem Freed.sweep (h : e.Freed) : e.sweep.1.Freed := by
  intro x c' at_x'
  cases at_x : e.courses[x]? with
  | none =>
    have same := (signals_nudging.sweep e).courses.1
    have lt := (List.getElem?_eq_some_iff.mp at_x').1
    have le := List.getElem?_eq_none_iff.mp at_x
    omega
  | some c =>
    obtain rfl : _ = c' := Option.some.inj ((sweep_courses at_x).symm.trans at_x')
    split
    · exact h x c at_x
    · next live => exact .of_live (by simpa [c.life.isOver_interrupt] using live)

theorem Freed.markCanceled (h : e.Freed) (execution : Execution) (reason : String) :
    (e.markCanceled x execution reason).1.Freed := by
  have updated {e : Engine} (h : e.Freed) (f : Execution → Execution) : (e.update x f).Freed :=
    h.modify rfl fun c at_x => h x c at_x
  have announced {e : Engine} (h : e.Freed) (event : Lifecycle) : (e.announce event).1.Freed := by
    refine h.of_eq ?_
    unfold announce
    split <;> rfl
  unfold Engine.markCanceled
  dsimp only
  split
  · next error _ _ =>
      have marked := updated (updated h ({ · with status := .canceled })) (·.endWith e.clock .canceled error)
      exact announced (Freed.of_eq marked (report_courses _ _)) _
  · exact updated h _
  · exact updated h _

theorem Freed.undergo (h : e.Freed) (deed : Deed) : (e.undergo deed).Freed := by
  cases deed with
  | start workflow initial =>
    dsimp only [Engine.undergo, start]
    cases State.freeze initial with
    | error f => exact h
    | ok state => exact h.submit _
  | cancel x id reason =>
    have sent : ∀ y c, e.courses[y]? = some c → (e.sendCancel y c reason).Freed := by
      intro y c at_y
      unfold sendCancel
      cases stopped : c.life.isOver with
      | true => exact h
      | false => exact h.order at_y stopped rfl
    obtain eq | ⟨y, c, -, at_y, eq | eq⟩ := cancel_cases e x id reason <;> simp only [Engine.undergo, eq]
    · exact h
    · exact sent y c at_y
    · exact (sent y c at_y).markCanceled _ _
  | cancelRun k => exact h.interrupt _
  | cancelJoin k =>
    dsimp only [Engine.undergo, cancelJoin]
    split
    · exact h.interrupt _
    · exact (h.interruptAll _).of_eq rfl
  | register stepType offered =>
    dsimp only [Engine.undergo, register]
    split <;> exact h.of_eq rfl
  | pass time =>
    dsimp only [Engine.undergo]
    split <;> exact h.of_eq rfl
  | run | join | shutdown | release | releaseBus | unregister => exact h.of_eq rfl

theorem Happens.freed {a : Act} (happens : Happens e a e') (h : e.Freed) : e'.Freed := by
  cases happens with
  | still => exact h
  | chosen | vacant => exact h.of_eq rfl
  | @course place x c eff journal log current at_x moved =>
    have set : Freed { e with courses := e.courses.set x (eff.course c) } := by
      have modified := (modify_eq_set at_x fun _ => eff.course c).symm
      exact h.modify modified fun _ _ => Effect.freed
    -- the one that moves gives its reason up at its end, a child that it spawns has none yet
    have more : Freed (e.realize x (eff.course c) eff journal log) := by
      refine set.append rfl fun c mem => ?_
      obtain ⟨child, -, rfl⟩ : ∃ child, eff.born = some child ∧ Course.fresh child = c := by simpa using mem
      rfl
    exact more.of_eq (handOn_courses _ _ _)
  | delivery => exact h.of_eq (handOn_courses _ _ _)
  | @caller place k c stage =>
    have moved : (e.moveCaller k stage).1.Freed := by
      cases stage with
      | entering workflow initial =>
        dsimp only [moveCaller]
        cases State.freeze initial with
        | error f => exact h
        | ok state => exact (h.submit (.root e.clock workflow state)).of_eq rfl
      | awaiting | surrendering => exact h
    exact moved.of_eq (handOn_courses _ _ _)
  | @callerCanceled place k c stage =>
    have moved : (e.cancelCaller stage).1.Freed := by
      cases stage with
      | awaiting x =>
        dsimp only [cancelCaller]
        cases stopped : e.isOver (.course x) with
        | true => exact h
        | false =>
          cases at_x : e.courses[x]? with
          | none => simp [isOver, at_x] at stopped
          | some c => exact h.order at_x (by simpa [isOver, at_x] using stopped) rfl
      | entering | surrendering => exact h
    exact moved.of_eq (handOn_courses _ _ _)
  | @joiner place k stage =>
    have moved : (e.moveJoiner stage).1.Freed := by
      cases stage with
      | watching =>
        dsimp only [moveJoiner]
        split <;> exact h
    exact moved.of_eq (handOn_courses _ _ _)
  | joinerCanceled | closerCanceled => exact h.of_eq (handOn_courses _ _ _)
  | @closer place k stage =>
    have moved : (e.moveCloser stage).1.Freed := by
      rcases moveCloser_cases e stage with still | swept
      · rw [still]
        exact h
      · rw [swept]
        exact h.sweep
    exact moved.of_eq (handOn_courses _ _ _)
  | host => exact h.undergo _

/-- **Reasons go with tasks**: in every sound state only live tasks have a reason for a cancellation. -/
theorem Sound.freed (h : e.Sound) : e.Freed := by
  refine h.induction (I := Freed) (fun settings process bus registry x c at_x => ?_) fun e a sound _ _ freed =>
    (sound.happens a).freed freed
  simp [fresh] at at_x

end Freed

/-! ## From the last look of a shutdown on -/

/-- What is pending in `e'` was pending at the last look of shutdown number `k` at `e`; and nothing is, or the caller of
the shutdown has been canceled, or it waits until nothing is. -/
structure Emptying (e : Engine) (k : Nat) (e' : Engine) : Prop where
  within : ∀ t ∈ e'.pending, t ∈ e.pending
  closer : e'.pending = [] ∨ e'.Lost k ∨
    e'.closers[k]? = some (.live .sweeping false) ∧ (TaskId.closer k, Wait.tasks e.pending none) ∈ e'.waits

section Emptying

variable {P : Engine → Act → Prop} {e e' e'' : Engine} {k : Nat} {t : TaskId} {a : Act}

theorem mem_pending_iff : t ∈ e.pending ↔
    e.isOver t = false ∧ ((∃ x, t = .course x) ∨ ∃ j, t = .delivery j) := by
  constructor
  · intro mem
    refine ⟨live_of_pending mem, ?_⟩
    rcases List.mem_append.mp mem with course | delivery
    · obtain ⟨x, -, rfl⟩ := List.mem_map.mp course
      exact .inl ⟨x, rfl⟩
    · obtain ⟨j, -, rfl⟩ := List.mem_map.mp delivery
      exact .inr ⟨j, rfl⟩
  · rintro ⟨live, ⟨x, rfl⟩ | ⟨j, rfl⟩⟩
    · refine course_mem_pending.mpr (mem_running.mpr ⟨?_, live⟩)
      by_contra beyond
      simp [isOver, List.getElem?_eq_none (Nat.not_lt.mp beyond)] at live
    · refine List.mem_append_right _ (List.mem_map_of_mem (List.mem_filter.mpr ⟨?_, by simp [live]⟩))
      by_contra beyond
      have beyond' := Nat.not_lt.mp fun lt => beyond (List.mem_range.mpr lt)
      simp [isOver, List.getElem?_eq_none beyond'] at live

theorem pending_of_lives (lives : ∀ t ∈ e'.pending, e.isOver t = false) : ∀ t ∈ e'.pending, t ∈ e.pending :=
  fun t mem => mem_pending_iff.mpr ⟨lives t mem, (mem_pending_iff.mp mem).2⟩

theorem isOver_interrupt (e : Engine) (t s : TaskId) : (e.interrupt t).isOver s = e.isOver s := by
  have flagged := isOver_flag e t s
  unfold interrupt
  split
  · rfl
  · dsimp only
    split
    · cases s <;> exact flagged
    · exact flagged

theorem isOver_nudging : Nudging fun e e' => ∀ t, e'.isOver t = e.isOver t where
  refl _ _ := rfl
  trans h h' t := (h' t).trans (h t)
  report _ _ _ t := by cases t <;> rfl
  give e x _ := isOver_modifyCourse e x _ fun _ => rfl
  send := isOver_interrupt
  flag e k := isOver_flag e (.joiner k)

/-- After the last look no execution queues a detached call. -/
theorem Closing.undispatched {p : Nat} {c : Course} {eff : Effect} (h : Closing P e k e') (at_p : e'.courses[p]? = some c)
    (moved : Moved e' p c eff) : eff.dispatched = none := by
  have lt : p < e.courses.length := h.length ▸ (List.getElem?_eq_some_iff.mp at_p).1
  have before := List.getElem?_eq_getElem lt
  by_cases running : e.courses[p].execution.status = .running
  · obtain ⟨d, notes, at_p', -, -, doomed⟩ := (h.running p _ before running).doomed
    obtain rfl : c = d := Option.some.inj (at_p.symm.trans at_p')
    exact (doomed.barren moved).2.1
  · obtain ⟨d, at_p', barred⟩ := h.barred p _ before running
    obtain rfl : c = d := Option.some.inj (at_p.symm.trans at_p')
    rw [(barred.barren moved).2]

/-- After the last look nothing is pending that was not pending before. -/
theorem Closing.pending_subset (h : Closing P e k e') (outline : Outline e' e'')
    (unsubmitted : ∀ y c, e.courses.length ≤ y → e''.courses[y]? = some c → c.execution.parent ≠ none) :
    ∀ t ∈ e''.pending, t ∈ e'.pending := by
  refine pending_of_lives fun t mem => ?_
  obtain ⟨live, ⟨x, rfl⟩ | ⟨j, rfl⟩⟩ := mem_pending_iff.mp mem
  · have lt : x < e'.courses.length := h.known outline unsubmitted ▸ (mem_running.mp (course_mem_pending.mp mem)).1
    obtain ⟨c', at_x', fate⟩ := outline.fate (List.getElem?_eq_getElem lt)
    by_contra stopped
    simp only [isOver, List.getElem?_eq_getElem lt, Option.all_some, Bool.not_eq_false] at stopped
    simp [isOver, at_x', fate.over stopped] at live
  · cases at_j' : e''.deliveries[j]? with
    | none => simp [isOver, at_j'] at live
    | some d' =>
      simp only [isOver, at_j', Option.all_some] at live
      rcases outline.delivery_fate at_j' with ⟨d, at_j, signaled | ⟨eff, -, moved, -⟩⟩ |
        ⟨p, c, eff, -, at_p, moved, dispatched, -⟩
      · rcases signaled with rfl | rfl
        · simpa only [isOver, at_j, Option.all_some] using live
        · simpa only [isOver, at_j, Option.all_some, d.life.isOver_interrupt] using live
      · simpa only [isOver, at_j, Option.all_some] using moved.live
      · cases (h.undispatched at_p moved).symm.trans dispatched

/-- The last look finds nothing pending, or the shutdown waits for everything that is. -/
theorem LastLook.emptying (last : e.LastLook k) (place : Nat) : Emptying e k (e.act (.turn place)) := by
  obtain ⟨current, deadline, flushing, reason⟩ := last
  rw [lookAround_eq current flushing]
  have same (r : Engine × Move CloserStage) : (settleCloser k r).pending = r.1.pending := by
    have courses : (settleCloser k r).courses = r.1.courses := handOn_courses _ _ _
    have deliveries : (settleCloser k r).deliveries = r.1.deliveries := handOn_deliveries _ _ _
    simp only [pending, running, dispatches, isOver, courses, deliveries]
  by_cases empty : e.pending.isEmpty = true
  · have quiet : (settleCloser k (e.moveCloser (.flushing deadline))).pending = [] := by
      simp only [same, moveCloser, if_pos empty]
      exact List.isEmpty_iff.mp empty
    exact ⟨by simp [quiet], .inl quiet⟩
  · have late : deadline ≤ e.clock := reason.resolve_left empty
    have swept : e.moveCloser (.flushing deadline) = e.sweep := by simp only [moveCloser, if_neg empty, if_pos late]
    rw [swept]
    refine ⟨?within, .inr (.inr ⟨?closer, by simp [settleCloser, sweep, handOn]⟩)⟩
    case within =>
      rw [same]
      exact pending_of_lives fun t mem => (isOver_nudging.sweep e t).symm.trans (live_of_pending mem)
    case closer =>
      have left := ((leaves_nudging k).sweep e).closer _ flushing
      obtain ⟨life, at_k⟩ : ∃ life, e.sweep.1.closers[k]? = some life := by
        rcases left with at_k | ⟨stage, at_k⟩ | at_k <;> exact ⟨_, at_k⟩
      exact settleCloser_at at_k

theorem Emptying.step (h : Emptying e k e') (closing : Closing P e k e') (sound : e'.Sound)
    (unsubmitted : ∀ y c, e.courses.length ≤ y → (e'.act a).courses[y]? = some c → c.execution.parent ≠ none) :
    Emptying e k (e'.act a) := by
  have fewer := closing.pending_subset (sound.outline a) unsubmitted
  have happens := sound.happens a
  refine ⟨fun t mem => h.within t (fewer t mem), ?_⟩
  rcases h.closer with quiet | lost | ⟨sweeping, waits⟩
  · exact .inl (List.subset_nil.mp (quiet ▸ fewer))
  · exact .inr (.inl (happens.lost lost))
  · have away : e'.current ≠ some (.closer k) := fun current => by
      obtain ⟨-, elsewhere⟩ := sound.placed.away current
      exact elsewhere (List.mem_map_of_mem (f := Prod.fst) waits)
    have attends := happens.attends away
    rcases attends.closer _ sweeping with sweeping | lost
    · rcases attends.waits _ waits with waits | lost | stopped
      · exact .inr (.inr ⟨sweeping, waits⟩)
      · exact .inr (.inl lost)
      · refine .inl (List.eq_nil_iff_forall_not_mem.mpr fun t mem => ?_)
        have live := live_of_pending mem
        exact Bool.false_ne_true (live.symm.trans (stopped t (h.within t (fewer t mem))))
    · exact .inr (.inl lost)

end Emptying

/-! ## What a shutdown leaves behind -/

/-- No task is live, no reason is on its way, and every call that has begun has ended since. -/
structure Quiescent (e : Engine) : Prop where
  running : e.running = []
  dispatches : e.dispatches = []
  reasons : ∀ x, e.reason? x = none
  answered : ∀ earlier x index slot payload later, e.calls = earlier ++ .begun x index slot payload :: later →
    ∃ result, .ended x index result ∈ later

section Quiescent

variable {P : Engine → Act → Prop} {e e' : Engine} {k : Nat}

theorem Sound.quiescent (sound : e.Sound) (empty : e.pending = []) : e.Quiescent := by
  have everywhere (t : TaskId) (kind : (∃ x, t = .course x) ∨ ∃ j, t = .delivery j) : e.isOver t = true := by
    by_contra live
    have mem : t ∈ e.pending := mem_pending_iff.mpr ⟨by simpa using live, kind⟩
    simp [empty] at mem
  have stopped : ∀ (x : Nat) (c : Course), e.courses[x]? = some c → c.life.isOver = true := by
    intro x c at_x
    simpa [isOver, at_x] using everywhere (.course x) (.inl ⟨x, rfl⟩)
  obtain ⟨running, dispatches⟩ := List.append_eq_nil_iff.mp empty
  refine ⟨List.map_eq_nil_iff.mp running, List.map_eq_nil_iff.mp dispatches, fun x => ?_, ?_⟩
  · cases at_x : e.courses[x]? with
    | none => simp [reason?, at_x]
    | some c => simp [reason?, at_x, sound.freed x c at_x (stopped x c at_x)]
  · intro earlier x index slot payload later begun
    refine sound.answering.answered (fun c mem => ?_) (fun d mem => ?_) begun
    · obtain ⟨y, at_y⟩ := List.mem_iff_getElem?.mp mem
      exact stopped y c at_y
    · obtain ⟨j, at_j⟩ := List.mem_iff_getElem?.mp mem
      simpa [isOver, at_j] using everywhere (.delivery j) (.inr ⟨j, rfl⟩)

/-- What the host submits is without a parent, and stays so. -/
theorem Outline.unsubmitted {n : Nat} (outline : Outline e e')
    (unsubmitted : ∀ y c, n ≤ y → e'.courses[y]? = some c → c.execution.parent ≠ none) :
    ∀ y c, n ≤ y → e.courses[y]? = some c → c.execution.parent ≠ none := by
  intro y c le at_y
  obtain ⟨c', at_y', fate⟩ := outline.fate at_y
  rw [← Execution.parent_eq fate.origin_eq]
  exact unsubmitted y c' le at_y'

/-- What is pending after the last look is so until the end. -/
theorem LastLook.reaches_emptying (last : e.LastLook k) (sound : e.Sound) {place : Nat}
    (run : Reaches P (e.act (.turn place)) e') (sound' : e'.Sound)
    (unsubmitted : ∀ y c, e.courses.length ≤ y → e'.courses[y]? = some c → c.execution.parent ≠ none) :
    Emptying e k e' := by
  have turn : Reaches anyOrder e (e.act (.turn place)) := .single trivial
  have inv : (∀ y c, e.courses.length ≤ y → e'.courses[y]? = some c → c.execution.parent ≠ none) →
      Closing P e k e' ∧ Emptying e k e' := by
    refine run.induction (I := fun e₁ => (∀ y c, e.courses.length ≤ y → e₁.courses[y]? = some c →
      c.execution.parent ≠ none) → Closing P e k e₁ ∧ Emptying e k e₁) (sound.reachable.trans turn) sound'
      (fun _ => ⟨last.closing sound place, last.emptying place⟩) fun e₁ a _ sound₁ _ admitted outline inv later => ?_
    obtain ⟨closing, emptying⟩ := inv (outline.unsubmitted later)
    exact ⟨closing.step sound sound₁ admitted later, emptying.step closing sound₁ later⟩
  exact (inv unsubmitted).2

/-- **A shutdown that returns leaves nothing pending**, whether or not its time was up. -/
theorem quiescent_of_shutdown (reachable : e.Reachable) (free : e.current = none) (timeout : Option Rat)
    (run : Reaches P (e.act (.host (.shutdown timeout))) e') (returned : e'.Returned e.closers.length)
    (unsubmitted : ∀ y c, e.courses.length ≤ y → e'.courses[y]? = some c → c.execution.parent ≠ none)
    (calm : e'.Calm) (named : e'.WellNamed) : e'.Quiescent := by
  have begun : (e.act (.host (.shutdown timeout))).closers[e.closers.length]? =
      some (.live (.flushing (e.clock + timeout.getD e.settings.flushTimeout)) false) := by
    simp [act, free, undergo, beginShutdown]
  have first : Reaches anyOrder e (e.act (.host (.shutdown timeout))) := .single trivial
  have any : ∀ {e₁ e₂}, Reaches P e₁ e₂ → Reaches anyOrder e₁ e₂ := fun run => run.mono fun _ _ _ => trivial
  have reachable₁ : Reachable (e.act (.host (.shutdown timeout))) := reachable.trans first
  have sound' := Reachable.sound (reachable₁.trans (any run)) calm named
  obtain ⟨look, place, to_look, last, admitted, on⟩ := exists_lastLook run reachable₁ sound' begun returned
  have look_sound := sound'.of_reaches (reachable₁.trans (any to_look)) ((Reaches.single admitted).trans on)
  have le : e.courses.length ≤ look.courses.length := by
    refine to_look.induction (I := fun e₁ => e.courses.length ≤ e₁.courses.length) reachable₁ look_sound ?_
      fun _ _ _ _ _ _ outline le => Nat.le_trans le outline.length_le
    simp [act, free, undergo, beginShutdown]
  refine sound'.quiescent ?_
  have emptying := last.reaches_emptying look_sound on sound' fun y c later => unsubmitted y c (Nat.le_trans le later)
  rcases emptying.closer with quiet | (⟨stage, lost⟩ | lost) | ⟨sweeping, -⟩
  · exact quiet
  · simp [returned.closers_eq] at lost
  · simp [returned.closers_eq] at lost
  · simp [returned.closers_eq] at sweeping

end Quiescent

end Engine

end Stepflow
