import Stepflow.Proofs.Engine.Ahead
import Stepflow.Proofs.Engine.Bystanders
import Stepflow.Proofs.Engine.Shutdown

/-!
# Stepflow.Proofs.Engine.Joining — no execution is left behind, and a join waits for all

* `Mild`: the acts of a host that may cancel executions and callers of `run`, but no caller of `join`, and whose shutdowns
  do not time out.
* `Tended`: an execution that is idle has its first turn before it, and a reason for a cancellation is kept only as long
  as the task is live.  `ReachableBy.tended`: so it is for every execution, since whoever sends a cancellation to an
  execution that has not begun marks it as canceled as well.
* `Joined`: a caller of `join` has returned.  `Happens.joined`: it returns when nothing is running.
* `custody_of_mild`: what this comes to for executions that have not ended, for reasons and for those who join.
-/

namespace Stepflow

/-! ## Executions that have not begun -/

/-- What is idle waits for its first turn and is sent no cancellation; what is over keeps no reason for one. -/
structure Tended (c : Course) : Prop where
  waits : c.execution.status = .idle → c.life = .live .opening false
  released : c.life.isOver = true → c.reason = none

section Tended

variable {e e' : Engine} {x : Nat} {c c' : Course} {eff : Effect}

/-- No execution becomes idle. -/
theorem Moved.idle (h : Moved e x c eff) (idle : eff.execution.status = .idle) : c.execution.status = .idle := by
  cases h with
  | diverted => exact idle
  | advanced life advance => cases advance <;> first | exact idle | cases idle

theorem Tended.fresh (a : Execution) : Tended (.fresh a) := ⟨fun _ => rfl, fun stopped => by cases stopped⟩

/-- The first turn of an execution ends its being idle, and the end of its task takes the reason with it. -/
theorem Tended.moved (h : Tended c) (moved : Moved e x c eff) : Tended (eff.course c) where
  waits idle := by
    have opening := h.waits (moved.idle idle)
    cases moved with
    | diverted life => simp [opening] at life
    | advanced life advance =>
      obtain rfl : Stage.opening = _ := by simpa [opening] using life
      cases advance
      cases idle
  released stopped := by
    unfold Effect.course at stopped ⊢
    cases move : eff.move with
    | stop ending => rfl
    | go | yield | wait => simp [move, Engine.lifeAfter, Life.isOver] at stopped

/-- What has begun stays tended when its live task is sent a cancellation. -/
theorem Tended.of_begun (live : c.life.isOver = false) (begun : c.execution.status ≠ .idle) : Tended c where
  waits idle := absurd idle begun
  released stopped := by
    rw [live] at stopped
    cases stopped

/-- Of tended executions only those that have ended have tasks that are over. -/
theorem Tended.live {maxDepth : Int} (h : Tended c) (stands : Stands maxDepth c.execution c.scheduled c.life)
    (unfinished : c.execution.isFinished = false) : c.life.isOver = false := by
  cases life : c.life with
  | live => rfl
  | ended ending =>
    have unbegun := stands.unbegun_of_over (by rw [life]; rfl) unfinished
    simp [h.waits unbegun.status_eq] at life

end Tended

namespace Engine

/-- A shutdown whose time is up has its turn while something is pending. -/
def TimesOut (e : Engine) : Act → Prop
  | .turn _ => ∃ k deadline, e.current = some (.closer k) ∧
      e.closers[k]? = some (.live (.flushing deadline) false) ∧ deadline ≤ e.clock ∧ e.pending ≠ []
  | .host _ => False

/-- The ready tasks in the order of the queue; no caller of `join` is canceled and no shutdown times out. -/
structure Mild (e : Engine) (a : Act) : Prop where
  inOrder : a.InOrder
  joins : ∀ k, a ≠ .host (.cancelJoin k)
  patient : ¬ e.TimesOut a

section Tended

variable {e e' : Engine} {x : Nat} {c c' : Course} {a : Act}

/-- The host cancels an execution. -/
theorem Sound.tended_cancel (sound : e.Sound) (hx : e.courses[x]? = some c) (tended : Tended c) (id reason : String)
    (hx' : (e.cancel (some x) id reason).1.courses[x]? = some c') : Tended c' := by
  by_cases finished : c.execution.isFinished = true
  · obtain rfl : c = c' := by simpa [cancel, hx, finished] using hx'
    exact tended
  · have unfinished : c.execution.isFinished = false := by simpa using finished
    have live := tended.live (sound.standing.stands x c hx) unfinished
    obtain ⟨names, names_eq⟩ := sound.orderly.names hx
    obtain ⟨d, touched, courses, life, -⟩ := cancel_touched sound.calm hx names_eq unfinished id reason
    obtain rfl : d = c' := by simpa [courses, set_getElem? hx] using hx'
    refine .of_begun (by rw [life, c.life.isOver_interrupt, live]) ?_
    rcases touched with ⟨signaled, begun⟩ | marked
    · rw [signaled.execution]
      exact begun
    · cases marked <;> simp

/-- The canceled caller of `run` that waits for an execution cancels it.  With the queue in its order that execution has
begun. -/
theorem ReachableBy.tended_abandoned (reachable : e.ReachableBy inOrder) (sound : e.Sound)
    (hx : e.courses[x]? = some c) (tended : Tended c) {k place : Nat} {caller : Caller}
    (current : e.current = some (.caller k)) (at_k : e.callers[k]? = some caller)
    (life : caller.life = .live (.awaiting x) true) (hx' : (e.act (.turn place)).courses[x]? = some c') :
    Tended c' := by
  have act_eq : e.act (.turn place) = settleCaller k (e.cancelCaller (.awaiting x)) := by
    simp [act, turnAt, current, move, at_k, life]
  rw [act_eq] at hx'
  have courses : (settleCaller k (e.cancelCaller (.awaiting x))).courses = (e.cancelCaller (.awaiting x)).1.courses :=
    handOn_courses _ _ _
  rw [courses] at hx'
  cases ceased : e.isOver (.course x) with
  | true =>
    obtain rfl : c = c' := by simpa [cancelCaller, ceased, hx] using hx'
    exact tended
  | false =>
    have live : c.life.isOver = false := by simpa [isOver, hx] using ceased
    have begun : c.execution.status ≠ .idle := fun idle => by
      have opening := tended.waits idle
      rcases (reachable.ahead sound).ahead k x c false ⟨caller, true, at_k, life⟩ hx opening with h | ⟨h, -⟩
      · simp [current] at h
      · exact h current
    obtain rfl : _ = c' := by
      simpa [cancelCaller, ceased, interrupt_courses, giveReason, updateCourse, hx] using hx'
    exact .of_begun (by rw [c.life.isOver_interrupt, live]) begun

/-- **Executions are tended to** in every state that mild acts lead to. -/
theorem ReachableBy.tended (reachable : e.ReachableBy Mild) (sound : e.Sound) :
    ∀ (x : Nat) (c : Course), e.courses[x]? = some c → Tended c := by
  obtain ⟨settings, process, bus, registry, run⟩ := reachable
  refine run.induction (I := fun e => ∀ (x : Nat) (c : Course), e.courses[x]? = some c → Tended c) ⟨_, _, _, _, .refl⟩ sound
    (by simp [Engine.fresh]) ?_
  intro e₁ a before sound₁ _ mild outline tended x c' hx'
  cases hx : e₁.courses[x]? with
  | none =>
    obtain ⟨-, execution, rfl, -⟩ := outline.newborn hx' hx
    exact .fresh execution
  | some c =>
    have known := tended x c hx
    -- of what disturbs an execution the mild acts leave a cancel and an abandoned caller
    by_cases disturbed : e₁.Disturbs x a
    · cases disturbed with
      | @canceled id reason =>
        by_cases free : e₁.current = none
        · simp only [act, free, if_true] at hx'
          exact sound₁.tended_cancel hx known id reason hx'
        · obtain rfl : c = c' := by simpa [act, free, hx] using hx'
          exact known
      | abandoned current at_k life =>
        have inOrder := before.of_fresh.mono fun _ _ (h : Mild _ _) => h.inOrder
        exact inOrder.tended_abandoned sound₁ hx known current at_k life hx'
      | unjoined => exact absurd rfl (mild.joins _)
      | timedOut current life late pending => exact absurd ⟨_, _, current, life, late, pending⟩ mild.patient
    · rcases (sound₁.happens a).alone disturbed hx with same | ⟨eff, -, moved, after⟩
      · obtain rfl : c = c' := by simpa [same] using hx'
        exact known
      · obtain rfl : _ = c' := by simpa [after] using hx'
        exact known.moved moved

end Tended

/-! ## Callers of `join` -/

/-- Caller number `k` of `join` has returned. -/
def Joined (e : Engine) (k : Nat) : Prop := e.joiners[k]? = some (.over .done)

instance (e : Engine) (k : Nat) : Decidable (e.Joined k) :=
  decidable_of_iff ((match e.joiners[k]? with
    | some (.over .done) => true
    | _ => false) = true) <| by
  unfold Joined
  split <;> simp_all

/-- From `e` to `e'` no caller of `join` returns. -/
def NoneJoins (e e' : Engine) : Prop := ∀ k, e'.Joined k → e.Joined k

section Joined

variable {e e' e'' : Engine} {k : Nat} {a : Act}

theorem NoneJoins.of_eq (joiners : e'.joiners = e.joiners) : NoneJoins e e' := fun k joined => by
  rw [Joined, ← joiners]
  exact joined

theorem NoneJoins.trans (h : NoneJoins e e') (h' : NoneJoins e' e'') : NoneJoins e e'' := fun k joined => h k (h' k joined)

theorem NoneJoins.modify {j : Nat} {f : Life JoinerStage → Life JoinerStage} (joiners : e'.joiners = e.joiners.modify j f)
    (hf : ∀ life, f life = .over .done → life = .over .done) : NoneJoins e e' := by
  intro k joined
  unfold Joined at joined ⊢
  rw [joiners, List.getElem?_modify] at joined
  cases hk : e.joiners[k]? with
  | none => simp [hk] at joined
  | some life =>
    by_cases hjk : j = k
    · simp only [hk, hjk, if_true, Option.map_eq_map, Option.map_some, Option.some.injEq] at joined
      rw [hf life joined]
    · simpa [hk, hjk] using joined

theorem flag_noneJoins (e : Engine) (t : TaskId) : NoneJoins e (e.flag t) := by
  cases t with
  | joiner k =>
    refine .modify rfl fun life stopped => ?_
    cases life with
    | live => cases stopped
    | ended => exact stopped
  | course | delivery | caller | closer => exact .of_eq rfl

theorem interrupt_noneJoins (e : Engine) (t : TaskId) : NoneJoins e (e.interrupt t) := by
  unfold interrupt
  split
  · exact .of_eq rfl
  · dsimp only
    split
    · exact (flag_noneJoins e t).trans (.of_eq rfl)
    · exact flag_noneJoins e t

theorem noneJoins_nudging : Nudging NoneJoins where
  refl _ := .of_eq rfl
  trans := .trans
  report _ _ _ := .of_eq rfl
  give _ _ _ := .of_eq rfl
  send := interrupt_noneJoins
  flag e k := flag_noneJoins e (.joiner k)

theorem undergo_noneJoins (e : Engine) (deed : Deed) : NoneJoins e (e.undergo deed) := by
  cases deed with
  | start workflow initial =>
    dsimp only [undergo, start]
    cases State.freeze initial <;> exact .of_eq rfl
  | cancel x id reason =>
    have sent : ∀ y c, NoneJoins e (e.sendCancel y c reason) := by
      intro y c
      unfold sendCancel
      split
      · exact .of_eq rfl
      · exact NoneJoins.trans (.of_eq rfl) (interrupt_noneJoins _ _)
    have marked : ∀ (e : Engine) y execution, (e.markCanceled y execution reason).1.joiners = e.joiners := by
      intro e y execution
      unfold markCanceled
      dsimp only
      split
      · unfold announce
        split <;> rfl
      · rfl
      · rfl
    obtain eq | ⟨y, c, -, -, eq | eq⟩ := cancel_cases e x id reason <;> simp only [undergo, eq]
    · exact .of_eq rfl
    · exact sent y c
    · exact (sent y c).trans (.of_eq (marked _ _ _))
  | cancelRun k => exact interrupt_noneJoins e _
  | join =>
    intro k joined
    simp only [Joined, undergo, join] at joined
    -- the new caller of `join` is queued and has not returned
    rcases Nat.lt_trichotomy k e.joiners.length with lt | rfl | gt
    · rwa [List.getElem?_append_left lt] at joined
    · simp at joined
    · rw [List.getElem?_eq_none (by simp; omega)] at joined
      cases joined
  | cancelJoin k => exact noneJoins_nudging.cancelJoin e k
  | register stepType offered =>
    dsimp only [undergo, register]
    split <;> exact .of_eq rfl
  | pass time =>
    dsimp only [undergo]
    split <;> exact .of_eq rfl
  | run | shutdown | release | releaseBus | unregister => exact .of_eq rfl

theorem moveJoiner_of_quiet (quiet : e.running = []) : e.moveJoiner .watching = (e, .stop .done) := by
  simp only [moveJoiner, quiet]

theorem moveJoiner_of_running (busy : e.running ≠ []) :
    e.moveJoiner .watching = (e, .wait .watching (.tasks (e.running.map .course) none)) := by
  cases running : e.running with
  | nil => exact absurd running busy
  | cons x xs => simp only [moveJoiner, running]

/-- A caller of `join` returns in a turn in which it finds nothing running. -/
theorem Happens.joined (h : Happens e a e') (joined : e'.Joined k) :
    e.Joined k ∨ e.running = [] ∧ e'.courses = e.courses := by
  have handed {σ : Type} {e₁ : Engine} (t : TaskId) (m : Move σ) (before : NoneJoins e e₁) :
      NoneJoins e (e₁.handOn t m) := by
    refine before.trans (.of_eq ?_)
    cases m <;> rfl
  have none : NoneJoins e e' → e.Joined k ∨ e.running = [] ∧ e'.courses = e.courses := fun none => .inl (none k joined)
  cases h with
  | still | chosen | vacant => exact none (.of_eq rfl)
  | course | delivery => exact none (handed _ _ (.of_eq rfl))
  | @caller place j c stage =>
    refine none (handed _ _ ?_)
    cases stage with
    | entering workflow initial =>
      dsimp only [moveCaller]
      cases State.freeze initial <;> exact .of_eq rfl
    | awaiting | surrendering => exact .of_eq rfl
  | callerCanceled => exact none (handed _ _ ((noneJoins_nudging.cancelCaller e _).trans (.of_eq rfl)))
  | @joiner place j stage current life =>
    cases stage with
    | watching =>
      by_cases quiet : e.running = []
      · rw [moveJoiner_of_quiet quiet]
        exact .inr ⟨quiet, handOn_courses _ _ _⟩
      · rw [moveJoiner_of_running quiet] at none ⊢
        exact none (handed _ _ (.modify rfl fun _ stopped => by cases stopped))
  | joinerCanceled => exact none (handed _ _ (.modify rfl fun _ stopped => by cases stopped))
  | closer => exact none (handed _ _ ((noneJoins_nudging.moveCloser e _).trans (.of_eq rfl)))
  | closerCanceled => exact none (handed _ _ (.of_eq rfl))
  | host => exact none (undergo_noneJoins e _)

/-- Nothing is running as long as the host submits nothing. -/
theorem Outline.running_nil (outline : Outline e e') (quiet : e.running = [])
    (unsubmitted : ∀ c, e'.courses[e.courses.length]? = some c → c.execution.parent ≠ none) : e'.running = [] := by
  have stopped : ∀ (x : Nat) (c : Course), e.courses[x]? = some c → c.life.isOver = true := by
    intro x c hx
    exact over_of_not_pending (by simp [course_mem_pending, quiet]) hx
  refine List.eq_nil_iff_forall_not_mem.mpr fun x mem => ?_
  obtain ⟨lt, live⟩ := mem_running.mp mem
  have hx' := List.getElem?_eq_getElem lt
  simp only [isOver, hx', Option.all_some] at live
  cases hx : e.courses[x]? with
  | some c =>
    obtain ⟨d, hd, fate⟩ := outline.fate hx
    obtain rfl : _ = d := Option.some.inj (hx'.symm.trans hd)
    simp [fate.over (stopped x c hx)] at live
  | none =>
    obtain ⟨rfl, execution, eq, ⟨workflow, state, rfl⟩ | ⟨p, c, eff, -, hp, moved, -⟩⟩ := outline.newborn hx' hx
    · exact unsubmitted _ hx' (by rw [eq]; rfl)
    · have ceased := stopped p c hp
      cases moved with
      | advanced life | diverted life => simp [life, Life.isOver] at ceased

/-- Once a caller of `join` has returned nothing is running, as long as the host submits nothing. -/
theorem running_nil_of_joined {before : Engine} {P : Engine → Act → Prop} (reachable : before.Reachable)
    (run : Reaches P before e) (sound : e.Sound) (unjoined : ¬ before.Joined k) (joined : e.Joined k)
    (unsubmitted : ∀ (y : Nat) (c : Course), before.courses.length ≤ y → e.courses[y]? = some c →
      c.execution.parent ≠ none) : e.running = [] := by
  have inv : before.courses.length ≤ e.courses.length ∧
      (e.Joined k → (∀ (y : Nat) (c : Course), before.courses.length ≤ y → e.courses[y]? = some c →
        c.execution.parent ≠ none) → e.running = []) := by
    refine run.induction (I := fun e => before.courses.length ≤ e.courses.length ∧
      (e.Joined k → (∀ (y : Nat) (c : Course), before.courses.length ≤ y → e.courses[y]? = some c →
        c.execution.parent ≠ none) → e.running = [])) reachable sound
      ⟨Nat.le_refl _, fun joined => absurd joined unjoined⟩ ?_
    rintro e₁ a - sound₁ - - outline ⟨le, quiet⟩
    refine ⟨Nat.le_trans le outline.length_le, fun joined unsubmitted => ?_⟩
    refine outline.running_nil ?_ fun c => unsubmitted _ c le
    rcases (sound₁.happens a).joined joined with earlier | ⟨now, -⟩
    · refine quiet earlier fun y c hy hc => ?_
      obtain ⟨c', hc', fate⟩ := outline.fate hc
      rw [← Execution.parent_eq fate.origin_eq]
      exact unsubmitted y c' hy hc'
    · exact now
  exact inv.2 joined unsubmitted

end Joined

/-! ## What is in custody -/

/-- The executions that have not ended, and the reasons that are on their way, are those of live tasks. -/
structure Custody (e : Engine) : Prop where
  unfinished : ∀ (x : Nat) (c : Course), e.courses[x]? = some c → c.execution.isFinished = false → x ∈ e.running
  reasons : ∀ x, (e.reason? x).isSome = true → x ∈ e.running

/-- Every execution has ended, and no reason is left. -/
structure Done (e : Engine) : Prop where
  finished : ∀ c ∈ e.courses, c.execution.isFinished = true
  released : ∀ x, e.reason? x = none

theorem Custody.done {e : Engine} (custody : e.Custody) (quiet : e.running = []) : e.Done where
  finished := by
    intro c hc
    obtain ⟨x, hx⟩ := List.mem_iff_getElem?.mp hc
    by_contra unfinished
    simpa [quiet] using custody.unfinished x c hx (by simpa using unfinished)
  released := by
    intro x
    by_contra given
    simpa [quiet] using custody.reasons x (Option.isSome_iff_ne_none.mpr given)

theorem ReachableBy.custody {e : Engine} (reachable : e.ReachableBy Mild) (sound : e.Sound) : e.Custody := by
  have tended := reachable.tended sound
  have running : ∀ (x : Nat) (c : Course), e.courses[x]? = some c → c.life.isOver = false → x ∈ e.running := by
    intro x c hx live
    exact mem_running.mpr ⟨(List.getElem?_eq_some_iff.mp hx).1, by simpa [isOver, hx] using live⟩
  refine ⟨fun x c hx unfinished => ?_, fun x given => ?_⟩
  · exact running x c hx ((tended x c hx).live (sound.standing.stands x c hx) unfinished)
  · cases hx : e.courses[x]? with
    | none => simp [reason?, hx] at given
    | some c =>
      refine running x c hx ?_
      by_contra stopped
      simp [reason?, hx, (tended x c hx).released (by simpa using stopped)] at given

/-- **No execution is left behind, and a join waits for all**: by mild acts every execution that has not ended, and every
reason of a cancellation, belongs to a live task; when nothing is running everything has ended, and so it is from the
return of a join until the host submits a workflow. -/
theorem custody_of_mild {before e : Engine} (reachable : before.ReachableBy Mild) (run : Reaches Mild before e)
    (calm : e.Calm) (named : e.WellNamed) :
    e.Custody ∧ (e.running = [] → e.Done) ∧
      ∀ k, ¬ before.Joined k → e.Joined k →
        (∀ (y : Nat) (c : Course), before.courses.length ≤ y → e.courses[y]? = some c → c.execution.parent ≠ none) →
          e.running = [] ∧ e.Done := by
  have reachable' := reachable.trans run
  have sound := reachable'.reachable.sound calm named
  have custody := reachable'.custody sound
  refine ⟨custody, custody.done, fun k unjoined joined unsubmitted => ?_⟩
  have quiet := running_nil_of_joined reachable.reachable run sound unjoined joined unsubmitted
  exact ⟨quiet, custody.done quiet⟩

/-! ### A join that sees a cancellation through -/

/-- Without callers of `shutdown` no shutdown times out. -/
theorem Mild.of_unclosed {e : Engine} {a : Act} (unclosed : e.closers.isEmpty = true) (inOrder : a.InOrder)
    (joins : ∀ k, a ≠ .host (.cancelJoin k)) : Mild e a := by
  refine ⟨inOrder, joins, fun late => ?_⟩
  cases a with
  | host => exact late
  | turn place =>
    obtain ⟨k, deadline, -, at_k, -⟩ := late
    simp [List.isEmpty_iff.mp unclosed] at at_k

theorem rehearse_mild {e : Engine} {deed : Deed} (fuel : Nat) (mild : Mild e (.host deed))
    (unclosed : ∀ n < fuel, (turns n (e.act (.host deed))).closers.isEmpty = true) :
    Reaches Mild e (e.rehearse fuel [deed]) := by
  have first : Reaches Mild e (e.act (.host deed)) := .single mild
  exact first.trans (turns_reaches _ fuel fun n lt => .of_unclosed (unclosed n lt) rfl fun _ eq => by cases eq)

/-- A caller of `join` waits for the execution that waits. -/
def joinedRun : Engine := heldRun.rehearse 20 [.join]

/-- The execution is canceled, and when its task has ended the join returns. -/
theorem joinedRun_custody : ¬ joinedRun.Joined 0 ∧ joinedRun.running = [0] ∧ joinedRun.Custody ∧
    (joinedRun.rehearse 20 [.cancel (some 0) "0" "enough"]).Joined 0 ∧
    (joinedRun.rehearse 20 [.cancel (some 0) "0" "enough"]).Done := by
  have held : Reaches Mild _ heldRun :=
    rehearse_mild 20 (.of_unclosed rfl trivial (by simp)) (by decide +kernel)
  have waits : Reaches Mild heldRun joinedRun :=
    rehearse_mild 20 (.of_unclosed (by decide +kernel) trivial (by simp)) (by decide +kernel)
  have ends : Reaches Mild joinedRun (joinedRun.rehearse 20 [.cancel (some 0) "0" "enough"]) :=
    rehearse_mild 20 (.of_unclosed (by decide +kernel) trivial (by simp)) (by decide +kernel)
  have reachable : heldRun.ReachableBy Mild := held.of_fresh
  have calm {e : Engine} (run : Reaches Mild heldRun e) : e.Calm := (held.trans run).calm_iff.mpr (fresh_calm _ _ _)
  obtain ⟨custody, -⟩ := custody_of_mild reachable waits (calm waits) (by decide +kernel)
  obtain ⟨-, -, joins⟩ := custody_of_mild (reachable.trans waits) ends (calm (waits.trans ends)) (by decide +kernel)
  have length : (joinedRun.rehearse 20 [.cancel (some 0) "0" "enough"]).courses.length = joinedRun.courses.length := by
    decide +kernel
  have unjoined : ¬ joinedRun.Joined 0 := by decide +kernel
  have joined : (joinedRun.rehearse 20 [.cancel (some 0) "0" "enough"]).Joined 0 := by decide +kernel
  obtain ⟨-, done⟩ := joins 0 unjoined joined fun y c le hc => absurd (List.getElem?_eq_some_iff.mp hc).1 (by omega)
  exact ⟨unjoined, by decide +kernel, custody, joined, done⟩

end Engine

end Stepflow
