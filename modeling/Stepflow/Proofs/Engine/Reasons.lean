import Stepflow.Proofs.Engine.Chronicle
import Stepflow.Proofs.Engine.Flushing
import Stepflow.Proofs.Engine.Shutdown

/-!
# Stepflow.Proofs.Engine.Reasons — which reason is told of a canceled execution

* `Revocation`: the host cancels an execution that has not ended.  `Revocation.told`: the reason that is told for it.
* `Heeds`: an execution and the last revocation of it agree.  `Heeds.moved` keeps it in the moves of the task,
  `Sound.unrevoked` and `Heeds.kept` in all else that is no revocation, and `Sound.heeds_revoked` begins it anew.
* `ReachesWith`: a run in which no shutdown times out, with the last revocation in it.
* `Sound.cancellations_eq`: what the announcement of a cancellation carries is what the error gives.
* `reported_of_canceled`: what this comes to for error, announcement, path and step of a canceled execution.

Two write the reason: the host, who overwrites what is there, and the caller of `run`, who only fills a gap.  Two mark an
execution with it: the host at once where the execution has not begun, and the task later where it has.
-/

namespace Stepflow

/-! ## Revocations -/

/-- An order of the host to cancel an execution that has not ended: what it found, and the reason that it gave. -/
structure Revocation where
  found : Execution
  reason : String

namespace Revocation

/-- The reason that is told: the one that was given, but once the execution has begun an empty one counts as none. -/
def told (r : Revocation) : String := if r.found.status = .idle then r.reason else givenReason (some r.reason)

/-- The reason that is told after the last revocation; without one, that of the caller. -/
def toldOf (last : Option Revocation) : String := (last.map told).getD Engine.callerReason

theorem told_eq_iff (r : Revocation) : r.told = r.reason ↔ r.found.status = .idle ∨ r.reason ≠ "" := by
  unfold told
  by_cases idle : r.found.status = .idle
  · simp [idle]
  · by_cases empty : r.reason = ""
    · simp [idle, empty, givenReason, Engine.callerReason]
    · simp [idle, empty, givenReason]

end Revocation

/-- The reason that is pending for an execution, and the one that it tells once it is canceled, are those of its last
revocation. -/
structure Heeds (last : Option Revocation) (c : Course) : Prop where
  idle : c.execution.status = .idle → last = none
  pending : c.execution.isFinished = false → givenReason c.reason = Revocation.toldOf last
  told : c.execution.status = .canceled → ∃ names, c.execution.names = .ok names ∧
    c.execution.error = some (c.execution.cancelError names (Revocation.toldOf last))

section Heeds

variable {e : Engine} {x : Nat} {c c' : Course} {eff : Effect} {last : Option Revocation} {maxDepth : Int}

theorem Heeds.fresh {a : Execution} (unbegun : a.Unbegun) : Heeds none (.fresh a) where
  idle _ := rfl
  pending _ := rfl
  told canceled := by
    have idle := unbegun.status_eq
    simp [Course.fresh, idle] at canceled

/-- What neither changes the execution nor the reason that it would tell. -/
theorem Heeds.kept (h : Heeds last c) (execution : c'.execution = c.execution)
    (reason : givenReason c'.reason = givenReason c.reason) : Heeds last c' := by
  refine ⟨?_, ?_, ?_⟩ <;> rw [execution]
  · exact h.idle
  · rw [reason]
    exact h.pending
  · exact h.told

/-- A task that ends before its execution has not begun. -/
theorem Moved.idle_of_stop {ending : Ending} (h : Moved e x c eff)
    (stands : Stands maxDepth c.execution c.scheduled c.life) (unfinished : c.execution.isFinished = false)
    (stop : eff.move = .stop ending) : c.execution.status = .idle := by
  cases h with
  | @diverted stage life =>
    rw [life] at stands
    cases stands with
    | unbegun unbegun => exact unbegun.status_eq
    | stillborn _ _ eq => simp [eq, Execution.isFinished, Status.isFinished] at unfinished
    | holding | dispatched => simp [Engine.cancelCourse] at stop
  | advanced life advance =>
    rw [life] at stands
    cases advance with
    | closed =>
      cases stands with
      | closing ended => simp [ended.finished] at unfinished
    | left =>
      cases stands with
      | leaving _ ended => simp [ended.finished] at unfinished
    | _ => cases stop

/-- A move that leaves an execution canceled has acknowledged the cancellation, with the reason that was pending. -/
theorem Moved.acknowledges (h : Moved e x c eff) (unfinished : c.execution.isFinished = false)
    (canceled : eff.execution.status = .canceled) : ∃ names, c.execution.names = .ok names ∧
      eff.execution = c.execution.canceledFor e.clock names (givenReason c.reason) := by
  have uncanceled : c.execution.status ≠ .canceled := fun status => by
    simp [Execution.isFinished, status, Status.isFinished] at unfinished
  cases h with
  | diverted => exact absurd canceled uncanceled
  | advanced life advance =>
    cases advance with
    | acknowledged names_eq => exact ⟨_, names_eq, rfl⟩
    | begun | tooDeep | unknown | unresolved | unprocessed | scheduled | completed =>
      simp [Execution.endWith] at canceled
    | _ => exact absurd canceled uncanceled

/-- **The moves of the task of an execution heed its last revocation.** -/
theorem Heeds.moved (h : Heeds last c) (moved : Moved e x c eff)
    (stands : Stands e.settings.maxDepth c.execution c.scheduled c.life) : Heeds last (eff.course c) := by
  have progresses := moved.progresses stands
  -- after the end nothing is told any more; before it the reason is kept until the task stops
  cases finished : c.execution.isFinished with
  | true =>
    have same : (eff.course c).execution = c.execution := progresses.absorbed finished
    refine ⟨?_, fun unfinished => ?_, ?_⟩
    · rw [same]
      exact h.idle
    · simp [same, finished] at unfinished
    · rw [same]
      exact h.told
  | false =>
    refine ⟨fun idle => ?_, fun _ => ?_, fun canceled => ?_⟩
    · refine h.idle ?_
      have idle : eff.execution.status = .idle := idle
      rcases progresses.edge with same | edge
      · exact same.symm.trans idle
      · generalize c.execution.status = before at edge
        rw [idle] at edge
        cases edge
    · cases move : eff.move with
      | stop ending =>
        rw [h.idle (moved.idle_of_stop stands finished move)]
        simp [Effect.course, move, givenReason, Revocation.toldOf, Engine.callerReason]
      | go | yield | wait =>
        simp only [Effect.course, move]
        exact h.pending finished
    · obtain ⟨names, names_eq, eq⟩ := moved.acknowledges finished canceled
      have after : (eff.course c).execution = c.execution.canceledFor e.clock names (givenReason c.reason) := eq
      rw [after, h.pending finished]
      exact ⟨names, names_eq, rfl⟩

end Heeds

namespace Engine

/-! ## Acts -/

/-- The revocation of execution number `x` that an act is, if it is one. -/
def revocation? (e : Engine) (x : Nat) : Act → Option Revocation
  | .host (.cancel (some y) _ reason) =>
    if e.current = none ∧ y = x then
      (e.courses[x]?).bind fun c => if c.execution.isFinished then none else some ⟨c.execution, reason⟩
    else none
  | _ => none

section Acts

variable {e : Engine} {x : Nat} {c : Course} {a : Act} {r : Revocation}

theorem revocation?_eq_some : e.revocation? x a = some r ↔ ∃ id c, a = .host (.cancel (some x) id r.reason) ∧
    e.current = none ∧ e.courses[x]? = some c ∧ c.execution.isFinished = false ∧ r.found = c.execution := by
  constructor
  · intro revoked
    unfold revocation? at revoked
    split at revoked
    · next y id reason =>
      split at revoked
      · next both =>
        obtain ⟨free, rfl⟩ := both
        obtain ⟨c, hx, revoked⟩ := Option.bind_eq_some_iff.mp revoked
        split at revoked
        · cases revoked
        · next unfinished =>
          obtain rfl := Option.some.inj revoked
          exact ⟨id, c, rfl, free, hx, by simpa using unfinished, rfl⟩
      · cases revoked
    · cases revoked
  · rintro ⟨id, c, rfl, free, hx, unfinished, found⟩
    obtain ⟨_, reason⟩ := r
    cases found
    simp [revocation?, free, hx, unfinished]

theorem revocation?_unborn (unborn : e.courses[x]? = none) : e.revocation? x a = none := by
  cases revoked : e.revocation? x a with
  | none => rfl
  | some r =>
    obtain ⟨_, _, -, -, hx, -⟩ := revocation?_eq_some.mp revoked
    simp [unborn] at hx

/-- The host cancels an execution that has not begun, and marks it. -/
theorem cancel_of_idle {names : List String} (calm : e.Calm) (hx : e.courses[x]? = some c)
    (names_eq : c.execution.names = .ok names) (idle : c.execution.status = .idle) (id reason : String) :
    ∃ c', (e.cancel (some x) id reason).1.courses[x]? = some c' ∧
      c'.execution = c.execution.canceledFor e.clock names reason := by
  have unfinished : c.execution.isFinished = false := by simp [Execution.isFinished, idle, Status.isFinished]
  have signals := sendCancel_signals e x c reason
  obtain ⟨c₁, hx₁, signaled⟩ := signals.courses.2 x c hx
  have names_eq₁ : c₁.execution.names = .ok names := by rw [signaled.execution]; exact names_eq
  have calm₁ : (e.sendCancel x c reason).Calm := fun react hr => calm react (signals.bus ▸ hr)
  rw [cancel_eq hx unfinished, if_pos (.inl idle), ← signaled.execution, markCanceled_calm calm₁ hx₁ names_eq₁]
  exact ⟨_, set_getElem? hx₁, by rw [sendCancel_clock]⟩

/-- **A revocation is heeded** at once: it marks the execution, or gives its task the reason. -/
theorem Sound.heeds_revoked (sound : e.Sound) (hx : e.courses[x]? = some c)
    (unfinished : c.execution.isFinished = false) (id reason : String) :
    ∃ c', (e.cancel (some x) id reason).1.courses[x]? = some c' ∧ Heeds (some ⟨c.execution, reason⟩) c' := by
  obtain ⟨names, names_eq⟩ := sound.orderly.names hx
  -- an idle execution is marked at once with the reason as it is; a running one gets it as the pending reason
  by_cases idle : c.execution.status = .idle
  · obtain ⟨c', hx', eq⟩ := cancel_of_idle sound.calm hx names_eq idle id reason
    refine ⟨c', hx', ?_⟩
    have told : Revocation.toldOf (some ⟨c.execution, reason⟩) = reason := by
      simp [Revocation.toldOf, Revocation.told, idle]
    refine ⟨fun still => ?_, fun open' => ?_, fun _ => ⟨names, ?_, ?_⟩⟩
    · simp [eq] at still
    · simp [eq, Execution.isFinished, Status.isFinished] at open'
    · rw [eq]
      exact names_eq
    · rw [eq, told]
      rfl
  · have stands := sound.standing.stands x c hx
    have live : c.life.isOver = false := by
      by_contra stopped
      exact idle (stands.unbegun_of_over (by simpa using stopped) unfinished).status_eq
    obtain ⟨c', touched, courses, -, given⟩ := cancel_touched sound.calm hx names_eq unfinished id reason
    refine ⟨c', by rw [courses]; exact set_getElem? hx, ?_⟩
    have execution : c'.execution = c.execution := by
      rcases touched with ⟨signaled, -⟩ | marked
      · exact signaled.execution
      · exact absurd (marked.unbegun stands).status_eq idle
    refine ⟨fun idle' => absurd (execution ▸ idle') idle, fun _ => ?_, fun canceled => ?_⟩
    · simp [given live, Revocation.toldOf, Revocation.told, idle]
    · rw [execution] at canceled
      simp [Execution.isFinished, canceled, Status.isFinished] at unfinished

/-- The caller of `run` fills a gap only, and with the reason that is told for a gap. -/
theorem givenReason_or (reason : Option String) : givenReason (reason.or (some callerReason)) = givenReason reason := by
  cases reason <;> rfl

/-- Canceling a caller of `join` gives no reasons. -/
theorem cancelJoin_getElem? (e : Engine) (k : Nat) (hx : e.courses[x]? = some c) :
    ∃ c', (e.cancelJoin k).courses[x]? = some c' ∧ c'.execution = c.execution ∧ c'.reason = c.reason := by
  unfold cancelJoin
  split
  · exact ⟨c, (interrupt_ne e (by simp)).trans hx, rfl, rfl⟩
  · refine ⟨_, (interruptAll_courses _ e x).trans (by rw [hx]; rfl), ?_, ?_⟩ <;> split <;> rfl

/-- A canceled caller of `run` gives the execution for which it waits a reason at most if that has none. -/
theorem cancelCaller_getElem? (e : Engine) (stage : CallerStage) (hx : e.courses[x]? = some c) :
    ∃ c', (e.cancelCaller stage).1.courses[x]? = some c' ∧ c'.execution = c.execution ∧
      givenReason c'.reason = givenReason c.reason := by
  have same : ∃ c', e.courses[x]? = some c' ∧ c'.execution = c.execution ∧
      givenReason c'.reason = givenReason c.reason := ⟨c, hx, rfl, rfl⟩
  cases stage with
  | entering | surrendering => exact same
  | awaiting y =>
    dsimp only [cancelCaller]
    split
    · exact same
    · by_cases ours : y = x
      · subst ours
        refine ⟨{ c with life := c.life.interrupt, reason := c.reason.or (some callerReason) }, ?_, rfl,
          givenReason_or c.reason⟩
        simp [interrupt_courses, giveReason, updateCourse, hx]
      · refine ⟨c, ?_, rfl, rfl⟩
        rw [interrupt_ne _ (by simpa using ours)]
        exact (updateCourse_ne e ours _).trans hx

/-- **What is no revocation** of an execution moves its task, or leaves the execution and the reason it would tell. -/
theorem Sound.unrevoked (sound : e.Sound) (patient : e.Patient a) (unrevoked : e.revocation? x a = none)
    (hx : e.courses[x]? = some c) :
    (∃ eff, Moved e x c eff ∧ (e.act a).courses[x]? = some (eff.course c)) ∨
      ∃ c', (e.act a).courses[x]? = some c' ∧ c'.execution = c.execution ∧
        givenReason c'.reason = givenReason c.reason := by
  -- what disturbs an execution without revoking it fills in a reason at most, and the one that is told for a gap
  by_cases disturbed : e.Disturbs x a
  · refine .inr ?_
    have same : e.act a = e → ∃ c', (e.act a).courses[x]? = some c' ∧ c'.execution = c.execution ∧
        givenReason c'.reason = givenReason c.reason := fun still => ⟨c, by rw [still]; exact hx, rfl, rfl⟩
    cases disturbed with
    | @canceled id reason =>
      refine same ?_
      by_cases free : e.current = none
      · have finished : c.execution.isFinished = true := by simpa [revocation?, free, hx] using unrevoked
        simp [act, free, undergo, cancel, hx, finished]
      · simp [act, free]
    | @abandoned place k caller current at_k life =>
      have turned : (e.act (.turn place)).courses = (e.cancelCaller (.awaiting x)).1.courses := by
        simp only [act, turnAt, current, move, at_k, life]
        exact handOn_courses _ _ _
      rw [turned]
      exact cancelCaller_getElem? e _ hx
    | @unjoined k =>
      by_cases free : e.current = none
      · obtain ⟨c', hx', execution, reason⟩ := cancelJoin_getElem? e k hx
        exact ⟨c', by simpa [act, free, undergo] using hx', execution, by rw [reason]⟩
      · exact same (by simp [act, free])
    | timedOut current life late pending => exact absurd ⟨_, _, current, life, late, pending⟩ patient
  · rcases (sound.happens a).alone disturbed hx with still | ⟨eff, -, moved, after⟩
    · exact .inr ⟨c, still, rfl, rfl⟩
    · exact .inl ⟨eff, moved, after⟩

end Acts

/-! ## Runs -/

/-- From `e` the engine comes to a state by acts in which no shutdown times out, and `last` is the last revocation of
execution number `x` among them. -/
inductive ReachesWith (x : Nat) (e : Engine) : Option Revocation → Engine → Prop
  | refl : ReachesWith x e none e
  | step {last : Option Revocation} {e' : Engine} {a : Act} (run : ReachesWith x e last e') (patient : e'.Patient a) :
      ReachesWith x e ((e'.revocation? x a).or last) (e'.act a)

section Runs

variable {e e' e'' : Engine} {x : Nat} {c : Course} {last last' : Option Revocation} {r : Revocation}

theorem ReachesWith.reaches (run : ReachesWith x e last e') : Reaches Patient e e' := by
  induction run with
  | refl => exact .refl
  | step _ patient ih => exact ih.step patient

theorem ReachesWith.trans (run : ReachesWith x e last e') (on : ReachesWith x e' last' e'') :
    ReachesWith x e (last'.or last) e'' := by
  induction on with
  | refl => exact run
  | step _ patient ih =>
    rw [Option.or_assoc]
    exact ih.step patient

/-- Turns of tasks are no revocations. -/
theorem Reaches.of_turns (run : Reaches (fun e a => e.Patient a ∧ ∃ place, a = .turn place) e e') (x : Nat) :
    ReachesWith x e none e' := by
  induction run with
  | refl => exact .refl
  | step _ admitted ih =>
    obtain ⟨patient, place, rfl⟩ := admitted
    exact ih.step patient

/-- The last revocation took place somewhere on the way. -/
theorem ReachesWith.revoked (run : ReachesWith x e (some r) e') : ∃ e₁ a, Reaches anyOrder e e₁ ∧
    e₁.revocation? x a = some r ∧ Reaches anyOrder (e₁.act a) e' := by
  generalize eq : some r = last at run
  induction run with
  | refl => cases eq
  | @step last e₁ a before patient ih =>
    cases revoked : e₁.revocation? x a with
    | some r' =>
      obtain rfl : r = r' := by simpa [revoked] using eq
      exact ⟨e₁, a, before.reaches.mono fun _ _ _ => trivial, revoked, .refl⟩
    | none =>
      obtain ⟨e₀, a₀, there, revoked₀, on⟩ := ih (by simpa [revoked] using eq)
      exact ⟨e₀, a₀, there, revoked₀, on.step trivial⟩

/-- **The last revocation is heeded** all along a run. -/
theorem ReachesWith.heeds (run : ReachesWith x e last e') (reachable : e.Reachable) (sound : e'.Sound)
    (unborn : e.courses[x]? = none) :
    (e'.courses[x]? = none → last = none) ∧ ∀ c, e'.courses[x]? = some c → Heeds last c := by
  induction run with
  | refl => exact ⟨fun _ => rfl, fun c hx => by simp [unborn] at hx⟩
  | @step last e₁ a before patient ih =>
    have sound₁ : e₁.Sound :=
      sound.of_reaches (reachable.trans (before.reaches.mono fun _ _ _ => trivial)) (.single (P := anyOrder) trivial)
    obtain ⟨unborn₁, heeds⟩ := ih sound₁
    have outline := sound₁.outline a
    -- nobody can have revoked an execution that was not there yet
    cases hx : e₁.courses[x]? with
    | none =>
      rw [revocation?_unborn hx, unborn₁ hx]
      refine ⟨fun _ => rfl, fun c' hx' => ?_⟩
      obtain ⟨-, execution, rfl, -⟩ := outline.newborn hx' hx
      exact .fresh (outline.newborn_unbegun hx' hx)
    | some c =>
      obtain ⟨c', hx', -⟩ := outline.fate hx
      have heeds := heeds c hx
      have heeds' : Heeds ((e₁.revocation? x a).or last) c' := by
        cases revoked : e₁.revocation? x a with
        | some r =>
          obtain ⟨id, d, rfl, free, hx₁, unfinished, found⟩ := revocation?_eq_some.mp revoked
          obtain rfl : c = d := Option.some.inj (hx.symm.trans hx₁)
          obtain ⟨c'', hx'', heeds'⟩ := sound₁.heeds_revoked hx unfinished id r.reason
          obtain rfl : c' = c'' := by simpa [act, free, undergo, hx''] using hx'.symm
          rw [← found] at heeds'
          exact heeds'
        | none =>
          rcases sound₁.unrevoked patient revoked hx with ⟨eff, moved, after⟩ | ⟨c'', hx'', execution, reason⟩
          · obtain rfl : c' = eff.course c := Option.some.inj (hx'.symm.trans after)
            exact heeds.moved moved (sound₁.standing.stands x c hx)
          · obtain rfl : c' = c'' := Option.some.inj (hx'.symm.trans hx'')
            exact heeds.kept execution reason
      refine ⟨fun gone => by simp [hx'] at gone, fun d hd => ?_⟩
      obtain rfl : c' = d := Option.some.inj (hx'.symm.trans hd)
      exact heeds'

end Runs

end Engine

/-! ## What a revocation finds -/

/-- Where the host finds an execution that has not ended: it has not begun, or a step of it is in progress. -/
inductive Execution.Cancelable (a : Execution) : Prop
  | idle (status : a.status = .idle) (unturned : a.currentStep = none)
  | stepping {step : Step} (status : a.status = .running) (current : a.currentStep = some a.history.length)
      (at_step : a.workflow.steps[a.history.length]? = some step)

theorem Execution.Cancelable.status_cases {a : Execution} (h : a.Cancelable) :
    a.status = .idle ∨ a.status = .running := by
  cases h with
  | idle status => exact .inl status
  | stepping status => exact .inr status

namespace Engine

section Found

variable {e e' : Engine} {x : Nat} {c : Course} {r : Revocation} {P : Engine → Act → Prop}

theorem Sound.cancelable (sound : e.Sound) (free : e.current = none) (hx : e.courses[x]? = some c)
    (unfinished : c.execution.isFinished = false) : c.execution.Cancelable := by
  have idle : c.execution.Unbegun → c.execution.Cancelable := fun unbegun =>
    .idle unbegun.status_eq (by rw [unbegun]; rfl)
  have stepping : ∀ {index : Nat}, c.execution.Running index → c.execution.currentStep = some index →
      index < c.execution.workflow.steps.length → c.execution.Cancelable := by
    rintro index running current lt
    obtain rfl := running.length
    exact .stepping running.status current (List.getElem?_eq_getElem lt)
  have stands := sound.standing.stands x c hx
  have rests := sound.standing.rests x c hx (by simp [free])
  have fits := sound.orderly.fits c (List.mem_of_getElem? hx)
  cases life : c.life with
  | ended => exact idle (stands.unbegun_of_over (by rw [life]; rfl) unfinished)
  | live stage interrupted =>
    have fits := fits stage interrupted life
    rw [life] at stands rests
    cases rests with
    | opening =>
      cases stands with
      | unbegun unbegun => exact idle unbegun
      | stillborn _ _ eq => simp [eq, Execution.isFinished, Status.isFinished] at unfinished
    | holding =>
      cases stands with
      | holding running current => exact stepping running current fits
    | dispatched =>
      cases stands with
      | handled running current | dispatched running current => exact stepping running current fits

/-- What the last revocation found is what is canceled. -/
theorem ReachesWith.found (run : ReachesWith x e (some r) e') (reachable : e.Reachable) (sound : e'.Sound)
    (hx : e'.courses[x]? = some c) (canceled : c.execution.status = .canceled) :
    r.found.Cancelable ∧ ∃ now names reason, c.execution = r.found.canceledFor now names reason := by
  obtain ⟨e₁, a, before, revoked, after⟩ := run.revoked
  obtain ⟨id, c₁, rfl, free, hx₁, unfinished, found⟩ := revocation?_eq_some.mp revoked
  rw [found]
  have reachable₁ : e₁.Reachable := reachable.trans before
  have turn : Reaches anyOrder e₁ (e₁.act (.host (.cancel (some x) id r.reason))) := .single trivial
  have sound₁ := sound.of_reaches reachable₁ (turn.trans after)
  have cancelable := sound₁.cancelable free hx₁ unfinished
  have halting : Halting (fun _ => True) e₁ x c₁ e' :=
    after.induction (reachable₁.trans turn) sound
      (sound₁.halting_of_cancel free hx₁ cancelable.status_cases id r.reason)
      fun _ _ _ sound _ _ outline halting => halting.step outline sound.standing fun _ _ _ _ _ _ _ => trivial
  obtain ⟨c', notes, hx', -, -, doomed⟩ := halting.doomed
  obtain rfl : c = c' := Option.some.inj (hx.symm.trans hx')
  refine ⟨cancelable, ?_⟩
  rcases doomed.execution_cases with ⟨eq, running, -⟩ | ⟨now, names, reason, eq, -⟩ | ⟨_, _, _, _, _, eq, -⟩
  · simp [eq, running] at canceled
  · exact ⟨now, names, reason, eq⟩
  · simp [eq] at canceled

end Found

end Engine

/-! ## What is told -/

/-- The reason that an announcement carries, if it is that of the cancellation of execution number `x`. -/
def Lifecycle.cancelReason? (x : Nat) : Lifecycle → Option String
  | .canceled y reason => if y = x then some reason else none
  | _ => none

section Tales

variable {x : Nat} {a : Execution} {scheduled : List Workflow} {names names' : List String} {reason reason' : String}
  {events : List Lifecycle}

theorem cancelError_inj (eq : a.cancelError names reason = a.cancelError names' reason') :
    names = names' ∧ reason = reason' := by
  simp only [Execution.cancelError, Failure.execution.injEq, true_and, and_true] at eq
  exact ⟨eq.2, (String.append_right_inj _).mp eq.1⟩

theorem cancelError_message (a : Execution) (names : List String) (reason : String) : ∃ place,
    (a.cancelError names reason).message = "Workflow " ++ place ++ " failed: " ++ ("canceled: " ++ reason) := by
  refine ⟨Failure.location names (a.currentStep.map fun (i : Nat) => (i : Int)) none, ?_⟩
  have text : (a.cancelError names reason).message = Failure.executionText _ ("canceled: " ++ reason) none := rfl
  rw [text, Failure.executionText, String.append_empty]

/-- The tale of a canceled execution tells once that it is canceled, for the reason that its error gives. -/
theorem Tale.cancellations (tale : Tale x a scheduled events) (canceled : a.status = .canceled)
    (error : a.error = some (a.cancelError names reason)) : events.filterMap (Lifecycle.cancelReason? x) = [reason] := by
  have records : (a.announced x).filterMap (Lifecycle.cancelReason? x) = [] := by
    refine List.filterMap_eq_nil_iff.mpr fun event mem => ?_
    rcases List.mem_cons.mp mem with rfl | mem
    · rfl
    · obtain ⟨record, -, told⟩ := List.mem_filterMap.mp mem
      unfold StepRecord.told? at told
      split at told <;> cases told <;> rfl
  cases tale with
  | stillborn _ _ _ error' =>
    obtain ⟨-, rfl⟩ := cancelError_inj (Option.some.inj (error'.symm.trans error))
    simp [Lifecycle.cancelReason?]
  | canceled _ _ lapse error' =>
    obtain ⟨-, rfl⟩ := cancelError_inj (Option.some.inj (error'.symm.trans error))
    rw [List.filterMap_append, List.filterMap_append, records]
    cases lapse <;> simp [Lifecycle.cancelReason?]
  | idle status | running status | spawning status | completed status | failed status | unprocessed status =>
    simp [canceled] at status

end Tales

namespace Engine

/-- The reasons that the announcements of the cancellation of execution number `x` carry. -/
def cancellations (e : Engine) (x : Nat) : List String := e.events.filterMap (Lifecycle.cancelReason? x)

end Engine

/-- It is told of execution number `x`, found as `a`, that it has been canceled for a reason. -/
structure Reported (e : Engine) (x : Nat) (a : Execution) (reason : String) : Prop where
  /-- The error gives the path, and the step that was in progress if there was one. -/
  error : ∃ names, a.path = names.map .text ∧ a.error = some (.execution true ("canceled: " ++ reason) names
    (a.currentStep.map fun (i : Nat) => (i : Int)) none none)
  /-- The text of the error ends with the reason. -/
  message : ∃ error before, a.error = some error ∧ error.message = before ++ ("canceled: " ++ reason)
  announced : e.bus.isSome = true → e.cancellations x = [reason]

namespace Engine

section Told

variable {e : Engine} {x : Nat} {c : Course} {names : List String} {reason : String}

/-- The announcements of a cancellation are made by the task of the execution, or for it. -/
theorem cancellations_eq_told (e : Engine) (x : Nat) :
    e.cancellations x = (e.told x).filterMap (Lifecycle.cancelReason? x) := by
  rw [cancellations, told, heard, List.filterMap_filter, List.filterMap_filter]
  refine List.filterMap_congr fun event _ => ?_
  cases event with
  | canceled y reason => simp [Lifecycle.cancelReason?, isReport, Lifecycle.execution]
  | _ => simp [Lifecycle.cancelReason?]

theorem Sound.cancellations_eq (sound : e.Sound) (bus : e.bus.isSome = true) (hx : e.courses[x]? = some c)
    (canceled : c.execution.status = .canceled)
    (error : c.execution.error = some (c.execution.cancelError names reason)) : e.cancellations x = [reason] := by
  rw [cancellations_eq_told]
  exact ((sound.announced bus).1.narrates x c hx).tale.cancellations canceled error

theorem Sound.reported (sound : e.Sound) (hx : e.courses[x]? = some c) (canceled : c.execution.status = .canceled)
    (names_eq : c.execution.names = .ok names)
    (error : c.execution.error = some (c.execution.cancelError names reason)) : Reported e x c.execution reason where
  error := ⟨names, path_of_pathTexts names_eq, error⟩
  message := by
    obtain ⟨place, text⟩ := cancelError_message c.execution names reason
    exact ⟨_, _, error, text⟩
  announced bus := sound.cancellations_eq bus hx canceled error

/-- **Which reason is told** of a canceled execution: the one that the last revocation of it gave, whichever callers were
canceled before it or after it, except that an empty reason is told as that of a caller if the execution had begun; and
without a revocation, that of a caller.  The execution is the one that the revocation found, with its path and the step
that was in progress. -/
theorem reported_of_canceled {settings : Settings} {process : State → Step → Option Value → Except Raised Transition}
    {bus : Option (Lifecycle → Reaction)} {registry : Registry Handler} {last : Option Revocation}
    (run : ReachesWith x (fresh settings process bus registry) last e) (calm : e.Calm) (named : e.WellNamed)
    (hx : e.courses[x]? = some c) (canceled : c.execution.status = .canceled) :
    (last = none → Reported e x c.execution callerReason) ∧
    ∀ r, last = some r → Reported e x c.execution r.told ∧
      (r.told = r.reason ↔ r.found.status = .idle ∨ r.reason ≠ "") ∧
      r.found.Cancelable ∧ ∃ now names, c.execution = r.found.canceledFor now names r.told := by
  have start : (fresh settings process bus registry).Reachable := ⟨_, _, _, _, .refl⟩
  have sound : e.Sound := Reachable.sound (start.trans (run.reaches.mono fun _ _ _ => trivial)) calm named
  obtain ⟨names, names_eq, error⟩ := ((run.heeds start sound rfl).2 c hx).told canceled
  have reported := sound.reported hx canceled names_eq error
  refine ⟨?_, ?_⟩
  · rintro rfl
    exact reported
  · rintro r rfl
    obtain ⟨cancelable, now, names', reason, eq⟩ := run.found start sound hx canceled
    refine ⟨reported, r.told_eq_iff, cancelable, now, names, ?_⟩
    have error' : c.execution.error = some (c.execution.cancelError names' reason) := by rw [eq]; rfl
    obtain ⟨rfl, rfl⟩ := cancelError_inj (Option.some.inj (error.symm.trans error'))
    exact eq

end Told

section Runs

variable {e e' : Engine} {x : Nat} {c : Course} {last : Option Revocation}

/-- The host cancels an execution that has not ended. -/
theorem ReachesWith.cancel (run : ReachesWith x e last e') (free : e'.current = none) (hx : e'.courses[x]? = some c)
    (unfinished : c.execution.isFinished = false) (id reason : String) :
    ReachesWith x e (some ⟨c.execution, reason⟩) (e'.act (.host (.cancel (some x) id reason))) := by
  have revoked : e'.revocation? x (.host (.cancel (some x) id reason)) = some ⟨c.execution, reason⟩ :=
    revocation?_eq_some.mpr ⟨id, c, rfl, free, hx, unfinished, rfl⟩
  have last_eq : (e'.revocation? x (.host (.cancel (some x) id reason))).or last = some ⟨c.execution, reason⟩ := by
    rw [revoked, Option.some_or]
  rw [← last_eq]
  exact run.step fun timesOut => timesOut

/-- Tasks have their turns. -/
theorem ReachesWith.turns (run : ReachesWith x e last e') (fuel : Nat)
    (patient : ∀ n < fuel, (turns n e').Patient (.turn 0)) : ReachesWith x e last (turns fuel e') := by
  have on := turns_reaches (P := fun e a => e.Patient a ∧ ∃ place, a = .turn place) e' fuel
    fun n lt => ⟨patient n lt, 0, rfl⟩
  exact run.trans (on.of_turns x)

end Runs

/-- An engine with a resolver that waits. -/
def idleEngine : Engine :=
  let waits := Rehearsed.resolver "dwell" .propagate false ⟨none, .gated, .returns (.ok none)⟩ []
  fresh .standard Processing.standard (some fun _ => .accept) (Registry.empty.register "dwell" ⟨0, waits⟩)

/-- A workflow of a single step, which waits. -/
def dwelling : Workflow := ⟨[⟨"dwell", .null, .empty, by decide⟩], .text "trial", none, .empty, .empty⟩

/-- A run in which a caller waits for an execution, whose only step waits. -/
def engagedRun : Engine := turns 20 (idleEngine.act (.host (.run dwelling .null)))

/-- The same run once the caller has been canceled, before the execution has seen anything of it. -/
def forsakenRun : Engine := turns 2 (engagedRun.act (.host (.cancelRun 0)))

/-- A run in which the host cancels execution number 0 for a reason, and what comes of it. -/
def afterCancel (e : Engine) (reason : String) : Engine := turns 20 (e.act (.host (.cancel (some 0) "0" reason)))

theorem engagedRun_reachesWith : ReachesWith 0 idleEngine none engagedRun :=
  (ReachesWith.refl.step (a := .host (.run dwelling .null)) id).turns 20 (by decide +kernel)

theorem forsakenRun_reachesWith : ReachesWith 0 idleEngine none forsakenRun :=
  (engagedRun_reachesWith.step (a := .host (.cancelRun 0)) id).turns 2 (by decide +kernel)

theorem afterCancel_reachesWith {e : Engine} (reason : String) (run : ReachesWith 0 idleEngine none e)
    (free : e.current = none) (before : e.courses[0]?.map (·.execution.status) = some .running)
    (patient : ∀ n < 20, (turns n (e.act (.host (.cancel (some 0) "0" reason)))).Patient (.turn 0)) :
    ∃ found, ReachesWith 0 idleEngine (some ⟨found, reason⟩) (afterCancel e reason) := by
  obtain ⟨c, hx, running⟩ := Option.map_eq_some_iff.mp before
  have unfinished : c.execution.isFinished = false := by simp [Execution.isFinished, running, Status.isFinished]
  exact ⟨c.execution, (run.cancel free hx unfinished "0" reason).turns 20 patient⟩

theorem calm_of_idleEngine {last : Option Revocation} {e : Engine} (run : ReachesWith 0 idleEngine last e) : e.Calm :=
  run.reaches.calm_iff.mpr fun react h event => by cases h; rfl

/-- The reason of the host takes the place of that of the caller. -/
theorem forsakenRun_reported : ∃ c, (afterCancel forsakenRun "enough").courses[0]? = some c ∧
    Reported (afterCancel forsakenRun "enough") 0 c.execution "enough" ∧
    (afterCancel forsakenRun "enough").cancellations 0 = ["enough"] := by
  obtain ⟨found, run⟩ := afterCancel_reachesWith "enough" forsakenRun_reachesWith (by decide +kernel)
    (by decide +kernel) (by decide +kernel)
  have after : (afterCancel forsakenRun "enough").courses[0]?.map (·.execution.status) = some .canceled := by
    decide +kernel
  obtain ⟨c, hx, canceled⟩ := Option.map_eq_some_iff.mp after
  obtain ⟨-, told⟩ := reported_of_canceled run (calm_of_idleEngine run) (by decide +kernel) hx canceled
  obtain ⟨reported, faithful, -⟩ := told _ rfl
  rw [faithful.mpr (.inr (by simp))] at reported
  exact ⟨c, hx, reported, reported.announced (by decide +kernel)⟩

/-- An empty reason is told as that of a caller, though no caller was canceled. -/
theorem engagedRun_unreasoned : ∃ r c, ReachesWith 0 idleEngine (some r) (afterCancel engagedRun "") ∧
    (afterCancel engagedRun "").Calm ∧ (afterCancel engagedRun "").WellNamed ∧
    (afterCancel engagedRun "").courses[0]? = some c ∧ c.execution.status = .canceled ∧ r.reason = "" ∧
    (afterCancel engagedRun "").cancellations 0 = ["canceled by caller"] ∧
    ¬ Reported (afterCancel engagedRun "") 0 c.execution r.reason := by
  obtain ⟨found, run⟩ := afterCancel_reachesWith "" engagedRun_reachesWith (by decide +kernel)
    (by decide +kernel) (by decide +kernel)
  have after : (afterCancel engagedRun "").courses[0]?.map (·.execution.status) = some .canceled := by decide +kernel
  obtain ⟨c, hx, canceled⟩ := Option.map_eq_some_iff.mp after
  have announced : (afterCancel engagedRun "").cancellations 0 = ["canceled by caller"] := by decide +kernel
  refine ⟨_, c, run, calm_of_idleEngine run, by decide +kernel, hx, canceled, rfl, announced, fun reported => ?_⟩
  simpa [announced] using reported.announced (by decide +kernel)

end Engine

end Stepflow
