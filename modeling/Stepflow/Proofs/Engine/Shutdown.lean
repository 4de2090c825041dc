import Stepflow.Proofs.Engine.Ahead
import Stepflow.Proofs.Engine.Bystanders
import Stepflow.Proofs.Engine.Cancellation

/-!
# Stepflow.Proofs.Engine.Shutdown — what a shutdown leaves behind

* `LastLook`: a shutdown looks around for the last time.  `exists_lastLook`: a shutdown that returns has done so.
* `Barred`: a task that is over, or that has not begun and meets a cancellation when it does.
* `Closing`: what is known from the last look of a shutdown on; `Closing.step` keeps it.
* `settled_of_shutdown`: what a shutdown that returns leaves behind.  Executions that had not begun when it looked around
  for the last time are left idle, and all others have ended.
-/

namespace Stepflow.Engine

/-! ## The sweep -/

section Sweep

variable {e : Engine} {x : Nat} {c : Course}

theorem giveAll_courses (reason : String) (xs : List Nat) (e : Engine) (x : Nat) :
    (xs.foldl (fun e x => e.giveReason x reason) e).courses[x]? =
      e.courses[x]?.map fun c => if x ∈ xs then { c with reason := c.reason.or (some reason) } else c := by
  induction xs generalizing e with
  | nil => simp
  | cons y ys ih =>
    rw [List.foldl_cons, ih]
    simp only [giveReason, updateCourse, List.getElem?_modify, List.mem_cons]
    cases e.courses[x]? with
    | none => rfl
    | some c =>
      by_cases hxy : y = x
      · subst hxy
        by_cases mem : y ∈ ys <;> simp [mem]
      · simp [hxy, Ne.symm hxy]

theorem interruptAll_courses (ts : List TaskId) (e : Engine) (x : Nat) : (e.interruptAll ts).courses[x]? =
    e.courses[x]?.map fun c => if TaskId.course x ∈ ts then { c with life := c.life.interrupt } else c := by
  induction ts generalizing e with
  | nil => simp [interruptAll]
  | cons t ts ih =>
    have first : (e.interrupt t).courses[x]? =
        e.courses[x]?.map fun c => if t = .course x then { c with life := c.life.interrupt } else c := by
      cases t with
      | course y =>
        rw [interrupt_courses, List.getElem?_modify]
        by_cases hxy : y = x <;> simp [hxy]
      | delivery | caller | joiner | closer =>
        have same : ∀ t : TaskId, (∀ y, t ≠ .course y) → (e.interrupt t).courses = e.courses := by
          intro t ne
          unfold interrupt
          split
          · rfl
          · cases t with
            | course y => exact absurd rfl (ne y)
            | _ => dsimp only; split <;> rfl
        simp [same]
    unfold interruptAll at ih ⊢
    rw [List.foldl_cons, ih, first]
    cases e.courses[x]? with
    | none => rfl
    | some c =>
      by_cases ht : t = .course x
      · subst ht
        by_cases mem : TaskId.course x ∈ ts <;> simp [mem, Life.interrupt_interrupt]
      · simp [ht, Ne.symm ht]

theorem mem_running : x ∈ e.running ↔ x < e.courses.length ∧ e.isOver (.course x) = false := by
  simp [running]

theorem course_mem_pending : TaskId.course x ∈ e.pending ↔ x ∈ e.running := by
  simp [pending]

@[simp] theorem report_courses (level : Level) (message : String) : (e.report level message).courses = e.courses := rfl

@[simp] theorem report_running (level : Level) (message : String) : (e.report level message).running = e.running := rfl

/-- The sweep sends a cancellation to every live task, and gives it a reason unless it has one. -/
theorem sweep_courses (hx : e.courses[x]? = some c) : e.sweep.1.courses[x]? = some (if c.life.isOver = true then c
    else { c with life := c.life.interrupt, reason := c.reason.or (some shutdownReason) }) := by
  have lt := (List.getElem?_eq_some_iff.mp hx).1
  have running : x ∈ e.running ↔ c.life.isOver = false := by
    simp only [mem_running, isOver, hx, Option.all_some, lt, true_and]
  simp only [sweep, interruptAll_courses, giveAll_courses, report_courses, report_running, hx, Option.map_some,
    course_mem_pending]
  cases stopped : c.life.isOver <;> simp [running, stopped]

end Sweep

/-! ## The last look -/

/-- Shutdown number `k` looks around for the last time: nothing is pending, or its time is up. -/
structure LastLook (e : Engine) (k : Nat) : Prop where
  current : e.current = some (.closer k)
  flushing : ∃ deadline, e.closers[k]? = some (.live (.flushing deadline) false) ∧
    (e.pending.isEmpty = true ∨ deadline ≤ e.clock)

/-- Shutdown number `k` has returned. -/
def Returned (e : Engine) (k : Nat) : Prop := e.closers[k]? = some (.over .done)

instance (e : Engine) (k : Nat) : Decidable (e.Returned k) :=
  decidable_of_iff ((match e.closers[k]? with
    | some (.over .done) => true
    | _ => false) = true) <| by
  unfold Returned
  split <;> simp_all

theorem Returned.closers_eq {e : Engine} {k : Nat} (h : e.Returned k) : e.closers[k]? = some (.over .done) := h

section LastLook

variable {P : Engine → Act → Prop} {e e' : Engine} {k : Nat} {a : Act}

/-- The turn of a shutdown that has the processor. -/
theorem Happens.closer_of_current {stage : CloserStage} (h : Happens e a e') (current : e.current = some (.closer k))
    (at_k : e.closers[k]? = some (.live stage false)) : e' = e ∨ e' = settleCloser k (e.moveCloser stage) := by
  cases h with
  | still => exact .inl rfl
  | chosen free | host free => simp [free] at current
  | vacant current' stopped =>
    obtain rfl := Option.some.inj (current'.symm.trans current)
    simp [isOver, at_k, Life.isOver] at stopped
  | course current' | delivery current' | caller current' | callerCanceled current' | joiner current'
  | joinerCanceled current' => simp [current'] at current
  | closer current' life =>
    simp only [current', Option.some.injEq, TaskId.closer.injEq] at current
    subst current
    simp only [at_k, Option.some.injEq, Life.live.injEq, and_true] at life
    subst life
    exact .inr rfl
  | closerCanceled current' life =>
    simp only [current', Option.some.injEq, TaskId.closer.injEq] at current
    subst current
    simp [at_k] at life

theorem settleCloser_at {r : Engine × Move CloserStage} {life : Life CloserStage} (at_k : r.1.closers[k]? = some life) :
    (settleCloser k r).closers[k]? = some (lifeAfter r.2) := by
  have closers : ∀ (e : Engine), (e.handOn (.closer k) r.2).closers = e.closers := by
    intro e
    cases r.2 <;> rfl
  simp [settleCloser, closers, at_k]

/-- The caller of a shutdown that has been canceled does not return. -/
theorem Happens.lost (h : Happens e a e') (lost : e.Lost k) : e'.Lost k := by
  by_cases current : e.current = some (.closer k)
  · cases h with
    | still => exact lost
    | vacant => exact lost
    | chosen free | host free => simp [free] at current
    | course current' | delivery current' | caller current' | callerCanceled current' | joiner current'
    | joinerCanceled current' => simp [current'] at current
    | closer current' life =>
      simp only [current', Option.some.injEq, TaskId.closer.injEq] at current
      subst current
      rcases lost with ⟨stage, at_k⟩ | at_k <;> simp [at_k] at life
    | closerCanceled current' life =>
      simp only [current', Option.some.injEq, TaskId.closer.injEq] at current
      subst current
      exact .inr (settleCloser_at (r := (_, .stop .canceled)) life)
  · exact (h.attends current).lost lost

/-- A shutdown that returns has looked around for the last time before. -/
theorem exists_lastLook {e₂ : Engine} {deadline : Rat} (run : Reaches P e e₂) (reachable : e.Reachable) (sound : e₂.Sound)
    (begun : e.closers[k]? = some (.live (.flushing deadline) false)) (returned : e₂.Returned k) :
    ∃ look place, Reaches P e look ∧ look.LastLook k ∧ P look (.turn place) ∧
      Reaches P (look.act (.turn place)) e₂ := by
  -- along the run the caller has been canceled, still flushes, or has its last look behind it
  have inv : e₂.Lost k ∨ e₂.closers[k]? = some (.live (.flushing deadline) false) ∨
      ∃ look place, Reaches P e look ∧ look.LastLook k ∧ P look (.turn place) ∧
        Reaches P (look.act (.turn place)) e₂ := by
    refine run.induction (I := fun e₂ => e₂.Lost k ∨ e₂.closers[k]? = some (.live (.flushing deadline) false) ∨
      ∃ look place, Reaches P e look ∧ look.LastLook k ∧ P look (.turn place) ∧
        Reaches P (look.act (.turn place)) e₂) reachable sound (.inr (.inl begun))
      fun e₁ a before sound₁ _ admitted _ inv => ?_
    have happens := sound₁.happens a
    rcases inv with lost | flushing | ⟨look, place, to_look, last, turn, on⟩
    · exact .inl (happens.lost lost)
    · by_cases current : e₁.current = some (.closer k)
      · cases a with
        | host deed =>
          have still : e₁.act (.host deed) = e₁ := by simp [act, current]
          exact .inr (.inl (by rw [still]; exact flushing))
        | turn place =>
          by_cases last : e₁.pending.isEmpty = true ∨ deadline ≤ e₁.clock
          · exact .inr (.inr ⟨e₁, place, before, ⟨current, deadline, flushing, last⟩, admitted, .refl⟩)
          -- something is pending and there is time: the shutdown goes back to waiting
          · obtain ⟨unfinished, early⟩ := not_or.mp last
            rcases happens.closer_of_current current flushing with eq | eq <;> rw [eq]
            · exact .inr (.inl flushing)
            · simp only [moveCloser, if_neg unfinished, if_neg early]
              exact .inr (.inl (settleCloser_at flushing))
      · rcases (happens.attends current).closer _ flushing with flushing | lost
        · exact .inr (.inl flushing)
        · exact .inl lost
    · exact .inr (.inr ⟨look, place, to_look, last, turn, on.step admitted⟩)
  rcases inv with (⟨stage, lost⟩ | lost) | flushing | looked
  · simp [returned.closers_eq] at lost
  · simp [returned.closers_eq] at lost
  · simp [returned.closers_eq] at flushing
  · exact looked

end LastLook

/-! ## From the last look on -/

/-- The host does not cancel execution number `x` in acts that `P` admits. -/
def Unbidden (P : Engine → Act → Prop) (x : Nat) : Prop := ∀ e id reason, ¬ P e (.host (.cancel (some x) id reason))

/-- The reason that is told of an execution which a sweep found as `c`: the one that it had, or that of the shutdown. -/
def Told (P : Engine → Act → Prop) (x : Nat) (c : Course) (reason : String) : Prop :=
  Unbidden P x → reason = givenReason (c.reason.or (some shutdownReason))

/-- What was `c` does not run: its task is over, or has not begun and will meet a cancellation.  The execution is as it
was, or it was idle and has been canceled by order of the host. -/
structure Barred (unbidden : Prop) (c c' : Course) : Prop where
  life : c'.life.isOver = true ∨ c.life.isOver = false ∧ c'.life = .live .opening true
  execution : c'.execution = c.execution ∨ ¬ unbidden ∧ c.execution.status = .idle ∧
    ∃ now names reason, c'.execution = c.execution.canceledFor now names reason

/-- What the last look of shutdown number `k` at `e` has come to in `e'`. -/
structure Closing (P : Engine → Act → Prop) (e : Engine) (k : Nat) (e' : Engine) : Prop where
  length : e'.courses.length = e.courses.length
  running : ∀ (x : Nat) (c : Course), e.courses[x]? = some c → c.execution.status = .running →
    Halting (Told P x c) e x c e'
  barred : ∀ (x : Nat) (c : Course), e.courses[x]? = some c → c.execution.status ≠ .running →
    ∃ c', e'.courses[x]? = some c' ∧ Barred (Unbidden P x) c c'
  closer : (∀ (x : Nat) (c : Course), e'.courses[x]? = some c → c.life.isOver = true) ∨ e'.Lost k ∨
    e'.closers[k]? = some (.live .sweeping false) ∧ (TaskId.closer k, Wait.tasks e.pending none) ∈ e'.waits

section Closing

variable {P : Engine → Act → Prop} {e e' e'' : Engine} {x k : Nat} {c c' c'' : Course} {a : Act}

theorem Barred.barren {unbidden : Prop} {eff : Effect} (h : Barred unbidden c c') (moved : Moved e x c' eff) :
    c'.life = .live .opening true ∧ eff = .quiet c'.execution c'.scheduled (.stop .canceled) := by
  cases moved with
  | advanced life => rcases h.life with stopped | ⟨-, opening⟩ <;> simp_all [Life.isOver]
  | diverted life =>
    rcases h.life with stopped | ⟨-, opening⟩
    · simp [life, Life.isOver] at stopped
    · rw [opening] at life
      cases life
      exact ⟨opening, rfl⟩

theorem Barred.fate {unbidden : Prop} {maxDepth : Int} (h : Barred unbidden c c') (fate : Fate e e' x c' c'')
    (stands : Stands maxDepth c'.execution c'.scheduled c'.life)
    (spares : unbidden → c''.execution = c'.execution) : Barred unbidden c c'' := by
  cases fate with
  | kept => exact h
  | moved current moved =>
    obtain ⟨life, rfl⟩ := h.barren moved
    exact ⟨.inl rfl, h.execution⟩
  | touched touched =>
    refine ⟨?life, ?execution⟩
    case life =>
      rcases h.life with stopped | ⟨live, opening⟩
      · exact .inl (touched.over_eq.trans stopped)
      · refine .inr ⟨live, ?_⟩
        rcases touched.life_eq with eq | eq <;> rw [eq, opening]
        rfl
    -- only the host marks an execution that has not begun, and only while it is idle
    case execution =>
      by_cases unbidden
      · next spared => rw [spares spared]; exact h.execution
      · next bidden =>
        have marks : c'.execution.status = .idle → ∀ now names reason,
            c''.execution = c'.execution.canceledFor now names reason → c''.execution = c.execution ∨ ¬ unbidden ∧
              c.execution.status = .idle ∧
                ∃ now names reason, c''.execution = c.execution.canceledFor now names reason := by
          intro idle now names reason eq
          rcases h.execution with same | ⟨-, -, _, _, _, canceled⟩
          · rw [same] at idle eq
            exact .inr ⟨bidden, idle, now, names, reason, eq⟩
          · simp [canceled] at idle
        rcases touched with signaled | marked
        · rw [signaled.execution]
          exact h.execution
        · have idle := (marked.unbegun stands).status_eq
          cases marked with
          | waiting | stranded => exact marks idle _ _ _ rfl

/-- Nothing is pending: all tasks are over. -/
theorem over_of_not_pending (quiet : TaskId.course x ∉ e.pending) (hx : e.courses[x]? = some c) :
    c.life.isOver = true := by
  have lt := (List.getElem?_eq_some_iff.mp hx).1
  rw [course_mem_pending, mem_running] at quiet
  simpa only [isOver, hx, lt, true_and, Option.all_some, Bool.not_eq_false] using quiet

theorem lookAround_eq {deadline : Rat} (current : e.current = some (.closer k))
    (flushing : e.closers[k]? = some (.live (.flushing deadline) false)) (place : Nat) :
    e.act (.turn place) = settleCloser k (e.moveCloser (.flushing deadline)) := by
  simp [act, turnAt, current, move, flushing]

/-- The last look finds nothing pending, or sends a cancellation to everything that is. -/
theorem LastLook.closing (last : e.LastLook k) (sound : e.Sound) (place : Nat) :
    Closing P e k (e.act (.turn place)) := by
  obtain ⟨current, deadline, flushing, reason⟩ := last
  have standing := sound.standing
  have rests : ∀ (x : Nat) (c : Course), e.courses[x]? = some c → Resting c.life :=
    fun x c hx => standing.rests x c hx (by simp [current])
  rw [lookAround_eq current flushing]
  -- nothing is pending, so all tasks are over; else the time is up and the sweep reaches every live task
  by_cases empty : e.pending.isEmpty = true
  · have stopped : ∀ (x : Nat) (c : Course), e.courses[x]? = some c → c.life.isOver = true := fun x c hx =>
      over_of_not_pending (by simp [List.isEmpty_iff.mp empty]) hx
    have courses : (settleCloser k (e.moveCloser (.flushing deadline))).courses = e.courses := by
      simp only [moveCloser, if_pos empty]
      exact handOn_courses _ _ _
    refine ⟨by rw [courses], fun x c hx running => ?_, fun x c hx _ => ⟨c, by rw [courses]; exact hx, ?_⟩, ?_⟩
    · exact absurd (stopped x c hx) (by simp [(standing.stands x c hx).live_of_running running])
    · exact ⟨.inl (stopped x c hx), .inl rfl⟩
    · exact .inl (by rw [courses]; exact stopped)
  · have late : deadline ≤ e.clock := reason.resolve_left empty
    have swept : e.moveCloser (.flushing deadline) = e.sweep := by
      simp only [moveCloser, if_neg empty, if_pos late]
    rw [swept]
    have courses : (settleCloser k e.sweep).courses = e.sweep.1.courses := handOn_courses _ _ _
    refine ⟨?length, fun x c hx running => ?running, fun x c hx idle => ?barred, .inr (.inr ⟨?closer, ?waits⟩)⟩
    case length => rw [courses, (signals_nudging.sweep e).courses.1]
    case running =>
      have stands := standing.stands x c hx
      have live := stands.live_of_running running
      have after := sweep_courses hx
      rw [if_neg (by simp [live]), ← courses] at after
      refine .of_elsewhere (settleCloser_elsewhere k (signals_nudging.sweep e).elsewhere) sound.threading hx after ?_
      refine .of_signal stands (rests x c hx) running (by simp [RaisedIn]) rfl rfl ?_ fun _ => rfl
      cases c.reason <;> rfl
    case barred =>
      refine ⟨_, by rw [courses]; exact sweep_courses hx, ?_⟩
      cases live : c.life.isOver with
      | true => exact ⟨.inl (by simp [live]), .inl (by simp)⟩
      | false =>
        -- a live task of an execution that does not run has not begun: it will meet the cancellation
        obtain ⟨interrupted, opening⟩ := (standing.stands x c hx).opening_of_rests (rests x c hx) idle live
        exact ⟨.inr ⟨live, by simp [opening, Life.interrupt]⟩, .inl (by simp)⟩
    case closer =>
      have left := ((leaves_nudging k).sweep e).closer _ flushing
      obtain ⟨life, at_k⟩ : ∃ life, e.sweep.1.closers[k]? = some life := by
        rcases left with at_k | ⟨stage, at_k⟩ | at_k <;> exact ⟨_, at_k⟩
      exact settleCloser_at at_k
    case waits =>
      simp [settleCloser, sweep, handOn]

/-- No execution is accepted after the last look, unless the host submits one. -/
theorem Closing.known (h : Closing P e k e') (outline : Outline e' e'')
    (unsubmitted : ∀ y c, e.courses.length ≤ y → e''.courses[y]? = some c → c.execution.parent ≠ none) :
    e''.courses.length = e'.courses.length := by
  refine Nat.le_antisymm (Nat.not_lt.mp fun more => ?_) outline.length_le
  have hy := List.getElem?_eq_getElem more
  obtain ⟨-, execution, eq, ⟨workflow, state, rfl⟩ | ⟨p, c', eff, -, hp, moved, born⟩⟩ :=
    outline.newborn hy (List.getElem?_eq_none (Nat.le_refl _))
  · exact unsubmitted _ _ (Nat.le_of_eq h.length.symm) hy (by rw [eq]; rfl)
  · have lt : p < e.courses.length := h.length ▸ (List.getElem?_eq_some_iff.mp hp).1
    have before := List.getElem?_eq_getElem lt
    -- what was there at the last look brings no children: it is doomed or barred
    by_cases running : e.courses[p].execution.status = .running
    · obtain ⟨d, notes, hd, -, -, doomed⟩ := (h.running p _ before running).doomed
      obtain rfl : c' = d := by simpa [hp] using hd
      simp [(doomed.barren moved).1] at born
    · obtain ⟨d, hd, barred⟩ := h.barred p _ before running
      obtain rfl : c' = d := by simpa [hp] using hd
      simp [(barred.barren moved).2] at born

theorem Closing.step (h : Closing P e k e') (sound : e.Sound) (sound' : e'.Sound) (admitted : P e' a)
    (unsubmitted : ∀ y c, e.courses.length ≤ y → (e'.act a).courses[y]? = some c → c.execution.parent ≠ none) :
    Closing P e k (e'.act a) := by
  have outline := sound'.outline a
  have happens := sound'.happens a
  have length := h.known outline unsubmitted
  -- unless the host orders it, only its own task changes an execution or the reason that is pending
  have spares : ∀ x, Unbidden P x → (∀ c, e'.current = some (.course x) → e'.courses[x]? = some c →
      c.life.isOver = true) → Spares x e' (e'.act a) := fun x unbidden =>
    happens.spares fun id reason eq => unbidden e' id reason (eq ▸ admitted)
  have barred : ∀ x c, e.courses[x]? = some c → c.execution.status ≠ .running →
      ∃ c', (e'.act a).courses[x]? = some c' ∧ Barred (Unbidden P x) c c' := by
    intro x c hx idle
    obtain ⟨c', hx', barred⟩ := h.barred x c hx idle
    obtain ⟨c'', hx'', fate⟩ := outline.fate hx'
    refine ⟨c'', hx'', barred.fate fate (sound'.standing.stands x c' hx') fun unbidden => ?_⟩
    cases fate with
    | kept => rfl
    | moved current moved => rw [(barred.barren moved).2]; rfl
    | touched touched away =>
      obtain ⟨d, hd, execution, -⟩ := spares x unbidden (fun d current hd => by
        obtain rfl : c' = d := by simpa [hx'] using hd
        exact away current) c' hx'
      obtain rfl : c'' = d := by simpa [hx''] using hd
      exact execution
  refine ⟨length.trans h.length, fun x c hx running => ?running, barred, ?closer⟩
  case running =>
    refine (h.running x c hx running).step outline sound'.standing fun c₁ c₂ hx₁ hx₂ away isSome told unbidden => ?_
    obtain ⟨r, hr⟩ := Option.isSome_iff_exists.mp isSome
    obtain ⟨d, hd, -, reason⟩ := spares x unbidden (fun d current hd => by
      obtain rfl : c₁ = d := by simpa [hx₁] using hd
      exact away current) c₁ hx₁
    obtain rfl : c₂ = d := by simpa [hx₂] using hd
    rw [reason r hr, ← hr]
    exact told unbidden
  case closer =>
    rcases h.closer with stopped | lost | ⟨sweeping, waits⟩
    · refine .inl fun x c hx => ?_
      have lt : x < e'.courses.length := length ▸ (List.getElem?_eq_some_iff.mp hx).1
      obtain ⟨d, hd, fate⟩ := outline.fate (List.getElem?_eq_getElem lt)
      obtain rfl : c = d := by simpa [hx] using hd
      exact fate.over (stopped x _ (List.getElem?_eq_getElem lt))
    · exact .inr (.inl (happens.lost lost))
    -- the closer waits for the tasks that the sweep reached, so this act is no turn of it
    · have away : e'.current ≠ some (.closer k) := fun current => by
        obtain ⟨-, elsewhere⟩ := sound'.placed.away current
        exact elsewhere (List.mem_map_of_mem (f := Prod.fst) waits)
      have attends := happens.attends away
      rcases attends.closer _ sweeping with sweeping | lost
      · rcases attends.waits _ waits with waits | lost | stopped
        · exact .inr (.inr ⟨sweeping, waits⟩)
        · exact .inr (.inl lost)
        · refine .inl fun x c hx => ?_
          have lt : x < e.courses.length := h.length ▸ length ▸ (List.getElem?_eq_some_iff.mp hx).1
          have before := List.getElem?_eq_getElem lt
          by_cases pending : TaskId.course x ∈ e.pending
          · simpa [isOver, hx] using stopped _ pending
          · have ended := over_of_not_pending pending before
            obtain ⟨d, hd, still⟩ := barred x _ before fun running =>
              absurd ended (by simp [(sound.standing.stands x _ before).live_of_running running])
            obtain rfl : c = d := by simpa [hx] using hd
            rcases still.life with stopped | ⟨live, -⟩
            · exact stopped
            · simp [ended] at live
      · exact .inr (.inl lost)

end Closing

/-! ## What a shutdown leaves behind -/

/-- What a shutdown that looked around for the last time at `e` has left behind at `e'`, by acts that `P` admits. -/
structure Settled (P : Engine → Act → Prop) (e e' : Engine) : Prop where
  stopped : ∀ c ∈ e'.courses, c.life.isOver = true
  known : e'.courses.length = e.courses.length
  /-- What has not ended is idle, and was idle already. -/
  finished : ∀ (x : Nat) (c' : Course), e'.courses[x]? = some c' → c'.execution.isFinished = true ∨
    c'.execution.status = .idle ∧ ∃ c, e.courses[x]? = some c ∧ c.execution.status = .idle
  /-- If the host cancels nothing, all has ended exactly if nothing was idle. -/
  finished_iff : (∀ x, Unbidden P x) →
    ((∀ c' ∈ e'.courses, c'.execution.isFinished = true) ↔ ∀ c ∈ e.courses, c.execution.status ≠ .idle)
  /-- What was idle is idle, unless the host canceled it. -/
  idle : ∀ (x : Nat) (c : Course), e.courses[x]? = some c → c.execution.status = .idle → Unbidden P x →
    ∃ c', e'.courses[x]? = some c' ∧ c'.execution.status = .idle
  /-- What ran has been canceled, for the reason that it had or that of the shutdown unless the host gave another, or it has
  failed by the failure of its resolver in progress. -/
  cutOff : ∀ (x : Nat) (c : Course), e.courses[x]? = some c → c.execution.status = .running →
    ∃ c', e'.courses[x]? = some c' ∧
      ((∃ now names reason, c'.execution = c.execution.canceledFor now names reason ∧
        (Unbidden P x → reason = givenReason (c.reason.or (some shutdownReason)))) ∨
      c'.execution.status = .failed ∧ ∃ i handler next canceled interrupted f,
        c.life = .live (.holding i handler next canceled) interrupted ∧ handler.resolver.policy = .propagate ∧
          CallNote.ended x i (.error (.failure f)) ∈ e'.calls.drop e.calls.length)

section Settled

variable {P : Engine → Act → Prop} {e e' : Engine} {k : Nat}

theorem Closing.settled (h : Closing P e k e') (standing : e.Standing) (standing' : e'.Standing)
    (returned : e'.Returned k) : Settled P e e' := by
  -- a closer that has returned is neither lost nor at its sweep
  have stopped : ∀ (x : Nat) (c : Course), e'.courses[x]? = some c → c.life.isOver = true := by
    rcases h.closer with stopped | (⟨stage, lost⟩ | lost) | ⟨sweeping, -⟩
    · exact stopped
    · simp [returned.closers_eq] at lost
    · simp [returned.closers_eq] at lost
    · simp [returned.closers_eq] at sweeping
  have cutOff : ∀ (x : Nat) (c : Course), e.courses[x]? = some c → c.execution.status = .running →
      ∃ c', e'.courses[x]? = some c' ∧ ((∃ now names reason, c'.execution = c.execution.canceledFor now names reason ∧
        (Unbidden P x → reason = givenReason (c.reason.or (some shutdownReason)))) ∨
      c'.execution.status = .failed ∧ ∃ i handler next canceled interrupted f,
        c.life = .live (.holding i handler next canceled) interrupted ∧ handler.resolver.policy = .propagate ∧
          CallNote.ended x i (.error (.failure f)) ∈ e'.calls.drop e.calls.length) := by
    intro x c hx running
    obtain ⟨c', notes, hx', calls, -, doomed⟩ := (h.running x c hx running).doomed
    refine ⟨c', hx', ?_⟩
    rcases doomed.execution_cases with ⟨-, -, live⟩ | ⟨now, names, reason, eq, told, -⟩ |
      ⟨now, names, step, message, cause, eq, harmful⟩
    · simp [stopped x c' hx'] at live
    · exact .inl ⟨now, names, reason, eq, told⟩
    · refine .inr ⟨by simp [eq], ?_⟩
      rw [calls, List.drop_left]
      exact (harmful_iff (standing.stands x c hx)).mp harmful
  have finished : ∀ (x : Nat) (c' : Course), e'.courses[x]? = some c' → c'.execution.isFinished = true ∨
      c'.execution.status = .idle ∧ ∃ c, e.courses[x]? = some c ∧ c.execution.status = .idle := by
    intro x c' hx'
    have lt : x < e.courses.length := h.length ▸ (List.getElem?_eq_some_iff.mp hx').1
    have before := List.getElem?_eq_getElem lt
    by_cases running : e.courses[x].execution.status = .running
    · obtain ⟨d, hd, ⟨now, names, reason, eq, -⟩ | ⟨failed, -⟩⟩ := cutOff x _ before running
      · obtain rfl : c' = d := by simpa [hx'] using hd
        exact .inl (by simp [Execution.isFinished, eq, Status.isFinished])
      · obtain rfl : c' = d := by simpa [hx'] using hd
        exact .inl (by simp [Execution.isFinished, failed, Status.isFinished])
    · obtain ⟨d, hd, barred⟩ := h.barred x _ before running
      obtain rfl : c' = d := by simpa [hx'] using hd
      rcases barred.execution with same | ⟨-, -, now, names, reason, eq⟩
      · have stands := standing'.stands x c' hx'
        cases hc : c'.life with
        | live => exact absurd (stopped x c' hx') (by simp [hc, Life.isOver])
        | ended ending =>
          rw [hc] at stands
          cases stands with
          | settled ended => exact .inl ended.finished
          | dropped unbegun => exact .inr ⟨unbegun.status_eq, _, before, same ▸ unbegun.status_eq⟩
      · exact .inl (by simp [Execution.isFinished, eq, Status.isFinished])
  have idle : ∀ (x : Nat) (c : Course), e.courses[x]? = some c → c.execution.status = .idle → Unbidden P x →
      ∃ c', e'.courses[x]? = some c' ∧ c'.execution.status = .idle := by
    intro x c hx idle unbidden
    obtain ⟨c', hx', barred⟩ := h.barred x c hx (by simp [idle])
    rcases barred.execution with same | ⟨bidden, -⟩
    · exact ⟨c', hx', by rw [same]; exact idle⟩
    · exact absurd unbidden bidden
  refine ⟨fun c hc => ?_, h.length, finished, fun unbidden => ⟨fun ended c hc idle_c => ?_, fun begun c' hc' => ?_⟩, idle,
    cutOff⟩
  · obtain ⟨x, hx⟩ := List.mem_iff_getElem?.mp hc
    exact stopped x c hx
  · obtain ⟨x, hx⟩ := List.mem_iff_getElem?.mp hc
    obtain ⟨c', hx', idle'⟩ := idle x c hx idle_c (unbidden x)
    have finished' := ended c' (List.mem_of_getElem? hx')
    simp [Execution.isFinished, idle', Status.isFinished] at finished'
  · obtain ⟨x, hx'⟩ := List.mem_iff_getElem?.mp hc'
    rcases finished x c' hx' with ended | ⟨-, c, hx, idle_c⟩
    · exact ended
    · exact absurd idle_c (begun c (List.mem_of_getElem? hx))

/-- **A shutdown that returns has ended every execution but those that had not begun** when it looked around for the
last time: these are left idle. -/
theorem settled_of_shutdown (reachable : e.Reachable) (free : e.current = none) (timeout : Option Rat)
    (run : Reaches P (e.act (.host (.shutdown timeout))) e')
    (returned : e'.Returned e.closers.length)
    (unsubmitted : ∀ y c, e.courses.length ≤ y → e'.courses[y]? = some c → c.execution.parent ≠ none)
    (calm : e'.Calm) (named : e'.WellNamed) :
    ∃ look, Reaches P (e.act (.host (.shutdown timeout))) look ∧ Reaches P look e' ∧
      look.LastLook e.closers.length ∧ Settled P look e' := by
  have begun : (e.act (.host (.shutdown timeout))).closers[e.closers.length]? =
      some (.live (.flushing (e.clock + timeout.getD e.settings.flushTimeout)) false) := by
    simp [act, free, undergo, beginShutdown]
  have known : (e.act (.host (.shutdown timeout))).courses.length = e.courses.length := by
    simp [act, free, undergo, beginShutdown]
  have first : Reaches anyOrder e (e.act (.host (.shutdown timeout))) := .single trivial
  have any : ∀ {e₁ e₂}, Reaches P e₁ e₂ → Reaches anyOrder e₁ e₂ := fun run => run.mono fun _ _ _ => trivial
  have reachable₁ : Reachable (e.act (.host (.shutdown timeout))) := reachable.trans first
  have reachable' : e'.Reachable := reachable₁.trans (any run)
  have sound' := reachable'.sound calm named
  obtain ⟨look, place, to_look, last, admitted, on⟩ := exists_lastLook run reachable₁ sound' begun returned
  have look_reachable : look.Reachable := reachable₁.trans (any to_look)
  have turn : Reaches P look (look.act (.turn place)) := .single admitted
  have look_sound := sound'.of_reaches look_reachable (turn.trans on)
  have le : e.courses.length ≤ look.courses.length := by
    refine to_look.induction (I := fun e₁ => e.courses.length ≤ e₁.courses.length) reachable₁ look_sound
      (Nat.le_of_eq known.symm) fun _ _ _ _ _ _ outline le => Nat.le_trans le outline.length_le
  -- `unsubmitted` speaks of the end of the run, so the induction carries it as a premise: what is submitted later
  -- has no parent in any later state
  have closing : (∀ y c, e.courses.length ≤ y → e'.courses[y]? = some c → c.execution.parent ≠ none) →
      Closing P look e.closers.length e' := by
    refine on.induction (I := fun e₁ => (∀ y c, e.courses.length ≤ y → e₁.courses[y]? = some c →
      c.execution.parent ≠ none) → Closing P look e.closers.length e₁) (look_reachable.trans (any turn)) sound'
      (fun _ => last.closing look_sound place) fun e₁ a _ sound₁ _ admitted outline closing unsubmitted => ?_
    refine (closing fun y c hy hc => ?_).step look_sound sound₁ admitted fun y c hy => unsubmitted y c (Nat.le_trans le hy)
    obtain ⟨c', hc', fate⟩ := outline.fate hc
    rw [← Execution.parent_eq fate.origin_eq]
    exact unsubmitted y c' hy hc'
  exact ⟨look, to_look, turn.trans on, last,
    (closing unsubmitted).settled look_sound.standing sound'.standing returned⟩

/-- An execution that runs when the time of the shutdown is up is canceled. -/
theorem heldRun_settled : ∃ look, look.LastLook 0 ∧
    Settled (fun _ a => a = .turn 0) look (turns 20 (heldRun.act (.host (.shutdown (some 0))))) ∧
    (turns 20 (heldRun.act (.host (.shutdown (some 0))))).courses[0]?.map (·.execution.status) = some .canceled := by
  have run : Reaches inOrder _ heldRun := rehearse_reaches _ _ _
  have on := turns_reaches (P := fun _ a => a = .turn 0) (heldRun.act (.host (.shutdown (some 0)))) 20 fun _ _ => rfl
  have all := run.mono (Q := anyOrder) fun _ _ _ => trivial
  have calm := ((all.trans (.single trivial)).trans (on.mono fun _ _ _ => trivial)).calm_iff.mpr (fresh_calm _ _ _)
  have closers : heldRun.closers.length = 0 := by decide +kernel
  have length : (turns 20 (heldRun.act (.host (.shutdown (some 0))))).courses.length = heldRun.courses.length := by
    decide +kernel
  obtain ⟨look, -, -, last, settled⟩ := settled_of_shutdown run.of_fresh.reachable (by decide +kernel) (some 0) on
    (by decide +kernel) (fun y c le hc => absurd (List.getElem?_eq_some_iff.mp hc).1 (by omega)) calm (by decide +kernel)
  exact ⟨look, closers ▸ last, settled, by decide +kernel⟩

/-- A run in which an execution has been submitted and has not begun. -/
def hastyRun : Engine :=
  (fresh .standard Processing.standard none Registry.empty).act (.host (.start ⟨[], .null, none, .empty, .empty⟩ .null))

/-- A shutdown without time to wait leaves an execution idle that has just been submitted, and returns. -/
theorem hastyRun_left_idle : hastyRun.Reachable ∧ hastyRun.current = none ∧
    Reaches (fun _ a => a = .turn 0) (hastyRun.act (.host (.shutdown (some 0))))
      (turns 20 (hastyRun.act (.host (.shutdown (some 0))))) ∧
    (turns 20 (hastyRun.act (.host (.shutdown (some 0))))).Returned hastyRun.closers.length ∧
    (turns 20 (hastyRun.act (.host (.shutdown (some 0))))).courses.length = hastyRun.courses.length ∧
    (turns 20 (hastyRun.act (.host (.shutdown (some 0))))).Calm ∧
    (turns 20 (hastyRun.act (.host (.shutdown (some 0))))).WellNamed ∧
    (turns 20 (hastyRun.act (.host (.shutdown (some 0))))).courses[0]?.map (·.execution.status) = some .idle := by
  have run : Reaches anyOrder _ hastyRun := .single trivial
  have on := turns_reaches (P := fun _ a => a = .turn 0) (hastyRun.act (.host (.shutdown (some 0)))) 20 fun _ _ => rfl
  have calm := ((run.trans (.single trivial)).trans (on.mono fun _ _ _ => trivial)).calm_iff.mpr (fresh_calm _ _ _)
  exact ⟨run.of_fresh, by decide +kernel, on, by decide +kernel, by decide +kernel, calm, by decide +kernel,
    by decide +kernel⟩

end Settled

end Stepflow.Engine
