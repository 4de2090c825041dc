import Stepflow.Processing
import Stepflow.Proofs.Engine.Standing
import Stepflow.Resolver.Rehearsed

/-!
# Stepflow.Proofs.Engine.Statuses — the status machine of an execution

* `Status.Edge`: the changes of status that there are.  `Outline.progresses`: an act takes an execution along one of them,
  or leaves its status as it is.
* `Reaches.rests_finished`: an execution that has ended stays what it is, whatever happens.
* `Execution.Attests`: time of end, error and result of an execution agree with its status.  `Sound.attests`.

What an execution can do is read off the stage of its task (`Stands`); a cancellation from outside marks only an execution
that has not begun.
-/

namespace Stepflow

/-- The changes of status. -/
inductive Status.Edge : Status → Status → Prop
  | begun : Edge .idle .running
  | dropped : Edge .idle .canceled
  | spawning : Edge .running .spawning
  | completed : Edge .running .completed
  | spawned : Edge .spawning .completed
  | failed : Edge .running .failed
  | canceled : Edge .running .canceled

namespace Execution

/-- The status stays or changes along an edge, what ends is given the time of its end, and what has ended stays as it
is. -/
structure Progresses (now : Rat) (a b : Execution) : Prop where
  edge : b.status = a.status ∨ Status.Edge a.status b.status
  ends : a.isFinished = false → b.isFinished = true → b.completedAt = some now
  absorbed : a.isFinished = true → b = a

/-- What time of end, error and result say about the status. -/
structure Attests (a : Execution) : Prop where
  completed_iff : a.completedAt.isSome = true ↔ a.status = .completed ∨ a.status = .failed ∨ a.status = .canceled
  error_iff : a.error.isSome = true ↔ a.status = .failed ∨ a.status = .canceled
  canceled_iff : (∃ message names index stepType cause,
    a.error = some (.execution true message names index stepType cause)) ↔ a.status = .canceled
  result_iff : ∀ s, a.result = .ok s ↔ a.status = .completed ∧ s = a.state

theorem finished_iff {a : Execution} :
    a.isFinished = true ↔ a.status = .completed ∨ a.status = .failed ∨ a.status = .canceled := by
  unfold isFinished
  cases a.status <;> simp [Status.isFinished]

theorem Progresses.refl (now : Rat) (a : Execution) : a.Progresses now a :=
  ⟨.inl rfl, fun unfinished finished => by simp [unfinished] at finished, fun _ => rfl⟩

/-- What goes along an edge has not ended. -/
theorem Progresses.of_edge {now : Rat} {a b : Execution} {s t : Status} (edge : Status.Edge s t) (before : a.status = s)
    (after : b.status = t) (ends : t.isFinished = true → b.completedAt = some now) : a.Progresses now b := by
  refine ⟨.inr (by rw [before, after]; exact edge), fun _ finished => ends ?_, fun finished => ?_⟩
  · rw [← after]
    exact finished
  · rw [isFinished, before] at finished
    cases edge <;> cases finished

theorem Progresses.of_status {now : Rat} {a b : Execution} (unfinished : a.isFinished = false)
    (same : b.status = a.status) : a.Progresses now b := by
  have unfinished' : b.isFinished = false := by rw [isFinished, same]; exact unfinished
  exact ⟨.inl same, fun _ finished => by simp [unfinished'] at finished, fun finished => by simp [unfinished] at finished⟩

theorem Running.fails {now : Rat} {a : Execution} {index : Nat} (h : a.Running index) {b : Execution}
    (failed : b.status = .failed) (ends : b.completedAt = some now) : a.Progresses now b :=
  .of_edge .failed h.status failed fun _ => ends

theorem Running.stays {now : Rat} {a : Execution} {index : Nat} (h : a.Running index) {b : Execution}
    (running : b.status = .running) : a.Progresses now b :=
  .of_status h.unfinished (running.trans h.status.symm)

theorem Unbegun.drops {now : Rat} {a : Execution} (h : a.Unbegun) (names : List String) (reason : String) :
    a.Progresses now (a.canceledFor now names reason) :=
  .of_edge .dropped h.status_eq rfl fun _ => rfl

end Execution

/-! ## Moves -/

section Moves

variable {e e' : Engine} {x : Nat} {c c' : Course} {eff : Effect}

/-- An execution in its steps goes on running or fails. -/
theorem Advance.progresses_running {stage : Stage} {index : Nat} (h : Advance e x c stage eff)
    (running : c.execution.Running index)
    (at_stage : (∃ index, stage = .reaching index) ∨ (∃ index handler script, stage = .calling index handler script) ∨
      (∃ index handler next canceled, stage = .holding index handler next canceled) ∨
      (∃ index output status error, stage = .handled index output status error)) :
    c.execution.Progresses e.clock eff.execution := by
  rcases at_stage with ⟨index, rfl⟩ | ⟨index, handler, script, rfl⟩ | ⟨index, handler, next, canceled, rfl⟩ |
    ⟨index, output, status, error, rfl⟩
  · cases h with
    | exhausted => exact .refl _ _
    | unknown => exact running.fails rfl rfl
    | skipped | dispatched | called => exact running.stays running.status
  · cases h with
    | unresolved => exact running.fails rfl rfl
    | remarked | slept | gaveWay | passed | barred | answered | yielded | recovered => exact .refl _ _
  · cases h with
    | resumed => exact .refl _ _
  · cases h with
    | preempted | abandoned => exact .refl _ _
    | unprocessed => exact running.fails rfl rfl
    | adopted => exact running.stays running.status

/-- A move of the task of an execution takes it along an edge, or leaves its status. -/
theorem Advance.progresses {stage : Stage} (h : Advance e x c stage eff)
    (stands : Stands e.settings.maxDepth c.execution c.scheduled (.live stage false)) :
    c.execution.Progresses e.clock eff.execution := by
  cases stands with
  | unbegun unbegun =>
    cases h with
    | begun => exact .of_edge .begun unbegun.status_eq rfl fun finished => by cases finished
  | admitted running =>
    cases h with
    | tooDeep => exact running.fails rfl rfl
    | shallow => exact .refl _ _
  | reaching running => exact h.progresses_running running (.inl ⟨_, rfl⟩)
  | calling running => exact h.progresses_running running (.inr (.inl ⟨_, _, _, rfl⟩))
  | holding running => exact h.progresses_running running (.inr (.inr (.inl ⟨_, _, _, _, rfl⟩)))
  | handled running | dispatched running =>
    exact h.progresses_running running (.inr (.inr (.inr ⟨_, _, _, _, rfl⟩)))
  | finishing running =>
    cases h with
    | unscheduled => exact running.stays running.status
    | scheduled => exact .of_edge .spawning running.status rfl fun finished => by cases finished
  | spawning spent =>
    cases h with
    | spawnedAll | rejected => exact .refl _ _
    | spawned => exact .of_status spent.unfinished rfl
  | completing spent =>
    cases h with
    | completed =>
      -- behind its steps an execution runs or spawns
      have unfinished := spent.unfinished
      unfold Execution.isFinished at unfinished
      cases status : c.execution.status with
      | running => exact .of_edge .completed status rfl fun _ => rfl
      | spawning => exact .of_edge .spawned status rfl fun _ => rfl
      | idle => exact absurd status spent.begun
      | completed | failed | canceled => simp [status, Status.isFinished] at unfinished
  | closing =>
    cases h with
    | closed => exact .refl _ _
  | canceling running =>
    cases h with
    | passedOver => exact .refl _ _
    | acknowledged => exact .of_edge .canceled running.status rfl fun _ => rfl
  | leaving =>
    cases h with
    | left => exact .refl _ _

theorem Moved.progresses (h : Moved e x c eff) (stands : Stands e.settings.maxDepth c.execution c.scheduled c.life) :
    c.execution.Progresses e.clock eff.execution := by
  cases h with
  | advanced life advance => exact advance.progresses (life ▸ stands)
  | diverted => exact .refl _ _

/-- From outside an execution is marked as canceled only if it has not begun. -/
theorem Touched.progresses {now : Rat} {maxDepth : Int} (h : Touched now c c')
    (stands : Stands maxDepth c.execution c.scheduled c.life) : c.execution.Progresses now c'.execution := by
  rcases h with signaled | marked
  · rw [signaled.execution]
    exact .refl _ _
  · have unbegun := marked.unbegun stands
    cases marked with
    | waiting | stranded => exact unbegun.drops _ _

end Moves

/-! ## The time of the end -/

/-- The time of its end is known of an execution that has ended, and only then. -/
def Execution.Dated (a : Execution) : Prop := a.completedAt.isSome = a.isFinished

section Dates

variable {e : Engine} {x : Nat} {c c' : Course} {eff : Effect}

theorem Execution.Dated.congr {a b : Execution} (h : a.Dated) (completed : b.completedAt = a.completedAt)
    (finished : b.isFinished = a.isFinished) : b.Dated := by
  rw [Execution.Dated, completed, finished]
  exact h

theorem Advance.dated {stage : Stage} (h : Advance e x c stage eff)
    (stands : Stands e.settings.maxDepth c.execution c.scheduled (.live stage false)) (dated : c.execution.Dated) :
    eff.execution.Dated := by
  cases h with
  | begun =>
    cases stands with
    | unbegun unbegun => exact dated.congr rfl (by simp [Execution.isFinished, unbegun.status_eq, Status.isFinished])
  | scheduled =>
    cases stands with
    | finishing running => exact dated.congr rfl running.unfinished.symm
  | tooDeep | unknown | unresolved | unprocessed | completed | acknowledged => rfl
  | _ => exact dated.congr rfl rfl

theorem Moved.dated (h : Moved e x c eff) (stands : Stands e.settings.maxDepth c.execution c.scheduled c.life)
    (dated : c.execution.Dated) : eff.execution.Dated := by
  cases h with
  | advanced life advance => exact advance.dated (life ▸ stands) dated
  | diverted => exact dated

theorem Touched.dated {now : Rat} (h : Touched now c c') (dated : c.execution.Dated) : c'.execution.Dated := by
  rcases h with signaled | marked
  · rw [signaled.execution]
    exact dated
  · cases marked <;> rfl

end Dates

namespace Engine

/-! ## Acts and runs -/

section Runs

variable {P : Engine → Act → Prop} {e e' : Engine} {x : Nat} {c c' : Course}

/-- **Edges**: an act takes an execution along an edge or leaves its status, and leaves what has ended as it is. -/
theorem Outline.progresses (h : Outline e e') (standing : e.Standing) (hx : e.courses[x]? = some c) :
    ∃ c', e'.courses[x]? = some c' ∧ c.execution.Progresses e.clock c'.execution := by
  obtain ⟨c', hx', fate⟩ := h.fate hx
  refine ⟨c', hx', ?_⟩
  have stands := standing.stands x c hx
  cases fate with
  | kept => exact .refl _ _
  | moved _ moved => exact moved.progresses stands
  | touched touched => exact touched.progresses stands

theorem Outline.dated (h : Outline e e') (standing : e.Standing)
    (dated : ∀ (x : Nat) (c : Course), e.courses[x]? = some c → c.execution.Dated) (hx' : e'.courses[x]? = some c') :
    c'.execution.Dated := by
  cases hx : e.courses[x]? with
  | none =>
    obtain ⟨-, execution, rfl, -⟩ := h.newborn hx' hx
    have unbegun : execution.Unbegun := h.newborn_unbegun hx' hx
    rw [Course.fresh, unbegun]
    rfl
  | some c =>
    obtain ⟨d, hd, fate⟩ := h.fate hx
    obtain rfl : c' = d := by simpa [hx'] using hd
    have before := dated x c hx
    cases fate with
    | kept => exact before
    | moved _ moved => exact moved.dated (standing.stands x c hx) before
    | touched touched => exact touched.dated before

/-- In every sound state the time of its end is known of an execution that has ended, and only then. -/
theorem Sound.dated (h : e.Sound) (hx : e.courses[x]? = some c) : c.execution.Dated := by
  refine h.induction (I := fun e => ∀ (x : Nat) (c : Course), e.courses[x]? = some c → c.execution.Dated) ?_ ?_ x c hx
  · intro settings process bus registry x c hx
    simp [fresh] at hx
  · intro e a sound _ outline dated x c hx
    exact outline.dated sound.standing dated hx

/-- An execution that has ended stays as it is along every run. -/
theorem Reaches.rests_finished (run : Reaches P e e') (reachable : e.Reachable) (sound : e'.Sound)
    (hx : e.courses[x]? = some c) (finished : c.execution.isFinished = true) :
    ∃ c', e'.courses[x]? = some c' ∧ c'.execution = c.execution := by
  refine run.induction (I := fun e => ∃ c', e.courses[x]? = some c' ∧ c'.execution = c.execution) reachable sound
    ⟨c, hx, rfl⟩ ?_
  rintro e₁ a _ sound₁ _ _ outline ⟨c₁, hx₁, same⟩
  obtain ⟨c', hx', progresses⟩ := outline.progresses sound₁.standing hx₁
  exact ⟨c', hx', (progresses.absorbed (by rw [same]; exact finished)).trans same⟩

end Runs

/-! ## What status, error and result say -/

section Attests

variable {a : Execution} {maxDepth : Int}

/-- Status and error of an execution agree at each of its ends. -/
theorem Ended.told (h : Ended maxDepth a) :
    (a.status = .completed ∧ a.error = none) ∨
    (∃ canceled message names index stepType cause, a.error = some (.execution canceled message names index stepType cause) ∧
      a.status = if canceled then .canceled else .failed) := by
  cases h with
  | completed status error => exact .inl ⟨status, error⟩
  | failedAt _ _ _ eq | tooDeep _ _ _ eq =>
    rw [eq]
    exact .inr ⟨false, _, _, _, _, _, rfl, rfl⟩
  | canceled _ _ eq | stillborn _ _ eq =>
    rw [eq]
    exact .inr ⟨true, _, _, _, _, _, rfl, rfl⟩

/-- Before its end an execution has no error. -/
theorem Stands.told {scheduled : List Workflow} {life : Life Stage} (h : Stands maxDepth a scheduled life) :
    Ended maxDepth a ∨ a.isFinished = false ∧ a.error = none := by
  cases h with
  | unbegun unbegun | dropped unbegun =>
    exact .inr ⟨by simp [Execution.isFinished, unbegun.status_eq, Status.isFinished], unbegun.error_eq⟩
  | stillborn unbegun names_eq eq => exact .inl (.stillborn unbegun names_eq eq)
  | admitted running | reaching running | calling running | holding running | handled running | dispatched running
  | finishing running | canceling running => exact .inr ⟨running.unfinished, running.error⟩
  | spawning spent | completing spent => exact .inr ⟨spent.unfinished, spent.error⟩
  | closing ended | leaving _ ended | settled ended => exact .inl ended

/-- An execution without an error has a result once it has ended, which is its state. -/
theorem result_of_errorless (error : a.error = none) (s : State) :
    a.result = .ok s ↔ a.isFinished = true ∧ s = a.state := by
  unfold Execution.result
  rw [error]
  cases finished : a.isFinished with
  | true => simp [eq_comm]
  | false =>
    simp only [Bool.false_eq_true, if_false, false_and, iff_false]
    split <;> simp

theorem Sound.attests {e : Engine} (h : e.Sound) {x : Nat} {c : Course} (hx : e.courses[x]? = some c) :
    c.execution.Attests := by
  have completed_iff : c.execution.completedAt.isSome = true ↔
      c.execution.status = .completed ∨ c.execution.status = .failed ∨ c.execution.status = .canceled := by
    rw [h.dated hx, Execution.finished_iff]
  rcases Stands.told (h.standing.stands x c hx) with ended | ⟨unfinished, error⟩
  · rcases Ended.told ended with ⟨status, error⟩ | ⟨canceled, message, names, index, stepType, cause, error, status⟩
    · refine ⟨completed_iff, by simp [error, status], by simp [error, status], fun s => ?_⟩
      rw [result_of_errorless error, Execution.finished_iff, status]
      simp
    · refine ⟨completed_iff, ?_, ?_, fun s => ?_⟩
      · cases canceled <;> simp [error, status]
      · cases canceled <;> simp [error, status]
      · cases canceled <;> simp [Execution.result, error, status]
  · have unended : c.execution.status ≠ .completed ∧ c.execution.status ≠ .failed ∧ c.execution.status ≠ .canceled := by
      rw [← Bool.not_eq_true, Execution.finished_iff] at unfinished
      simpa [not_or] using unfinished
    refine ⟨completed_iff, by simp [error, unended], by simp [error, unended], fun s => ?_⟩
    rw [result_of_errorless error, unfinished]
    simp [unended]

end Attests

/-! ## The status machine -/

/-- **The status machine**: in every state that an engine with a calm bus and writable names can be in, what an execution
tells agrees with its status; every act takes its status along an edge or leaves it, and takes down the time if the
execution ends; and once it has ended, no run changes anything of it. -/
theorem statuses_of_reachable {e : Engine} (reachable : e.Reachable) (calm : e.Calm) (named : e.WellNamed) {x : Nat}
    {c : Course} (hx : e.courses[x]? = some c) :
    c.execution.Attests ∧
    (∀ a, ∃ c', (e.act a).courses[x]? = some c' ∧ c.execution.Progresses e.clock c'.execution) ∧
    (c.execution.isFinished = true → ∀ e', Reaches anyOrder e e' → e'.WellNamed →
      ∃ c', e'.courses[x]? = some c' ∧ c'.execution = c.execution) := by
  have sound := reachable.sound calm named
  refine ⟨sound.attests hx, fun a => (sound.outline a).progresses sound.standing hx, ?_⟩
  intro finished e' run named'
  have sound' : e'.Sound := (ReachableBy.trans reachable run).reachable.sound (run.calm_iff.mpr calm) named'
  exact run.rests_finished reachable sound' hx finished

/-- A run in which the host cancels an execution whose only step waits, after some time. -/
def recalledRun : Engine :=
  let waits := Rehearsed.resolver "stay" .propagate false ⟨none, .gated, .returns (.ok none)⟩ []
  (fresh .standard Processing.standard none (Registry.empty.register "stay" ⟨0, waits⟩)).rehearse 20
    [.start ⟨[⟨"stay", .null, .empty, by decide⟩], .text "trial", none, .empty, .empty⟩ .null, .pass 3,
      .cancel (some 0) "0" "enough"]

/-- A second cancellation at a later time, a caller of `join` and a shutdown find the execution canceled and leave it so,
with the time at which it was. -/
theorem recalledRun_statuses : ∃ c c', recalledRun.courses[0]? = some c ∧ c.execution.status = .canceled ∧
    c.execution.Attests ∧ c.execution.completedAt = some 3 ∧
    (recalledRun.rehearse 20 [.pass 8, .cancel (some 0) "0" "again", .join, .shutdown (some 0)]).courses[0]? = some c' ∧
    c'.execution = c.execution := by
  have run : Reaches anyOrder _ recalledRun := (rehearse_reaches _ _ _).mono fun _ _ _ => trivial
  have on : Reaches anyOrder recalledRun
      (recalledRun.rehearse 20 [.pass 8, .cancel (some 0) "0" "again", .join, .shutdown (some 0)]) :=
    (rehearse_reaches _ _ _).mono fun _ _ _ => trivial
  have status : recalledRun.courses[0]?.map (·.execution.status) = some .canceled := by decide +kernel
  have time : recalledRun.courses[0]?.map (·.execution.completedAt) = some (some 3) := by decide +kernel
  obtain ⟨c, hx, status⟩ := Option.map_eq_some_iff.mp status
  obtain ⟨attests, -, absorbed⟩ := statuses_of_reachable run.of_fresh (run.calm_iff.mpr (fresh_calm _ _ _))
    (by decide +kernel) hx
  have finished : c.execution.isFinished = true := by rw [Execution.finished_iff, status]; simp
  obtain ⟨c', hx', same⟩ := absorbed finished _ on (by decide +kernel)
  rw [hx] at time
  exact ⟨c, c', hx, status, attests, Option.some.inj time, hx', same⟩

end Engine

end Stepflow
