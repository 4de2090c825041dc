import Stepflow.Proofs.Engine.Statuses

/-!
# Stepflow.Proofs.Engine.Times — the times that an execution tells

* `Execution.times`: when an execution was accepted, when each recorded step began and was done, and when the execution
  ended.  `Course.moments`: these, and when the step in progress began.
* `Advance.moments`: a move takes down the time of the clock, once or more often, and changes nothing of what it took down
  before.
* `Sound.timely`: so in every sound state the times are in order, none of them is ahead of the clock, and every record has
  its times.
-/

namespace Stepflow

/-- The times that an execution tells. -/
def Execution.times (a : Execution) : List Rat :=
  a.startedAt :: a.spans.flatMap (fun s => [s.startedAt, s.completedAt]) ++ a.completedAt.toList

/-- Whether a step is in progress. -/
def Life.inStep : Life Stage → Bool
  | .live (.calling ..) _ | .live (.holding ..) _ | .live (.handled ..) _ => true
  | _ => false

/-- The times that have been taken down for an execution. -/
def Course.moments (c : Course) : List Rat :=
  c.execution.times ++ if c.life.inStep then [c.execution.turnedAt] else []

/-- Some times are in order, and none of them is ahead of the clock. -/
def Ordered (now : Rat) (times : List Rat) : Prop := (times ++ [now]).Pairwise (· ≤ ·)

section Ordered

variable {now now' : Rat} {times more : List Rat}

theorem ordered_iff : Ordered now times ↔ times.Pairwise (· ≤ ·) ∧ ∀ t ∈ times, t ≤ now := by
  simp [Ordered, List.pairwise_append]

theorem Ordered.mono (h : Ordered now times) (le : now ≤ now') : Ordered now' times := by
  rw [ordered_iff] at h ⊢
  exact ⟨h.1, fun t mem => Rat.le_trans (h.2 t mem) le⟩

theorem Ordered.sublist (h : Ordered now times) (sub : more.Sublist times) : Ordered now more := by
  rw [ordered_iff] at h ⊢
  exact ⟨h.1.sublist sub, fun t mem => h.2 t (sub.mem mem)⟩

/-- The time of the clock is taken down. -/
theorem Ordered.stamp (h : Ordered now times) : Ordered now (times ++ [now]) := by
  rw [ordered_iff] at h ⊢
  refine ⟨by simpa [List.pairwise_append] using h, fun t mem => ?_⟩
  rcases List.mem_append.mp mem with old | new
  · exact h.2 t old
  · obtain rfl := List.mem_singleton.mp new
    exact Rat.le_refl

theorem Ordered.stamps (h : Ordered now times) (n : Nat) : Ordered now (times ++ List.replicate n now) := by
  induction n with
  | zero => simpa using h
  | succ n ih =>
    rw [List.replicate_succ', ← List.append_assoc]
    exact ih.stamp

end Ordered

/-- The times of an execution are in order, and every record has its times. -/
structure Timely (now : Rat) (c : Course) : Prop where
  ordered : Ordered now c.moments
  spans : c.execution.spans.length = c.execution.history.length

section Moves

variable {e e' : Engine} {x : Nat} {c c' : Course} {eff : Effect}

/-- An execution whose task is at work has not ended. -/
theorem Stands.unfinished {maxDepth : Int} {a : Execution} {scheduled : List Workflow} {stage : Stage}
    (h : Stands maxDepth a scheduled (.live stage false)) (ne : stage ≠ .closing) (ne' : ∀ passOn, stage ≠ .leaving passOn) :
    a.isFinished = false := by
  cases h with
  | unbegun unbegun => simp [Execution.isFinished, unbegun.status_eq, Status.isFinished]
  | admitted running | reaching running | calling running | holding running | handled running | dispatched running
  | finishing running | canceling running => exact running.unfinished
  | spawning spent | completing spent => exact spent.unfinished
  | closing => exact absurd rfl ne
  | leaving => exact absurd rfl (ne' _)

/-- What a move does to the times: it adds that of the clock at the end, or drops that of a step that is given up. -/
theorem Advance.moments {stage : Stage} (h : Advance e x c stage eff) (life : c.life = .live stage false)
    (stands : Stands e.settings.maxDepth c.execution c.scheduled (.live stage false)) (dated : c.execution.Dated) :
    (∃ n, (eff.course c).moments = c.moments ++ List.replicate n e.clock) ∨ (eff.course c).moments.Sublist c.moments := by
  have blank (ne : stage ≠ .closing) (ne' : ∀ passOn, stage ≠ .leaving passOn) : c.execution.completedAt = none := by
    rw [← Option.not_isSome_iff_eq_none, dated, stands.unfinished ne ne']
    simp
  unfold Course.moments Execution.times
  rw [life]
  cases h with
  | yielded | preempted | abandoned => exact .inr (by simp [Effect.course, Engine.lifeAfter, Life.inStep])
  | dispatched | called => exact .inl ⟨1, by simp [Effect.course, Engine.lifeAfter, Life.inStep, Execution.turnTo]⟩
  | tooDeep | completed | acknowledged =>
    refine .inl ⟨1, ?_⟩
    simp [Effect.course, Engine.lifeAfter, Life.inStep, blank, Execution.endWith, Execution.complete, Execution.canceledFor]
  | adopted =>
    refine .inl ⟨1, ?_⟩
    simp [Effect.course, Engine.lifeAfter, Life.inStep, blank, Execution.record]
  | skipped =>
    refine .inl ⟨2, ?_⟩
    simp [Effect.course, Engine.lifeAfter, Life.inStep, blank, Execution.record, Execution.turnTo, List.replicate]
  | unresolved | unprocessed =>
    refine .inl ⟨2, ?_⟩
    simp [Effect.course, Engine.lifeAfter, Life.inStep, blank, Execution.failedAt, Execution.record, Execution.endWith,
      List.replicate]
  | unknown =>
    refine .inl ⟨3, ?_⟩
    simp [Effect.course, Engine.lifeAfter, Life.inStep, blank, Execution.failedAt, Execution.record, Execution.endWith,
      Execution.turnTo, List.replicate]
  | _ => exact .inl ⟨0, by simp [Effect.course, Engine.lifeAfter, Life.inStep]⟩

/-- A record is given its times. -/
theorem Advance.spans {stage : Stage} (h : Advance e x c stage eff)
    (spans : c.execution.spans.length = c.execution.history.length) :
    eff.execution.spans.length = eff.execution.history.length := by
  cases h with
  | unknown | skipped | unresolved | unprocessed | adopted =>
    simp [Execution.failedAt, Execution.record, Execution.endWith, Execution.turnTo, spans]
  | _ => exact spans

theorem Moved.timely (h : Moved e x c eff) (stands : Stands e.settings.maxDepth c.execution c.scheduled c.life)
    (dated : c.execution.Dated) (timely : Timely e.clock c) : Timely e.clock (eff.course c) := by
  cases h with
  | advanced life advance =>
    refine ⟨?_, advance.spans timely.spans⟩
    rcases advance.moments life (life ▸ stands) dated with ⟨n, moments⟩ | sub
    · rw [moments]
      exact timely.ordered.stamps n
    · exact timely.ordered.sublist sub
  | diverted life =>
    refine ⟨timely.ordered.sublist ?_, timely.spans⟩
    rw [life] at stands
    cases stands <;> simp [Course.moments, Effect.course, Engine.cancelCourse, Engine.lifeAfter, Life.inStep, life]

theorem Touched.timely {maxDepth : Int} {now : Rat} (h : Touched now c c')
    (stands : Stands maxDepth c.execution c.scheduled c.life) (timely : Timely now c) : Timely now c' := by
  have inStep : c'.life.inStep = c.life.inStep := by
    rcases h.life_eq with same | sent
    · rw [same]
    · rw [sent]
      cases c.life with
      | live stage interrupted => cases stage <;> rfl
      | ended ending => rfl
  rcases h with signaled | marked
  · have moments : c'.moments = c.moments := by rw [Course.moments, Course.moments, signaled.execution, inStep]
    exact ⟨moments ▸ timely.ordered, by rw [signaled.execution]; exact timely.spans⟩
  · -- what is marked has not begun, so no step is in progress and the end comes last
    have unbegun := marked.unbegun stands
    have blank : c.execution.completedAt = none := by rw [unbegun]; rfl
    have idle : c.life.inStep = false := by
      cases marked with
      | waiting _ _ life =>
        obtain ⟨_, opening⟩ := (stands.of_idle unbegun.status_eq).2 (by rw [life]; rfl)
        rw [opening]
        rfl
      | stranded _ _ life => rw [life]; rfl
    have moments : c'.moments = c.moments ++ [now] := by
      unfold Course.moments Execution.times
      rw [inStep, idle, blank]
      cases marked <;> simp [Execution.canceledFor, Execution.endWith]
    refine ⟨moments ▸ timely.ordered.stamp, ?_⟩
    cases marked <;> exact timely.spans

end Moves

namespace Engine

section Runs

variable {e e' : Engine} {x : Nat} {c c' : Course}

theorem Outline.timely (h : Outline e e') (sound : e.Sound) (later : e.clock ≤ e'.clock)
    (timely : ∀ (x : Nat) (c : Course), e.courses[x]? = some c → Timely e.clock c) (hx' : e'.courses[x]? = some c') :
    Timely e'.clock c' := by
  suffices now : Timely e.clock c' from ⟨now.ordered.mono later, now.spans⟩
  cases hx : e.courses[x]? with
  | none =>
    obtain ⟨-, execution, rfl, born⟩ := h.newborn hx' hx
    have unbegun : execution.Unbegun := h.newborn_unbegun hx' hx
    have accepted : execution.startedAt = e.clock := by
      rcases born with ⟨workflow, state, rfl⟩ | ⟨p, d, eff, -, -, moved, born⟩
      · rfl
      · obtain ⟨position, workflow, rest, -, -, rfl⟩ := moved.born_eq born
        rfl
    have moments : (Course.fresh execution).moments = [e.clock] := by
      rw [Course.fresh, unbegun]
      simp [Course.moments, Execution.times, Execution.origin, Execution.idle, Life.inStep, accepted]
    exact ⟨by simp [moments, Ordered], by rw [Course.fresh, unbegun]; rfl⟩
  | some c =>
    obtain ⟨d, hd, fate⟩ := h.fate hx
    obtain rfl : c' = d := by simpa [hx'] using hd
    have before := timely x c hx
    have stands := sound.standing.stands x c hx
    cases fate with
    | kept => exact before
    | moved _ moved => exact moved.timely stands (sound.dated hx) before
    | touched touched => exact touched.timely stands before

/-- **The times of an execution are in order** in every state that an engine with a calm bus and writable names can be in,
and every record of a step has its times. -/
theorem Sound.timely (h : e.Sound) (hx : e.courses[x]? = some c) : Timely e.clock c := by
  refine h.induction (I := fun e => ∀ (x : Nat) (c : Course), e.courses[x]? = some c → Timely e.clock c) ?_ ?_ x c hx
  · intro settings process bus registry x c hx
    simp [fresh] at hx
  · intro e a sound _ outline timely x c hx
    exact outline.timely sound (act_clock_le e a) timely hx

end Runs

end Engine

end Stepflow
