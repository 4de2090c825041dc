import Mathlib.Data.Prod.Lex
import Stepflow.Proofs.Engine.Standing
import Stepflow.Proofs.Engine.Threading

/-!
# Stepflow.Proofs.Engine.Ranking — every move of a task brings its end closer

* `Script.size`: how many moves a call has left at most, whichever way it is taken.
* `Course.rank`, `Delivery.rank`: how far a task is from its end.  What counts first is the step and the stage at it, then
  what is left of the call or of the schedule; how long a call is going to be is known only once it has begun.
* `Moved.rank_lt`, `MovedDelivery.rank_lt`: a move takes a task closer to its end, and so does a cancellation that meets it.
* `Engine.rank`, `Happens.released`: a task that has the processor gives it away or comes closer to its end.
-/

namespace Stepflow

/-! ## How far a task is from its end -/

/-- How many moves a call has left at most. -/
def Script.size : Script → Nat
  | .answer _ | .raise _ => 1
  | .remark _ next => next.size + 1
  | .sleep _ next canceled | .gate next canceled => max next.size canceled.size + 1

/-- How far a stage of the task of an execution with some number of steps is from the end. -/
def Stage.rank (steps : Nat) : Stage → Nat ×ₗ Nat
  | .opening => toLex (2 * steps + 8, 0)
  | .admitted => toLex (2 * steps + 7, 0)
  | .reaching index => toLex (2 * (steps - index) + 6, 0)
  | .calling index _ script => toLex (2 * (steps - index) + 5, 2 * script.size)
  | .holding index _ next canceled => toLex (2 * (steps - index) + 5, 2 * max next.size canceled.size + 1)
  | .handled index _ _ _ => toLex (2 * (steps - index) + 5, 0)
  | .finishing => toLex (5, 0)
  | .spawning _ rest => toLex (4, rest.length)
  | .completing => toLex (3, 0)
  | .canceling | .unrecovered _ _ => toLex (2, 0)
  | .closing | .leaving _ | .refusing _ _ => toLex (1, 0)

/-- How far the task of an execution with some number of steps is from its end. -/
def Life.rank (steps : Nat) : Life Stage → Nat ×ₗ Nat
  | .live stage _ => stage.rank steps
  | .over _ => toLex (0, 0)

/-- How far the task of an execution is from its end. -/
def Course.rank (c : Course) : Nat ×ₗ Nat := c.life.rank c.execution.workflow.steps.length

/-- How far a stage of a detached call is from the end. -/
def DeliveryStage.rank : DeliveryStage → Nat ×ₗ Nat
  | .entering => toLex (3, 0)
  | .calling script => toLex (2, 2 * script.size)
  | .holding next canceled => toLex (2, 2 * max next.size canceled.size + 1)
  | .closing | .refusing _ => toLex (1, 0)

/-- How far a detached call is from its end. -/
def Delivery.rank (d : Delivery) : Nat ×ₗ Nat :=
  match d.life with
  | .live stage _ => stage.rank
  | .over _ => toLex (0, 0)

section Lex

variable {a b a' b' : Nat}

theorem lex_of_fst (h : a < a') : toLex (a, b) < toLex (a', b') := Prod.Lex.toLex_lt_toLex.mpr (.inl h)

theorem lex_of_snd (h : b < b') : toLex (a, b) < toLex (a, b') := Prod.Lex.toLex_lt_toLex.mpr (.inr ⟨rfl, h⟩)

end Lex

/-! ## Moves -/

section Moves

variable {e : Engine} {x : Nat} {c : Course} {eff : Effect} {steps : Nat}

/-- Turning to a step. -/
theorem Advance.rank_reaching {index : Nat} (h : Advance e x c (.reaching index) eff)
    (length : c.execution.workflow.steps.length = steps) :
    (Engine.lifeAfter eff.move).rank steps < (Stage.reaching index).rank steps := by
  cases h with
  | exhausted => exact lex_of_fst (by omega)
  | unknown => exact lex_of_fst (by omega)
  | skipped at_step =>
    have lt := (List.getElem?_eq_some_iff.mp at_step).1
    exact lex_of_fst (by omega)
  | dispatched => exact lex_of_fst (by omega)
  | called => exact lex_of_fst (by omega)

/-- A move in a call. -/
theorem Advance.rank_calling {index : Nat} {handler : Handler} {script : Script}
    (h : Advance e x c (.calling index handler script) eff) :
    (Engine.lifeAfter eff.move).rank steps < (Stage.calling index handler script).rank steps := by
  cases h with
  | remarked => exact lex_of_snd (by simp only [Script.size]; omega)
  | slept | gaveWay | barred => exact lex_of_snd (by simp only [Script.size]; omega)
  | passed => exact lex_of_snd (by simp only [Script.size]; omega)
  | answered | recovered => exact lex_of_snd (by simp [Script.size])
  | yielded | unresolved => exact lex_of_fst (by omega)

/-- Adopting a transition. -/
theorem Advance.rank_handled {index : Nat} {output : Option Value} {status : StepStatus} {error : Option String}
    (h : Advance e x c (.handled index output status error) eff)
    (length : c.execution.workflow.steps.length = steps) :
    (Engine.lifeAfter eff.move).rank steps < (Stage.handled index output status error).rank steps := by
  cases h with
  | preempted | abandoned | unprocessed => exact lex_of_fst (by omega)
  | adopted no_reason at_step =>
    have lt := (List.getElem?_eq_some_iff.mp at_step).1
    exact lex_of_fst (by omega)

/-- A move of the task of an execution. -/
theorem Advance.rank_lt {stage : Stage} (h : Advance e x c stage eff)
    (length : c.execution.workflow.steps.length = steps) :
    (Engine.lifeAfter eff.move).rank steps < stage.rank steps := by
  -- the first part falls from step to step and stage to stage, the second within a call and along the schedule
  cases stage with
  | reaching index => exact h.rank_reaching length
  | calling index handler script => exact h.rank_calling
  | handled index output status error => exact h.rank_handled length
  | opening =>
    cases h with
    | begun => exact lex_of_fst (by omega)
  | admitted =>
    cases h with
    | tooDeep | shallow => exact lex_of_fst (by omega)
  | holding index handler next canceled =>
    cases h with
    | resumed => exact lex_of_snd (by omega)
  | finishing =>
    cases h with
    | unscheduled | scheduled => exact lex_of_fst (by omega)
  | spawning position rest =>
    cases h with
    | spawnedAll => exact lex_of_fst (by omega)
    | spawned | rejected => exact lex_of_snd (by simp)
  | completing =>
    cases h with
    | completed => exact lex_of_fst (by omega)
  | closing =>
    cases h with
    | closed => exact lex_of_fst (by omega)
  | canceling =>
    cases h with
    | passedOver | acknowledged => exact lex_of_fst (by omega)
  | leaving passOn =>
    cases h with
    | left => exact lex_of_fst (by omega)
  | refusing | unrecovered => cases h

/-- **A move brings the end closer**, also where it meets a cancellation: that finds the task before its first move, in a
wait of a resolver, or on its way back from the queue. -/
theorem Moved.rank_lt {maxDepth : Int} (h : Moved e x c eff)
    (stands : Stands maxDepth c.execution c.scheduled c.life) : (eff.course c).rank < c.rank := by
  have same : (eff.course c).execution.workflow.steps.length = c.execution.workflow.steps.length := by
    have eq : eff.execution.workflow = c.execution.workflow := h.workflow_eq
    simp only [Effect.course, eq]
  unfold Course.rank
  rw [same]
  cases h with
  | advanced life advance =>
    rw [life]
    exact advance.rank_lt rfl
  | diverted life =>
    rw [life] at stands ⊢
    cases stands with
    | unbegun | stillborn => exact lex_of_fst (by omega)
    | holding => exact lex_of_snd (by omega)
    | dispatched => exact lex_of_fst (by omega)

/-- A move of a detached call brings its end closer. -/
theorem MovedDelivery.rank_lt {d : Delivery} {eff : DeliveryEffect} (h : MovedDelivery e d eff) :
    Delivery.rank { d with life := Engine.lifeAfter eff.move } < d.rank := by
  unfold Delivery.rank
  cases h with
  | delivered life delivers =>
    rw [life]
    cases delivers with
    | begun => exact lex_of_fst (by omega)
    | remarked | slept | gaveWay | passed | barred => exact lex_of_snd (by simp only [Script.size]; omega)
    | answered | yielded | recovered | reported => exact lex_of_fst (by omega)
    | resumed => exact lex_of_snd (by omega)
    | closed => exact lex_of_fst (by omega)
  | @diverted stage life =>
    rw [life]
    cases stage with
    | holding next canceled => exact lex_of_snd (by omega)
    | entering | calling | closing | refusing => exact lex_of_fst (by omega)

/-- What happens to an execution from outside leaves its task as far from its end as it was. -/
theorem Touched.rank_eq {c' : Course} {now : Rat} (h : Touched now c c') : c'.rank = c.rank := by
  have workflow := Execution.workflow_eq h.origin_eq
  unfold Course.rank
  rw [workflow]
  rcases h.life_eq with eq | eq
  · rw [eq]
  · rw [eq]
    cases c.life <;> rfl

/-- No act takes a task away from its end. -/
theorem Fate.rank_le {e' : Engine} {c' : Course} {maxDepth : Int} (h : Fate e e' x c c')
    (stands : Stands maxDepth c.execution c.scheduled c.life) : c'.rank ≤ c.rank := by
  cases h with
  | kept => exact le_refl _
  | moved current moved => exact le_of_lt (moved.rank_lt stands)
  | touched touched => exact le_of_eq touched.rank_eq

end Moves

/-! ## The task that has the processor -/

namespace Engine

/-- How far a task is from its end; who waits for others is not ranked. -/
def rank (e : Engine) : TaskId → Nat ×ₗ Nat
  | .course x => ((e.courses[x]?).map Course.rank).getD (toLex (0, 0))
  | .delivery k => ((e.deliveries[k]?).map Delivery.rank).getD (toLex (0, 0))
  | .caller _ | .joiner _ | .closer _ => toLex (0, 0)

section Released

variable {e e' : Engine} {t : TaskId}

theorem handOn_released {σ : Type} (e : Engine) (t : TaskId) {m : Move σ} (gives : ∀ stage, m ≠ .go stage) :
    (e.handOn t m).current = none := by
  cases m with
  | go stage => exact absurd rfl (gives stage)
  | yield | wait | stop => rfl

/-! Whoever waits for others gives the processor away in every move. -/

theorem moveCaller_ne_go (e : Engine) (k : Nat) (stage next : CallerStage) : (e.moveCaller k stage).2 ≠ .go next := by
  cases stage with
  | entering workflow initial =>
    dsimp only [moveCaller]
    split <;> simp
  | awaiting | surrendering => simp [moveCaller]

theorem cancelCaller_ne_go (e : Engine) (stage next : CallerStage) : (e.cancelCaller stage).2 ≠ .go next := by
  cases stage with
  | awaiting x =>
    dsimp only [cancelCaller]
    split <;> simp
  | entering | surrendering => simp [cancelCaller]

theorem moveJoiner_ne_go (e : Engine) (stage next : JoinerStage) : (e.moveJoiner stage).2 ≠ .go next := by
  cases stage with
  | watching =>
    dsimp only [moveJoiner]
    split <;> simp

theorem moveCloser_ne_go (e : Engine) (stage next : CloserStage) : (e.moveCloser stage).2 ≠ .go next := by
  cases stage with
  | flushing deadline =>
    dsimp only [moveCloser]
    split
    · simp
    · split <;> simp [sweep]
  | sweeping => simp [moveCloser]

/-- The task of an execution that moves comes closer to its end. -/
theorem realize_rank_lt {x : Nat} {c : Course} {eff : Effect} (journal : List Note) (log : List LogEntry)
    (standing : e.Standing) (at_x : e.courses[x]? = some c) (moved : Moved e x c eff) :
    ((e.realize x (eff.course c) eff journal log).handOn (.course x) eff.move).rank (.course x) < e.rank (.course x) := by
  have lt := (List.getElem?_eq_some_iff.mp at_x).1
  have after : (e.realize x (eff.course c) eff journal log).courses[x]? = some (eff.course c) := by
    simp [realize, List.getElem?_append_left, lt]
  simp only [rank, handOn_courses, after, at_x, Option.map_some, Option.getD_some]
  exact moved.rank_lt (standing.stands x c at_x)

/-- The turn of a live task of an execution brings its end closer. -/
theorem Happens.rank_lt {place x : Nat} (h : Happens e (.turn place) e') (standing : e.Standing)
    (current : e.current = some (.course x)) (live : e.isOver (.course x) = false) :
    e'.rank (.course x) < e.rank (.course x) := by
  cases h with
  | still idle => simp [idle place rfl] at current
  | chosen free => simp [free] at current
  | vacant current' stopped =>
    obtain rfl := Option.some.inj (current'.symm.trans current)
    exact absurd (live.symm.trans stopped) Bool.false_ne_true
  | course current' at_x moved =>
    obtain rfl : x = _ := by simpa [current] using current'
    exact realize_rank_lt _ _ standing at_x moved
  | delivery current' | caller current' | callerCanceled current' | joiner current' | joinerCanceled current'
  | closer current' | closerCanceled current' => simp [current] at current'

/-- **The processor is given away**, or the task that has it comes closer to its end. -/
theorem Happens.released {place : Nat} (h : Happens e (.turn place) e') (standing : e.Standing)
    (current : e.current = some t) : e'.current = none ∨ e'.current = some t ∧ e'.rank t < e.rank t := by
  cases h with
  | still idle => simp [idle place rfl] at current
  | chosen free => simp [free] at current
  | vacant => exact .inl rfl
  | @course _ x c eff journal log current' at_x moved =>
    obtain rfl := Option.some.inj (current'.symm.trans current)
    have closer := realize_rank_lt journal log standing at_x moved
    cases move : eff.move with
    | yield | wait | stop => exact .inl rfl
    | go stage =>
      rw [move] at closer
      exact .inr ⟨current, closer⟩
  | @delivery _ k d eff journal log current' at_k moved =>
    obtain rfl := Option.some.inj (current'.symm.trans current)
    cases move : eff.move with
    | yield | wait | stop => exact .inl rfl
    | go stage =>
      refine .inr ⟨current, ?_⟩
      have closer := moved.rank_lt
      rw [move] at closer
      simpa [handOn, rank, realizeDelivery, set_getElem? at_k, at_k] using closer
  | caller => exact .inl (handOn_released _ _ (moveCaller_ne_go e _ _))
  | callerCanceled => exact .inl (handOn_released _ _ (cancelCaller_ne_go e _))
  | joiner => exact .inl (handOn_released _ _ (moveJoiner_ne_go e _))
  | closer => exact .inl (handOn_released _ _ (moveCloser_ne_go e _))
  | joinerCanceled | closerCanceled => exact .inl rfl

end Released

end Engine

end Stepflow
