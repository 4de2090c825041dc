import Stepflow.Proofs.Engine.Fairness
import Stepflow.Proofs.Engine.Joining
import Stepflow.Proofs.Engine.Lineage

/-!
# Stepflow.Proofs.Engine.Unharmed — what nobody cancels completes or fails

* `Engine.Honest`: resolvers and processing end by answering or failing, and raise no cancellations of their own.
* `Unharmed`: no cancellation has come near an execution.  `Moved.unharmed`: a move keeps it so in an honest engine, and
  `unharmed_after` carries it through an endless run in which the execution is not disturbed.
* `honest_after`: an engine stays honest as long as the host changes no bindings.
* `over_below_after`, `settled_of_joined`: where everything below an execution is over nothing more comes to be there, and so
  it is once a join has returned.
-/

namespace Stepflow

/-- No cancellation is on its way to the task of an execution or has come through, and a call in progress raises none. -/
def Hale : Life Stage → Prop
  | .live (.calling _ _ script) interrupted | .live (.holding _ _ script _) interrupted =>
    interrupted = false ∧ script.run.2 ≠ .error .canceled
  | .live .canceling _ | .live (.leaving _) _ => False
  | .live _ interrupted => interrupted = false
  | .over ending => ending = .done

/-- No cancellation has come near an execution. -/
structure Unharmed (c : Course) : Prop where
  hale : Hale c.life
  reason : c.reason = none
  status : c.execution.status ≠ .canceled
  finished : c.life.isOver = true → c.execution.isFinished = true

namespace Engine

/-- Every call of a resolver that nothing interrupts ends by an answer or a failure, and so does the processing. -/
structure Honest (e : Engine) : Prop where
  resolvers : ∀ stepType handler, e.registry.find? stepType = some handler →
    ∀ count payload, (handler.resolver.respond count payload).run.2 ≠ .error .canceled
  process : ∀ state step output, e.process state step output ≠ .error .canceled

end Engine

section Unharmed

variable {e : Engine} {x : Nat} {c : Course} {eff : Effect}

theorem Processing.standard_ne_canceled (state : State) (step : Step) (output : Option Value) :
    Processing.standard state step output ≠ .error .canceled := by
  unfold Processing.standard
  cases Processing.process state step output with
  | error f => simp [Except.mapError]
  | ok transition => simp [Except.mapError]

theorem Unharmed.fresh {a : Execution} (unbegun : a.Unbegun) : Unharmed (.fresh a) where
  hale := rfl
  reason := rfl
  status := by
    have idle := unbegun.status_eq
    simp [Course.fresh, idle]
  finished ceased := by cases ceased

/-- What ends unharmed has completed or failed. -/
theorem Unharmed.outcome (h : Unharmed c) (ceased : c.life.isOver = true) :
    c.execution.status = .completed ∨ c.execution.status = .failed := by
  have finished := h.finished ceased
  have status := h.status
  unfold Execution.isFinished at finished
  cases eq : c.execution.status with
  | completed => exact .inl rfl
  | failed => exact .inr rfl
  | canceled => exact absurd eq status
  | idle | running | spawning => simp [eq, Status.isFinished] at finished

theorem Unharmed.done (h : Unharmed c) {ending : Ending} (life : c.life = .over ending) : ending = .done := by
  have hale := h.hale
  rw [life] at hale
  exact hale

/-- **A move leaves an execution unharmed** if resolvers and processing are honest. -/
theorem Moved.unharmed {maxDepth : Int} (h : Moved e x c eff) (unharmed : Unharmed c) (honest : e.Honest)
    (stands : Stands maxDepth c.execution c.scheduled c.life) : Unharmed (eff.course c) := by
  have hale := unharmed.hale
  have uncanceled := unharmed.status
  have reason : (eff.course c).reason = none := by
    unfold Effect.course
    cases eff.move with
    | stop => rfl
    | go | yield | wait => exact unharmed.reason
  cases h with
  | @diverted stage life =>
    rw [life] at hale
    cases stage <;> simp [Hale] at hale
  | advanced life advance =>
    rw [life] at hale stands
    cases advance with
    | abandoned no_reason at_step processed => exact absurd processed (honest.process _ _ _)
    | preempted given => simp [unharmed.reason] at given
    | passedOver | acknowledged | left => exact hale.elim
    | closed =>
      cases stands with
      | closing ended => exact ⟨rfl, reason, uncanceled, fun _ => ended.finished⟩
    | called at_step bound attached =>
      exact ⟨⟨rfl, honest.resolvers _ _ bound _ _⟩, reason, uncanceled, fun ceased => by cases ceased⟩
    | yielded => exact absurd rfl hale.2
    | remarked | slept | gaveWay | passed | barred | resumed =>
      exact ⟨⟨rfl, hale.2⟩, reason, uncanceled, fun ceased => by cases ceased⟩
    | begun | tooDeep | unknown | unresolved | unprocessed | scheduled | completed =>
      refine ⟨rfl, reason, ?_, fun ceased => by cases ceased⟩
      simp [Effect.course, Execution.endWith]
    | _ => exact ⟨rfl, reason, uncanceled, fun ceased => by cases ceased⟩

end Unharmed

namespace Engine

/-! ## Endless runs -/

section Runs

variable {e : Engine} {acts : Nat → Act} (sound : ∀ n, (e.after acts n).Sound)

include sound

theorem length_after_le {n m : Nat} (le : n ≤ m) : (e.after acts n).courses.length ≤ (e.after acts m).courses.length := by
  induction m, le using Nat.le_induction with
  | base => exact le_refl _
  | succ m le ih => exact Nat.le_trans ih ((sound m).outline (acts m)).length_le

/-- An engine stays honest as long as the host changes no bindings. -/
theorem honest_after (honest : e.Honest) (kept : ∀ n, ¬ (acts n).Rebinds) (n : Nat) : (e.after acts n).Honest := by
  induction n with
  | zero => exact honest
  | succ n ih =>
    have registry := ((sound n).happens (acts n)).registry_eq (kept n)
    obtain ⟨-, process, -⟩ := ((sound n).outline (acts n)).frame
    refine ⟨fun stepType handler bound => ?_, fun state step output => ?_⟩
    · rw [after_succ, registry] at bound
      exact ih.resolvers stepType handler bound
    · rw [after_succ, process]
      exact ih.process state step output

/-- **Executions that are not disturbed stay unharmed** from their acceptance on. -/
theorem unharmed_after (honest : ∀ n, (e.after acts n).Honest)
    (undisturbed : ∀ n x, e.courses.length ≤ x → ¬ (e.after acts n).Disturbs x (acts n)) (n : Nat) {x : Nat} {c : Course}
    (new : e.courses.length ≤ x) (at_x : (e.after acts n).courses[x]? = some c) : Unharmed c := by
  induction n generalizing c with
  | zero =>
    have lt := (List.getElem?_eq_some_iff.mp at_x).1
    exact absurd lt (Nat.not_lt.mpr new)
  | succ n ih =>
    have outline := (sound n).outline (acts n)
    cases before : (e.after acts n).courses[x]? with
    | none =>
      obtain ⟨-, execution, rfl, -⟩ := outline.newborn at_x before
      exact .fresh (outline.newborn_unbegun at_x before)
    | some d =>
      have unharmed := ih before
      rcases ((sound n).happens (acts n)).alone (undisturbed n x new) before with same | ⟨eff, -, moved, after⟩
      · obtain rfl : d = c := by simpa [← after_succ, at_x] using same.symm
        exact unharmed
      · obtain rfl : eff.course d = c := by simpa [← after_succ, at_x] using after.symm
        exact moved.unharmed unharmed (honest n) ((sound n).standing.stands x d before)

/-! ## Descendants -/

omit sound in
/-- What is below an execution exists if that does. -/
theorem Sound.below_known (sound : e.Sound) {x y : Nat} (known : x < e.courses.length) (below : e.Below x y) :
    y < e.courses.length := by
  cases below with
  | self => exact known
  | child above at_z mem =>
    obtain ⟨d, at_y, -⟩ := sound.parent_of_child at_z mem
    exact (List.getElem?_eq_some_iff.mp at_y).1

omit sound in
/-- Nothing is below an execution that has not been accepted. -/
theorem Below.eq_of_unknown {x y : Nat} (below : e.Below x y) (unknown : e.courses.length ≤ x) : y = x := by
  induction below with
  | self => rfl
  | child above at_z mem ih =>
    obtain rfl := ih
    have lt := (List.getElem?_eq_some_iff.mp at_z).1
    omega

theorem below_before {n m x y : Nat} (le : n ≤ m) (below : (e.after acts m).Below x y)
    (known : y < (e.after acts n).courses.length) : (e.after acts n).Below x y := by
  induction m, le using Nat.le_induction with
  | base => exact below
  | succ m le ih =>
    have lt := Nat.lt_of_lt_of_le known (length_after_le sound le)
    exact ih (((sound m).outline (acts m)).below below lt)

/-- What is below an execution was accepted after it. -/
theorem new_of_below {n x y : Nat} (new : e.courses.length ≤ x) (below : (e.after acts n).Below x y) :
    e.courses.length ≤ y := by
  by_contra old
  have before := below_before sound (Nat.zero_le n) below (Nat.not_le.mp old)
  obtain rfl := before.eq_of_unknown new
  exact old new

/-- A join that returns finds nothing running in some turn. -/
theorem exists_quiet {n m j : Nat} (le : n ≤ m) (unjoined : ¬ (e.after acts n).Joined j)
    (joined : (e.after acts m).Joined j) : ∃ i, n ≤ i ∧ i ≤ m ∧ (e.after acts i).running = [] := by
  induction m, le using Nat.le_induction with
  | base => exact absurd joined unjoined
  | succ m le ih =>
    rcases ((sound m).happens (acts m)).joined joined with before | ⟨quiet, -⟩
    · obtain ⟨i, le', le'', quiet⟩ := ih before
      exact ⟨i, le', by omega, quiet⟩
    · exact ⟨m, le, by omega, quiet⟩

/-- Where everything below an execution is over, nothing more comes to be below it. -/
theorem over_below_after {n m x : Nat} (le : n ≤ m) (known : x < (e.after acts n).courses.length)
    (ceased : ∀ y, (e.after acts n).Below x y → (e.after acts n).isOver (.course y) = true) :
    ∀ y, (e.after acts m).Below x y → y < (e.after acts n).courses.length ∧
      (e.after acts m).isOver (.course y) = true := by
  induction m, le using Nat.le_induction with
  | base => exact fun y below => ⟨(sound n).below_known known below, ceased y below⟩
  | succ m le ih =>
    have outline := (sound m).outline (acts m)
    have lt : x < (e.after acts m).courses.length := Nat.lt_of_lt_of_le known (length_after_le sound le)
    intro y below
    by_cases old : y < (e.after acts m).courses.length
    · obtain ⟨early, stopped⟩ := ih y (outline.below below old)
      exact ⟨early, over_after sound (Nat.le_succ m) old stopped⟩
    · exfalso
      have before : (e.after acts m).courses[y]? = none := List.getElem?_eq_none_iff.mpr (Nat.not_lt.mp old)
      cases below with
      | self => exact old lt
      | @child z _ c above at_z mem =>
        obtain ⟨d, at_y, parent⟩ := (sound (m + 1)).parent_of_child at_z mem
        obtain ⟨-, execution, rfl, ⟨workflow, state, rfl⟩ | ⟨p, c', eff, -, at_p, moved, born⟩⟩ :=
          outline.newborn at_y before
        · simp [Course.fresh, Execution.root, Execution.idle] at parent
        · obtain ⟨position, workflow, rest, -, -, rfl⟩ := moved.born_eq born
          obtain rfl : p = z := by simpa [Course.fresh, Execution.child, Execution.idle] using parent
          have known_p := (List.getElem?_eq_some_iff.mp at_p).1
          obtain ⟨-, stopped⟩ := ih p (outline.below above known_p)
          have live := moved.live
          simp [isOver, at_p, live] at stopped

/-- **Once a join has returned** all that is below an execution accepted before is over. -/
theorem settled_of_joined {n m j x : Nat} (le : n ≤ m) (known : x < (e.after acts n).courses.length)
    (unjoined : ¬ (e.after acts n).Joined j) (joined : (e.after acts m).Joined j) {y : Nat}
    (below : (e.after acts m).Below x y) : ∃ d, (e.after acts m).courses[y]? = some d ∧ d.life.isOver = true := by
  obtain ⟨i, le', le'', quiet⟩ := exists_quiet sound le unjoined joined
  have known' : x < (e.after acts i).courses.length := Nat.lt_of_lt_of_le known (length_after_le sound le')
  have ceased : ∀ z, (e.after acts i).Below x z → (e.after acts i).isOver (.course z) = true := by
    intro z _
    by_contra live
    have mem : z ∈ (e.after acts i).running := by
      refine mem_running.mpr ⟨?_, by simpa using live⟩
      by_contra missing
      have none : (e.after acts i).courses[z]? = none := List.getElem?_eq_none_iff.mpr (Nat.not_lt.mp missing)
      simp [isOver, none] at live
    rw [quiet] at mem
    cases mem
  obtain ⟨early, stopped⟩ := over_below_after sound le'' known' ceased y below
  have at_y := List.getElem?_eq_getElem (Nat.lt_of_lt_of_le early (length_after_le sound le''))
  exact ⟨_, at_y, by simpa [isOver, at_y] using stopped⟩

end Runs

end Engine

end Stepflow
