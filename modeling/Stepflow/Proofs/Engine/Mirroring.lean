import Stepflow.Proofs.Engine.Exhaustion
import Stepflow.Proofs.Engine.Performing

/-!
# Stepflow.Proofs.Engine.Mirroring — two runs that come to the same

* `Accomplished`: an execution has ended as the interpreter says, with its calls and its children.
* `Tranquil`: an endless run of a workflow in which the queue is served in order, what is waited for comes to pass, and
  nothing changes the bindings or cancels what came of the workflow.  `Tranquil.accomplished`: from some time on
  everything that came of it has ended as the interpreter says.
* `Mirrors`: two executions, each in its engine, have begun and ended alike, called the same resolvers with the same
  payloads, and so with all that came of them.  `mirrors_of_accomplished`: what ends as the interpreter says is mirrored
  by what began alike.
-/

namespace Stepflow

/-! ## What the interpreter says of an execution -/

/-- The status in which the steps leave an execution. -/
def Walked.status (w : Walked) : Status := (w.ending.map Prod.fst).getD .completed

/-- The error that ended the steps, if one did. -/
def Walked.error (w : Walked) : Option Failure := w.ending.map Prod.snd

/-- The schedule that is gone through: nothing if a step ended the workflow. -/
def Walked.spawned (w : Walked) : List Workflow := if w.ending.isNone then w.scheduled else []

/-- What an execution was accepted as, its parent and the time aside. -/
def Execution.plan (a : Execution) : Execution := .idle 0 a.workflow a.path none a.depth a.initialState

section Plan

variable {k : Conduct} {a b : Execution}

theorem Execution.plan_of_origin (h : b.origin = a.origin) : b.plan = a.plan := by
  unfold plan
  rw [workflow_eq h, path_eq h, depth_eq h, initialState_eq h]

theorem Execution.path_of_plan (h : b.plan = a.plan) : b.path = a.path := by
  have := congrArg Execution.path h
  exact this

theorem Execution.depth_of_plan (h : b.plan = a.plan) : b.depth = a.depth := by
  have := congrArg Execution.depth h
  exact this

theorem Conduct.due_of_plan (h : b.plan = a.plan) : k.due b = k.due a := by
  have := congrArg k.due h
  exact this

theorem Conduct.callsDue_of_plan (h : b.plan = a.plan) : k.callsDue b = k.callsDue a := by
  have := congrArg k.callsDue h
  exact this

end Plan

/-- A workflow that lies too deep schedules nothing. -/
theorem Conduct.spawned_of_deep {k : Conduct} {a : Execution} (deep : k.settings.maxDepth < a.depth) :
    (k.due a).spawned = [] := by
  unfold due outcome
  rw [if_pos deep]
  rfl

namespace Engine

/-- An execution has ended as the interpreter says. -/
structure Accomplished (e : Engine) (k : Conduct) (x : Nat) (c : Course) : Prop where
  finished : c.execution.isFinished = true
  status : c.execution.status = (k.due c.execution).status
  through : c.execution.status = .completed → (k.due c.execution).ending = none
  state : c.execution.state = (k.due c.execution).state
  history : c.execution.history = (k.due c.execution).history
  error : c.execution.error = (k.due c.execution).error
  calls : performedIn e.calls x = k.callsDue c.execution
  brood : e.Rears x c.execution (k.due c.execution).spawned

section Accomplished

variable {e e' : Engine} {k : Conduct} {x y : Nat} {c : Course} {a : Act} {acts : Nat → Act} {workflow : Workflow}
  {state : State} {answer : String → Value → Except Raised (Option Value)}

/-- An execution that has kept step with the interpreter and has ended has ended as the interpreter says. -/
theorem Paced.accomplished (paced : Paced k x e) (performing : Performing k x e) (reachable : e.ReachableBy inOrder)
    (sound : e.Sound) (below : e.Below x y) (at_y : e.courses[y]? = some c) (finished : c.execution.isFinished = true) :
    e.Accomplished k y c := by
  have stands := sound.standing.stands y c at_y
  have brood := sound.brood at_y
  have calls := paced.performed performing reachable sound below at_y finished
  unfold Brood at brood
  rw [attended_of_finished stands finished] at brood
  cases (paced.tracks y c below at_y).2.concluded stands finished with
  | completed status error_eq due =>
    rw [if_pos status] at brood
    refine ⟨finished, ?_, fun _ => ?_, ?_, ?_, ?_, calls, ?_⟩
    all_goals rw [due]
    · exact status
    · exact error_eq
    · exact brood
  | ended status error_eq due =>
    have ne : c.execution.status ≠ .completed := by
      rcases status with eq | eq <;> simp [eq]
    rw [if_neg ne] at brood
    refine ⟨finished, ?_, fun completed => absurd completed ne, ?_, ?_, ?_, calls, ?_⟩
    all_goals rw [due]
    · rfl
    · exact error_eq
    · exact brood

/-- An execution whose task is over, and that has kept step with the interpreter, has ended. -/
theorem Paced.finished_of_over (paced : Paced k x e) (below : e.Below x y) (at_y : e.courses[y]? = some c)
    (ceased : c.life.isOver = true) : c.execution.isFinished = true := by
  have tracks := (paced.tracks y c below at_y).2
  cases life : c.life with
  | live stage interrupted => simp [life, Life.isOver] at ceased
  | ended ending =>
    rw [life] at tracks
    cases tracks with
    | settled concluded =>
      unfold Execution.isFinished
      cases concluded with
      | completed status => rw [status]; rfl
      | ended status => rcases status with eq | eq <;> rw [eq] <;> rfl

/-! ## Runs -/

/-- An endless run of a workflow that nobody disturbs: the queue is served in order, what is waited for comes to pass, and
nothing changes the bindings or cancels what came of the workflow. -/
structure Tranquil (k : Conduct) (workflow : Workflow) (state : State) (e : Engine) (a : Act) (acts : Nat → Act) : Prop where
  reachable : e.ReachableBy inOrder
  calm : e.Calm
  conduct : e.conduct k.answer = k
  submits : e.Submits workflow state a
  served : a.InOrder
  fair : (e.act a).Fair acts
  named : ∀ n, ((e.act a).after acts n).WellNamed
  peaceful : ∀ n, Peaceful e.courses.length ((e.act a).after acts n) (acts n)

namespace Tranquil

variable (run : Tranquil k workflow state e a acts)

include run

theorem begun : (e.act a).ReachableBy inOrder := run.reachable.trans (.single run.served)

theorem sound (n : Nat) : ((e.act a).after acts n).Sound := by
  have accepted : Reaches anyOrder e (e.act a) := .single trivial
  exact sound_after run.begun.reachable (accepted.calm_iff.mpr run.calm) run.named n

theorem reachable_after (n : Nat) : ((e.act a).after acts n).ReachableBy inOrder :=
  run.begun.trans (after_reaches run.fair.inOrder (Nat.zero_le n))

theorem sound_before : e.Sound := by
  have accepted : Reaches anyOrder e (e.act a) := .single trivial
  exact (run.sound 0).of_reaches run.reachable.reachable accepted

theorem paced (answers : k.Answers) (n : Nat) : Paced k e.courses.length ((e.act a).after acts n) := by
  induction n with
  | zero => exact run.submits.paced run.sound_before run.conduct
  | succ n ih => exact ih.act answers (run.sound n) (run.peaceful n)

theorem performing (answers : k.Answers) (n : Nat) : Performing k e.courses.length ((e.act a).after acts n) := by
  induction n with
  | zero =>
    intro y c below at_y
    rcases Nat.lt_or_ge y e.courses.length with old | new
    · have before := (run.sound_before.outline a).below below old
      exact absurd old (Nat.not_lt.mpr (le_of_eq (before.eq_of_unknown (le_refl _)).symm))
    · have unknown := List.getElem?_eq_none_iff.mpr new
      exact performs_newborn run.reachable run.served run.sound_before (run.sound 0) unknown at_y
  | succ n ih =>
    exact ih.act (run.paced answers n) (run.reachable_after n) (run.sound n) (run.sound (n + 1)) (run.peaceful n)
      (run.fair.inOrder n)

/-- **Everything comes to its end**: from some time on all that came of the workflow has ended as the interpreter says. -/
theorem accomplished (answers : k.Answers) : ∃ m, ∀ n, m ≤ n →
    (∃ c, ((e.act a).after acts n).courses[e.courses.length]? = some c ∧ c.execution.origin = .root e.clock workflow state) ∧
    ∀ y c, ((e.act a).after acts n).Below e.courses.length y → ((e.act a).after acts n).courses[y]? = some c →
      ((e.act a).after acts n).Accomplished k y c := by
  have last : (e.act a).courses[e.courses.length]? = some (.fresh (.root e.clock workflow state)) := by
    rw [run.submits.courses_eq]
    simp
  have known : e.courses.length < (e.act a).courses.length := (List.getElem?_eq_some_iff.mp last).1
  obtain ⟨m, -, ceased⟩ := exists_ceased run.sound run.fair (n := 0) last
  refine ⟨m, fun n le => ⟨?_, fun y c below at_y => ?_⟩⟩
  · exact (after_reaches run.fair.inOrder (Nat.zero_le n)).origin run.begun.reachable (run.sound n) last
  · have known_m := Nat.lt_of_lt_of_le known (length_after_le run.sound (Nat.zero_le m))
    have over_y := ceased_after run.sound le known_m ceased y below
    have ceased_y : c.life.isOver = true := by simpa [isOver, at_y] using over_y
    have finished := (run.paced answers n).finished_of_over below at_y ceased_y
    exact (run.paced answers n).accomplished (run.performing answers n) (run.reachable_after n) (run.sound n) below at_y
      finished

end Tranquil

end Accomplished

/-! ## Executions that began and ended alike -/

/-- Two executions, each in its engine, have begun and ended alike, and so has all that came of them. -/
inductive Mirrors (e e' : Engine) : Nat → Nat → Prop
  | node {x x' : Nat} {c c' : Course} (at_x : e.courses[x]? = some c) (at_x' : e'.courses[x']? = some c')
      (plan : c'.execution.plan = c.execution.plan) (status : c'.execution.status = c.execution.status)
      (state : c'.execution.state = c.execution.state) (history : c'.execution.history = c.execution.history)
      (error : c'.execution.error = c.execution.error) (calls : performedIn e'.calls x' = performedIn e.calls x)
      (below : List.Forall₂ (Mirrors e e') c.execution.children c'.execution.children) : Mirrors e e' x x'

section Mirrors

variable {e e' : Engine} {k : Conduct} {x x' y y' : Nat} {c c' : Course}

/-- Lists that are related to a third are related to each other. -/
theorem forall₂_of_common {α β γ : Type} {R : α → γ → Prop} {S : β → γ → Prop} {T : α → β → Prop} {as : List α}
    {bs : List β} {gs : List γ} (h : List.Forall₂ R as gs) (h' : List.Forall₂ S bs gs)
    (common : ∀ a b g, R a g → S b g → T a b) : List.Forall₂ T as bs := by
  induction h generalizing bs with
  | nil =>
    cases h'
    exact .nil
  | cons first _ ih =>
    cases h' with
    | cons first' others' => exact .cons (common _ _ _ first first') (ih others')

/-- If executions spawned the same from the same state, their children are mirrored as soon as what began alike is. -/
theorem Rears.mirrors {a a' : Execution} {spawned : List Workflow} (brood : e.Rears y a spawned)
    (brood' : e'.Rears y' a' spawned) (path : a'.path = a.path) (depth : a'.depth = a.depth) (state : a'.state = a.state)
    (below : ∀ z ∈ a.children, e.Below x z) (below' : ∀ z ∈ a'.children, e'.Below x' z)
    (alike : ∀ z z' d d', e.Below x z → e'.Below x' z' → e.courses[z]? = some d → e'.courses[z']? = some d' →
      d'.execution.plan = d.execution.plan → d.execution.depth = a.depth + 1 → Mirrors e e' z z') :
    List.Forall₂ (Mirrors e e') a.children a'.children := by
  unfold Rears at brood brood'
  rw [state] at brood'
  refine forall₂_of_common ((List.forall₂_and_left _ _).mpr ⟨below, brood⟩)
    ((List.forall₂_and_left _ _).mpr ⟨below', brood'⟩) ?_
  rintro z z' ⟨workflow, position⟩ ⟨below_z, d, now, at_z, origin⟩ ⟨below_z', d', now', at_z', origin'⟩
  have planned : (a'.child now' y' workflow position).plan = (a.child now y workflow position).plan := by
    unfold Execution.plan Execution.child Execution.idle
    rw [path, depth, state]
  have plan : d.execution.plan = (a.child now y workflow position).plan := Execution.plan_of_origin origin
  have plan' : d'.execution.plan = (a'.child now' y' workflow position).plan := Execution.plan_of_origin origin'
  refine alike z z' d d' below_z below_z' at_z at_z' ?_ (congrArg Execution.depth origin)
  rw [plan', planned, plan]

/-- **What ends as the interpreter says** is mirrored by what began alike. -/
theorem mirrors_of_accomplished (accomplished : ∀ y c, e.Below x y → e.courses[y]? = some c → e.Accomplished k y c)
    (accomplished' : ∀ y c, e'.Below x' y → e'.courses[y]? = some c → e'.Accomplished k y c) (below : e.Below x y)
    (below' : e'.Below x' y') (at_y : e.courses[y]? = some c) (at_y' : e'.courses[y']? = some c')
    (plan : c'.execution.plan = c.execution.plan) : Mirrors e e' y y' := by
  -- on how much deeper the settings allow to spawn
  induction room : (k.settings.maxDepth + 1 - c.execution.depth).toNat using Nat.strongRecOn generalizing y y' c c' with
  | _ room ih =>
    have ends := accomplished y c below at_y
    have ends' := accomplished' y' c' below' at_y'
    have due := Conduct.due_of_plan (k := k) plan
    have state : c'.execution.state = c.execution.state := by rw [ends'.state, ends.state, due]
    refine .node at_y at_y' plan ?_ state ?_ ?_ ?_ ?_
    · rw [ends'.status, ends.status, due]
    · rw [ends'.history, ends.history, due]
    · rw [ends'.error, ends.error, due]
    · rw [ends'.calls, ends.calls, Conduct.callsDue_of_plan plan]
    · have brood := ends.brood
      have brood' := ends'.brood
      rw [due] at brood'
      by_cases deep : k.settings.maxDepth < c.execution.depth
      · rw [Conduct.spawned_of_deep deep] at brood brood'
        rw [List.forall₂_nil_right_iff.mp brood, List.forall₂_nil_right_iff.mp brood']
        exact .nil
      · refine brood.mirrors brood' (Execution.path_of_plan plan) (Execution.depth_of_plan plan) state
          (fun z mem => .child below at_y mem) (fun z mem => .child below' at_y' mem) ?_
        intro z z' d d' below_z below_z' at_z at_z' plan deeper
        exact ih (k.settings.maxDepth + 1 - d.execution.depth).toNat (by omega) below_z below_z' at_z at_z' plan rfl

end Mirrors

end Engine

end Stepflow
