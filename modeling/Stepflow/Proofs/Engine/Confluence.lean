import Stepflow.Proofs.Engine.Bystanders
import Stepflow.Proofs.Engine.Tracking

/-!
# Stepflow.Proofs.Engine.Confluence — every schedule gives the tree of the interpreter

* `Submits`: an act by which a workflow is accepted, by `start` or by the turn of a caller of `run`.
* `Peaceful`: an act that leaves the bindings alone and cancels none of the executions below a given one.
* `Paced`: every execution below a given one keeps step with the interpreter.  `Paced.act`: peaceful acts keep this,
  whichever task has its turn and however long the resolvers take.
* `shows_iff_interpret`: when all executions below have ended, their tree is the one that the interpreter computes.
-/

namespace Stepflow.Engine

/-- An act by which a workflow is accepted with a state to begin with. -/
inductive Submits (e : Engine) (workflow : Workflow) (state : State) : Act → Prop
  | start {initial : Datum} (free : e.current = none) (frozen : State.freeze initial = .ok state) :
      Submits e workflow state (.host (.start workflow initial))
  | run {place k : Nat} {c : Caller} {initial : Datum} (current : e.current = some (.caller k))
      (at_k : e.callers[k]? = some c) (life : c.life = .live (.entering workflow initial) false)
      (frozen : State.freeze initial = .ok state) : Submits e workflow state (.turn place)

/-- An act that leaves the bindings alone and cancels nothing below execution number `x`. -/
def Peaceful (x : Nat) (e : Engine) (a : Act) : Prop := ¬ a.Rebinds ∧ ∀ y, e.Below x y → ¬ e.Disturbs y a

/-- Every execution below number `x` keeps step with the interpreter, and no reason to cancel it is given. -/
structure Paced (k : Conduct) (x : Nat) (e : Engine) : Prop where
  conduct : e.conduct k.answer = k
  tracks : ∀ y c, e.Below x y → e.courses[y]? = some c →
    c.reason = none ∧ Tracks k c.execution c.scheduled c.life

section Confluence

variable {k : Conduct} {e e' : Engine} {a : Act} {x : Nat} {workflow : Workflow} {state : State}

/-- A workflow that is accepted is the last execution, and everything else stays. -/
theorem Submits.courses_eq (h : e.Submits workflow state a) :
    (e.act a).courses = e.courses ++ [.fresh (.root e.clock workflow state)] := by
  cases h with
  | start free frozen => simp [act, free, undergo, Engine.start, frozen, submit, Course.fresh]
  | run current at_k life frozen =>
    simp only [act, turnAt, current, move, at_k, life, moveCaller, frozen]
    exact handOn_courses _ _ _

theorem Submits.not_rebinds (h : e.Submits workflow state a) : ¬ a.Rebinds := by
  cases h <;> exact id

theorem conduct_act {answer : String → Value → Except Raised (Option Value)} (sound : e.Sound) (kept : ¬ a.Rebinds) :
    (e.act a).conduct answer = e.conduct answer := by
  obtain ⟨settings, process, -⟩ := (sound.outline a).frame
  unfold conduct
  rw [settings, process, (sound.happens a).registry_eq kept]

/-- A workflow that is accepted has nothing below it yet. -/
theorem Submits.alone (h : e.Submits workflow state a) {y : Nat} {c : Course} (below : (e.act a).Below e.courses.length y)
    (at_y : (e.act a).courses[y]? = some c) : c = .fresh (.root e.clock workflow state) := by
  have last : (e.act a).courses[e.courses.length]? = some (.fresh (.root e.clock workflow state)) := by
    rw [h.courses_eq]
    simp
  have same : y = e.courses.length := by
    clear at_y
    induction below with
    | self => rfl
    | @child y z d above at_y mem ih =>
      rw [ih, last] at at_y
      cases at_y
      simp [Course.fresh, Execution.root, Execution.idle] at mem
  rw [same, last] at at_y
  exact (Option.some.inj at_y).symm

theorem Submits.paced (h : e.Submits workflow state a) (sound : e.Sound) (conduct : e.conduct k.answer = k) :
    Paced k e.courses.length (e.act a) where
  conduct := (conduct_act sound h.not_rebinds).trans conduct
  tracks := by
    intro y c below at_y
    rw [h.alone below at_y]
    exact ⟨rfl, .opening rfl rfl⟩

/-- **Peaceful acts keep pace**: an execution below moves as the interpreter does, or stays as it is. -/
theorem Paced.act (h : Paced k x e) (answers : k.Answers) (sound : e.Sound) (peaceful : Peaceful x e a) :
    Paced k x (e.act a) where
  conduct := (conduct_act sound peaceful.1).trans h.conduct
  tracks := by
    have outline := sound.outline a
    intro y c' below' at_y'
    cases at_y : e.courses[y]? with
    | none =>
      obtain ⟨-, execution, rfl, -⟩ := outline.newborn at_y' at_y
      exact ⟨rfl, .opening (outline.newborn_unbegun at_y' at_y) rfl⟩
    | some c =>
      have below := outline.below below' (List.getElem?_eq_some_iff.mp at_y).1
      obtain ⟨still, tracks⟩ := h.tracks y c below at_y
      rcases (sound.happens a).alone (peaceful.2 y below) at_y with same | ⟨eff, -, moved, after⟩
      · obtain rfl : c' = c := by simpa [at_y'] using same
        exact ⟨still, tracks⟩
      · obtain rfl : c' = eff.course c := by simpa [at_y'] using after
        have stands := sound.standing.stands y c at_y
        cases moved with
        | advanced life advance =>
          rw [life] at stands tracks
          rw [← h.conduct] at tracks answers ⊢
          refine ⟨?_, advance.tracks answers stands still tracks⟩
          dsimp only [Effect.course]
          split
          · rfl
          · exact still
        | diverted life =>
          rw [life] at tracks
          cases tracks

theorem Paced.run (h : Paced k x e) (answers : k.Answers) (reachable : e.Reachable) (sound : e'.Sound)
    (run : Reaches (Peaceful x) e e') : Paced k x e' := by
  refine run.induction reachable sound h ?_
  intro e₁ a _ sound _ peaceful _ paced
  exact paced.act answers sound peaceful

/-- **The trees**: an execution that has ended, with all that came of it, shows what the interpreter computes. -/
theorem Paced.shows (h : Paced k x e) (sound : e.Sound)
    (finished : ∀ y c, e.Below x y → e.courses[y]? = some c → c.execution.isFinished = true) {y : Nat} {c : Course}
    (below : e.Below x y) (at_y : e.courses[y]? = some c) :
    e.Shows y (k.tree c.execution) := by
  -- on how much deeper the settings allow to spawn
  induction room : (k.settings.maxDepth + 1 - c.execution.depth).toNat using Nat.strongRecOn
    generalizing y c with
  | _ room ih =>
    have ended := finished y c below at_y
    have stands := sound.standing.stands y c at_y
    have brood := sound.brood at_y
    unfold Brood at brood
    rw [attended_of_finished stands ended] at brood
    cases (h.tracks y c below at_y).2.concluded stands ended with
    | completed status error_eq due =>
      rw [status, if_pos rfl] at brood
      let children := (wanted c.scheduled c.execution.state).map fun p =>
        k.interpret p.1 (c.execution.path ++ [p.1.childName p.2]) (c.execution.depth + 1) c.execution.state
      have shown : List.Forall₂ e.Shows c.execution.children children := by
        have shallow : ¬ k.settings.maxDepth < c.execution.depth :=
          Conduct.shallow_of_outcome (congrArg Walked.ending due)
        have children_below : ∀ z ∈ c.execution.children, e.Below x z := fun z mem => .child below at_y mem
        rw [List.forall₂_map_right_iff]
        refine ((List.forall₂_and_left _ _).mpr ⟨children_below, brood⟩).imp ?_
        rintro z p ⟨below, d, now, at_z, origin⟩
        have deeper : d.execution.depth = c.execution.depth + 1 := congrArg Execution.depth origin
        have shown := ih (k.settings.maxDepth + 1 - d.execution.depth).toNat (by omega) below at_z rfl
        have same : d.execution.origin = (c.execution.child now y p.1 p.2).origin := origin
        rw [Conduct.tree_congr same] at shown
        exact shown
      have node := Shows.node at_y shown
      rw [status, error_eq] at node
      unfold Conduct.tree
      rw [Conduct.interpret_through due]
      exact node
    | @ended error status error_eq due =>
      have ne : c.execution.status ≠ .completed := by
        rcases status with eq | eq <;> simp [eq]
      rw [if_neg ne] at brood
      have childless : c.execution.children = [] := List.forall₂_nil_right_iff.mp brood
      have node := @Shows.node e y c [] at_y (by rw [childless]; exact .nil)
      rw [error_eq] at node
      unfold Conduct.tree
      rw [Conduct.interpret_ended due]
      exact node

/-- **Confluence**: a workflow is accepted, and from then on nothing changes the bindings or cancels what came of it.
Whatever order the tasks have their turns in and however long the resolvers take, once all that came of it has ended its
tree is the one that the interpreter computes. -/
theorem shows_iff_interpret {answer : String → Value → Except Raised (Option Value)} (reachable : e.Reachable)
    (answers : (e.conduct answer).Answers) (submits : e.Submits workflow state a)
    (run : Reaches (Peaceful e.courses.length) (e.act a) e') (calm : e'.Calm) (named : e'.WellNamed)
    (finished : ∀ y c, e'.Below e.courses.length y → e'.courses[y]? = some c → c.execution.isFinished = true)
    (tree : Tree) : e'.Shows e.courses.length tree ↔
      tree = (e.conduct answer).interpret workflow [workflow.rootName] 0 state := by
  have accepted : Reaches anyOrder e (e.act a) := .single trivial
  have onward : Reaches anyOrder (e.act a) e' := run.mono fun _ _ _ => trivial
  have reachable₁ : (e.act a).Reachable := reachable.trans accepted
  have sound' : e'.Sound := Reachable.sound (reachable₁.trans onward) calm named
  have sound₁ : (e.act a).Sound := sound'.of_reaches reachable₁ run
  have sound : e.Sound := sound₁.of_reaches reachable accepted
  have begun : Paced (e.conduct answer) e.courses.length (e.act a) := submits.paced sound rfl
  have paced : Paced (e.conduct answer) e.courses.length e' := begun.run answers reachable₁ sound' run
  have last : (e.act a).courses[e.courses.length]? = some (.fresh (.root e.clock workflow state)) := by
    rw [submits.courses_eq]
    simp
  obtain ⟨c, at_x, origin⟩ := run.origin reachable₁ sound' last
  have shown := paced.shows sound' finished .self at_x
  rw [Conduct.tree_congr origin] at shown
  constructor
  · intro given
    exact given.unique shown
  · rintro rfl
    exact shown

end Confluence

section Witness

/-- Turns are peaceful where nobody waits for an execution and nobody shuts down. -/
theorem peaceful_turns {e : Engine} (x fuel : Nat) (unwatched : ∀ n < fuel,
    (turns n e).callers.isEmpty = true ∧ (turns n e).closers.isEmpty = true) :
    Reaches (Peaceful x) e (turns fuel e) := by
  refine turns_reaches e fuel fun n lt => ⟨id, fun y _ disturbed => ?_⟩
  obtain ⟨callers, closers⟩ := unwatched n lt
  cases disturbed with
  | abandoned _ at_k => simp [List.isEmpty_iff.mp callers] at at_k
  | timedOut _ life => simp [List.isEmpty_iff.mp closers] at life

/-- An engine whose resolver takes longer with each call and whose processing schedules a workflow without steps. -/
def nursery : Engine :=
  let patient : Resolver :=
    ⟨"Patient", "grow", .propagate, false, fun n _ => .sleep (n + 1) (.answer none) (.raise .canceled)⟩
  fresh .standard (fun state _ _ => .ok ⟨state, [⟨[], .null, none, .empty, .empty⟩]⟩) none
    (Registry.empty.register "grow" ⟨0, patient⟩)

/-- A workflow of one step. -/
def seed : Workflow := ⟨[⟨"grow", .null, .empty, by decide⟩], .text "seed", none, .empty, .empty⟩

/-- A run in which the resolver is waited for. -/
def sownRun : Engine := turns 5 (nursery.act (.host (.start seed .null)))

/-- The run goes on when the time has come, and a child is spawned. -/
def grownRun : Engine := turns 20 (sownRun.act (.host (.pass 1)))

theorem grownRun_shows : grownRun.courses.map (·.execution.status) = [.completed, .completed] ∧
    ∀ tree, grownRun.Shows 0 tree ↔
      tree = (nursery.conduct fun _ _ => .ok none).interpret seed [seed.rootName] 0 .empty := by
  have answers : (nursery.conduct fun _ _ => .ok none).Answers := by
    intro stepType handler bound _ n payload
    simp only [conduct, nursery, fresh, Registry.find?, Registry.register, Registry.empty, Fields.get?_insert] at bound
    split at bound
    · cases bound
      rfl
    · cases bound
  have first : Reaches (Peaceful 0) (nursery.act (.host (.start seed .null))) sownRun :=
    peaceful_turns 0 5 (by decide +kernel)
  have pass : Peaceful 0 sownRun (.host (.pass 1)) := ⟨id, fun _ _ disturbed => by cases disturbed⟩
  have second : Reaches (Peaceful 0) (sownRun.act (.host (.pass 1))) grownRun := peaceful_turns 0 20 (by decide +kernel)
  have run := (first.trans (.single pass)).trans second
  have accepted : Reaches anyOrder nursery (nursery.act (.host (.start seed .null))) := .single trivial
  have calm : grownRun.Calm := (accepted.trans (run.mono fun _ _ _ => trivial)).calm_iff.mpr (fresh_calm _ _ _)
  have finished : ∀ c ∈ grownRun.courses, c.execution.isFinished = true := by decide +kernel
  have reachable : nursery.Reachable := Reaches.of_fresh .refl
  refine ⟨by decide +kernel, ?_⟩
  exact shows_iff_interpret reachable answers (.start rfl rfl) run calm (by decide +kernel)
    fun y c _ at_y => finished c (List.mem_of_getElem? at_y)

end Witness

end Stepflow.Engine
