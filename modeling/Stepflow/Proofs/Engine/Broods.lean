import Mathlib.Data.List.Forall2
import Stepflow.Proofs.Engine.Standing

/-!
# Stepflow.Proofs.Engine.Broods — the children of an execution

* `Course.attended`: the part of its schedule that an execution has gone through, from the stage of its task.
* `Engine.Brood`: the children of an execution are those of the workflows gone through whose guards hold, in the order of
  the schedule, each accepted as a child of this execution at its position.
* `Sound.brood`: so it is for every execution in every sound state.  Before the steps are done, and after a failure or a
  cancellation, nothing has been gone through and there are no children.
* `Engine.Below`: an execution and all that came of it.  `Outline.below`: what an act brings below an execution is new; what
  was there before was below it before.
-/

namespace Stepflow

/-- The scheduled workflows whose guards hold, with their positions. -/
def wanted (scheduled : List Workflow) (state : State) : List (Workflow × Nat) :=
  scheduled.zipIdx.filter fun p => p.1.shouldRun state

theorem wanted_concat (scheduled : List Workflow) (workflow : Workflow) (state : State) :
    wanted (scheduled ++ [workflow]) state =
      wanted scheduled state ++ if workflow.shouldRun state then [(workflow, scheduled.length)] else [] := by
  simp only [wanted, List.zipIdx_append, List.filter_append, Nat.zero_add, List.zipIdx_singleton]
  by_cases should : workflow.shouldRun state = true <;> simp [should]

/-- What has been gone through of a list, before an entry and with it. -/
theorem take_of_split {α : Type} {l before rest : List α} {a : α} {position : Nat} (split : l = before ++ a :: rest)
    (length : before.length = position) : l.take position = before ∧ l.take (position + 1) = before ++ [a] := by
  have split' : l = (before ++ [a]) ++ rest := by simp [split]
  constructor
  · rw [split, ← length, List.take_left]
  · rw [split', ← length, List.take_left' (by simp)]

/-- The part of the schedule that an execution has gone through. -/
def Course.attended (c : Course) : List Workflow :=
  match c.life with
  | .live (.spawning position _) _ => c.scheduled.take position
  | .live .completing _ => c.scheduled
  | _ => if c.execution.status = .completed then c.scheduled else []

/-- The parts of an execution and its task that its children go by. -/
theorem Course.attended_congr {c c' : Course} (scheduled : c'.scheduled = c.scheduled)
    (status : c'.execution.status = c.execution.status) (life : c'.life = c.life ∨ c'.life = c.life.interrupt) :
    c'.attended = c.attended := by
  unfold attended
  rw [scheduled, status]
  rcases life with eq | eq
  · rw [eq]
  · rw [eq]
    cases c.life with
    | live stage interrupted => cases stage <;> rfl
    | ended ending => rfl

namespace Engine

/-- The children of an execution are the wanted ones of some workflows, each accepted at its position. -/
def Rears (e : Engine) (x : Nat) (a : Execution) (spawned : List Workflow) : Prop :=
  List.Forall₂ (fun y p => ∃ d now, e.courses[y]? = some d ∧ d.execution.origin = a.child now x p.1 p.2) a.children
    (wanted spawned a.state)

/-- The children of an execution are those of the workflows that it has gone through. -/
def Brood (e : Engine) (x : Nat) (c : Course) : Prop := e.Rears x c.execution c.attended

section Brood

variable {e e' : Engine} {x : Nat} {c c' : Course}

theorem Rears.of_childless {a : Execution} (children : a.children = []) : e.Rears x a [] := by
  unfold Rears
  rw [children]
  exact .nil

/-- Executions stay what they were accepted as. -/
theorem Rears.outline {a : Execution} {spawned : List Workflow} (h : e.Rears x a spawned) (outline : Outline e e') :
    e'.Rears x a spawned := by
  refine List.Forall₂.imp ?_ h
  rintro y p ⟨d, now, hd, origin⟩
  obtain ⟨d', hd', fate⟩ := outline.fate hd
  exact ⟨d', now, hd', fate.origin_eq.trans origin⟩

/-- An execution that changes in other respects keeps its children. -/
theorem Rears.congr {a b : Execution} {spawned : List Workflow} (h : e.Rears x a spawned)
    (children : b.children = a.children) (state : b.state = a.state) (path : b.path = a.path)
    (depth : b.depth = a.depth) : e.Rears x b spawned := by
  unfold Rears Execution.child at *
  rw [children, state, path, depth]
  exact h

/-- A workflow that is spawned becomes the last child. -/
theorem Rears.spawn {a : Execution} {spawned : List Workflow} {workflow : Workflow} {d : Course} {y : Nat}
    (h : e.Rears x a spawned) (should : workflow.shouldRun a.state = true) (at_y : e.courses[y]? = some d)
    {now : Rat} (origin : d.execution.origin = a.child now x workflow spawned.length) :
    e.Rears x { a with children := a.children ++ [y] } (spawned ++ [workflow]) := by
  unfold Rears
  dsimp only
  rw [wanted_concat, should]
  exact List.rel_append h (.cons ⟨d, now, at_y, origin⟩ .nil)

/-- A workflow that is not wanted is passed over. -/
theorem Rears.pass {a : Execution} {spawned : List Workflow} {workflow : Workflow} (h : e.Rears x a spawned)
    (should_not : workflow.shouldRun a.state = false) : e.Rears x a (spawned ++ [workflow]) := by
  unfold Rears
  rw [wanted_concat, should_not]
  simpa [Rears] using h

theorem Brood.of_childless (children : c.execution.children = []) (attended : c.attended = []) : e.Brood x c := by
  unfold Brood
  rw [attended]
  exact .of_childless children

end Brood

end Engine

/-! ## Moves -/

section Moves

variable {e e' : Engine} {x : Nat} {c c' : Course}

/-- Where the task of an execution can be that is completed. -/
theorem Stands.of_completed {maxDepth : Int} {a : Execution} {scheduled : List Workflow} {life : Life Stage}
    (h : Stands maxDepth a scheduled life) (completed : a.status = .completed) :
    life = .live .closing false ∨ ∃ ending, life = .over ending := by
  cases h with
  | unbegun unbegun | dropped unbegun => simp [unbegun.status_eq] at completed
  | stillborn unbegun names_eq eq => simp [eq] at completed
  | admitted running | reaching running | calling running | holding running | handled running | dispatched running
  | finishing running | canceling running => simp [running.status] at completed
  | spawning spent | completing spent =>
    have unfinished := spent.unfinished
    simp [Execution.isFinished, completed, Status.isFinished] at unfinished
  | closing => exact .inl rfl
  | leaving canceled => simp [canceled] at completed
  | settled => exact .inr ⟨_, rfl⟩

/-- What has been gone through of the schedule of an execution that has ended. -/
theorem attended_of_finished {maxDepth : Int} (h : Stands maxDepth c.execution c.scheduled c.life)
    (finished : c.execution.isFinished = true) :
    c.attended = if c.execution.status = .completed then c.scheduled else [] := by
  obtain ⟨execution, scheduled, life, reason⟩ := c
  cases h with
  | spawning spent | completing spent => simp [spent.unfinished] at finished
  | _ => rfl

/-- As long as an execution is not through with its steps, or if it has failed or is canceled, it has no children. -/
theorem Stands.brood {maxDepth : Int} (h : Stands maxDepth c.execution c.scheduled c.life)
    (through : c.execution.status = .completed ∨ (∃ position rest, c.life = .live (.spawning position rest) false) ∨
      c.life = .live .completing false → e.Brood x c) : e.Brood x c := by
  obtain ⟨a, scheduled, life, reason⟩ := c
  by_cases completed : a.status = .completed
  · exact through (.inl completed)
  · have ended : Ended maxDepth a → a.children = [] := by
      intro ended
      cases ended with
      | completed status => exact absurd status completed
      | failedAt running _ _ eq | tooDeep running _ _ eq | canceled running _ eq => rw [eq]; exact running.children
      | stillborn unbegun _ eq => rw [eq]; exact unbegun.children_eq
    cases h with
    | spawning => exact through (.inr (.inl ⟨_, _, rfl⟩))
    | completing => exact through (.inr (.inr rfl))
    | unbegun unbegun | dropped unbegun =>
      exact .of_childless unbegun.children_eq (by simp [Course.attended, completed])
    | stillborn unbegun names_eq eq =>
      have children : a.children = [] := (congrArg Execution.children eq).trans unbegun.children_eq
      exact .of_childless children (by simp [Course.attended, completed])
    | admitted running | reaching running | calling running | holding running | handled running | dispatched running
    | finishing running | canceling running =>
      exact .of_childless running.children (by simp [Course.attended, completed])
    | closing h | leaving _ h | settled h => exact .of_childless (ended h) (by simp [Course.attended, completed])

/-- A move of the task of an execution brings up its children as the schedule has it. -/
theorem Advance.brood {stage : Stage} {eff : Effect} (h : Advance e x c stage eff) (life : c.life = .live stage false)
    (stands : Stands e.settings.maxDepth c.execution c.scheduled c.life) (brood : e.Brood x c)
    (outline : Engine.Outline e e')
    (newborn : ∀ child, eff.born = some child → e'.courses[e.courses.length]? = some (.fresh child)) :
    e'.Brood x (eff.course c) := by
  rw [life] at stands
  have stands' := h.stands stands
  have reared : e'.Rears x c.execution c.attended := Engine.Rears.outline brood outline
  unfold Course.attended at reared
  rw [life] at reared
  refine Stands.brood stands' ?_
  -- children are owed once the execution is at its schedule or has completed, so three ways to get there
  unfold Engine.Brood Course.attended
  rintro (completed | ⟨position, rest, here⟩ | here)
  · rcases stands'.of_completed completed with eq | ⟨ending, eq⟩
    · cases h <;> simp [Engine.lifeAfter] at eq
      case tooDeep | unknown | unresolved | unprocessed => simp [Effect.course, Execution.endWith] at completed
      case completed => exact reared.congr rfl rfl rfl rfl
    · cases h <;> simp [Engine.lifeAfter] at eq
      case closed | left => exact reared
  · cases h <;> simp [Effect.course, Engine.lifeAfter] at here
    case scheduled =>
      obtain ⟨rfl, -⟩ := here
      cases stands with
      | finishing running => exact .of_childless running.children
    case spawned position' workflow rest' should =>
      cases stands with
      | @spawning _ _ before spent status split length =>
        obtain ⟨taken, taken'⟩ := take_of_split split length
        dsimp only at reared
        rw [taken] at reared
        dsimp only [Effect.course, Engine.lifeAfter]
        rw [taken']
        exact reared.spawn should (newborn _ rfl) (by rw [length]; rfl)
    case rejected position' workflow rest' should =>
      cases stands with
      | @spawning _ _ before spent status split length =>
        obtain ⟨taken, taken'⟩ := take_of_split split length
        dsimp only at reared
        rw [taken] at reared
        dsimp only [Effect.course, Engine.lifeAfter]
        rw [taken']
        exact reared.pass should
  · cases h <;> simp [Effect.course, Engine.lifeAfter] at here
    case unscheduled nothing =>
      cases stands with
      | finishing running =>
        dsimp only [Effect.course, Engine.lifeAfter]
        rw [nothing]
        exact .of_childless running.children
    case spawnedAll position =>
      cases stands with
      | spawning spent status split length =>
        have taken : c.scheduled.take position = c.scheduled := by rw [split, ← length]; simp
        dsimp only at reared
        rw [taken] at reared
        exact reared

/-- A cancellation meets a task that has no children yet. -/
theorem Moved.brood {eff : Effect} (h : Moved e x c eff)
    (stands : Stands e.settings.maxDepth c.execution c.scheduled c.life) (brood : e.Brood x c)
    (outline : Engine.Outline e e')
    (newborn : ∀ child, eff.born = some child → e'.courses[e.courses.length]? = some (.fresh child)) :
    e'.Brood x (eff.course c) := by
  cases h with
  | advanced life advance => exact advance.brood life stands brood outline newborn
  | @diverted stage life =>
    rw [life] at stands
    cases stands with
    | unbegun unbegun =>
      refine .of_childless unbegun.children_eq ?_
      simp [Course.attended, Effect.course, Engine.cancelCourse, Engine.lifeAfter, unbegun.status_eq]
    | stillborn unbegun names_eq eq =>
      refine .of_childless ((congrArg Execution.children eq).trans unbegun.children_eq) ?_
      simp [Course.attended, Effect.course, Engine.cancelCourse, Engine.lifeAfter, eq]
    | holding running | dispatched running =>
      refine .of_childless running.children ?_
      simp [Course.attended, Effect.course, Engine.cancelCourse, Engine.lifeAfter, running.status]

/-- What comes from outside leaves the children of an execution as they are. -/
theorem Touched.brood {maxDepth : Int} {now : Rat} (h : Touched now c c')
    (stands : Stands maxDepth c.execution c.scheduled c.life) (brood : e.Brood x c) (outline : Engine.Outline e e') : e'.Brood x c' := by
  rcases h with signaled | marked
  · have attended := Course.attended_congr signaled.scheduled (congrArg Execution.status signaled.execution) signaled.life
    unfold Engine.Brood at brood ⊢
    rw [attended, signaled.execution]
    exact brood.outline outline
  · cases marked with
    | waiting names_eq idle life =>
      obtain ⟨unbegun, opening⟩ := stands.of_idle idle
      obtain ⟨interrupted, eq⟩ := opening (by rw [life]; rfl)
      rw [life] at eq
      cases eq
      exact .of_childless unbegun.children_eq rfl
    | stranded names_eq unfinished life =>
      have unbegun := stands.unbegun_of_over (by rw [life]; rfl) unfinished
      exact .of_childless unbegun.children_eq rfl

/-- Only spawning changes the children of an execution, and it adds a new one. -/
theorem Fate.children_eq (h : Fate e e' x c c') :
    c'.execution.children = c.execution.children ∨
      c'.execution.children = c.execution.children ++ [e.courses.length] := by
  cases h with
  | kept => exact .inl rfl
  | moved current moved =>
    cases moved with
    | diverted => exact .inl rfl
    | advanced life advance =>
      cases advance with
      | spawned => exact .inr rfl
      | _ => exact .inl rfl
  | touched touched =>
    rcases touched with signaled | marked
    · exact .inl (congrArg Execution.children signaled.execution)
    · cases marked <;> exact .inl rfl

end Moves

namespace Engine

section Sound

variable {e e' : Engine} {x : Nat} {c c' : Course}

theorem Outline.brood (outline : Outline e e') (standing : e.Standing)
    (broods : ∀ x c, e.courses[x]? = some c → e.Brood x c) (hx' : e'.courses[x]? = some c') : e'.Brood x c' := by
  cases hx : e.courses[x]? with
  | none =>
    obtain ⟨-, execution, rfl, -⟩ := outline.newborn hx' hx
    have unbegun := outline.newborn_unbegun hx' hx
    exact .of_childless unbegun.children_eq (by simp [Course.attended, Course.fresh, unbegun.status_eq])
  | some c =>
    have stands := standing.stands x c hx
    have brood := broods x c hx
    obtain ⟨d, hd, fate⟩ := outline.fate hx
    obtain rfl : c' = d := by simpa [hx'] using hd
    cases fate with
    | kept => exact Rears.outline brood outline
    | moved current moved after calls born => exact moved.brood stands brood outline born
    | touched touched => exact touched.brood stands brood outline

/-- **Broods**: in every sound state the children of an execution are those of the workflows that it has gone through
whose guards hold, in the order of its schedule. -/
theorem Sound.brood (h : e.Sound) (hx : e.courses[x]? = some c) : e.Brood x c := by
  refine h.induction (I := fun e => ∀ x c, e.courses[x]? = some c → e.Brood x c) ?_ ?_ x c hx
  · intro settings process bus registry x c hx
    simp [fresh] at hx
  · intro e a sound _ outline broods x c hx
    exact outline.brood sound.standing broods hx

end Sound

/-! ## Descent -/

/-- Execution number `x` and all that came of it. -/
inductive Below (e : Engine) (x : Nat) : Nat → Prop
  | self : Below e x x
  | child {y z : Nat} {c : Course} (above : Below e x y) (at_y : e.courses[y]? = some c)
      (mem : z ∈ c.execution.children) : Below e x z

section Below

variable {e e' : Engine} {x y : Nat}

/-- What is below an execution after an act was below it before the act, unless it is new. -/
theorem Outline.below (h : Outline e e') (below : e'.Below x y) (hy : y < e.courses.length) : e.Below x y := by
  induction below with
  | self => exact .self
  | @child y z c' above at_y mem ih =>
    rcases Nat.lt_or_ge y e.courses.length with old | new
    · obtain ⟨d', hd', fate⟩ := h.fate (List.getElem?_eq_getElem old)
      obtain rfl : c' = d' := by simpa [at_y] using hd'
      refine .child (ih old) (List.getElem?_eq_getElem old) ?_
      rcases fate.children_eq with same | more
      · rw [← same]
        exact mem
      · rw [more] at mem
        rcases List.mem_append.mp mem with mem | mem
        · exact mem
        · have last := List.mem_singleton.mp mem
          omega
    · have none := List.getElem?_eq_none_iff.mpr new
      obtain ⟨-, execution, rfl, -⟩ := h.newborn at_y none
      have unbegun := h.newborn_unbegun at_y none
      simp [Course.fresh, unbegun.children_eq] at mem

end Below

end Engine

end Stepflow
