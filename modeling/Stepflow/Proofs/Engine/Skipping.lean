import Stepflow.Proofs.Engine.Mirroring

/-!
# Stepflow.Proofs.Engine.Skipping — steps of unknown types

* `Conduct.knows`: the type of a step is bound.  `Conduct.place`: the number that a step has among those that are known.
* `Conduct.walk_filter`, `Conduct.callsFrom_filter`: where unknown steps are skipped, the steps of a workflow come to what
  the known ones alone come to, under other numbers.
* `Conduct.walk_append`, `Conduct.walk_unknown`: where unknown steps are refused, the steps before the first of them come to
  what they come to alone, and that one ends the workflow.
* `Overlooks`, `BreaksOff`: what is told of the execution of a workflow, by what is told of one of the workflow without those
  steps.  `unknown_steps`: so it is told of every two runs that nobody disturbs.
-/

namespace Stepflow

/-- The record of a step under another number. -/
def StepRecord.renumber (f : Nat → Nat) (r : StepRecord) : StepRecord := { r with index := f r.index }

/-- The call for a step under another number. -/
def Performed.renumber (f : Nat → Nat) (p : Performed) : Performed := { p with index := f p.index }

/-- The error of an execution at a step under another number. -/
def Failure.renumber (f : Nat → Nat) : Failure → Failure
  | .execution canceled message path index stepType cause =>
    .execution canceled message path (index.map fun i => (f i.toNat : Int)) stepType cause
  | other => other

/-- The records of the steps that were not skipped, under other numbers. -/
def condense (f : Nat → Nat) (history : List StepRecord) : List StepRecord :=
  (history.filter (·.status ≠ .skipped)).map (·.renumber f)

section Condense

variable {f : Nat → Nat} {history : List StepRecord} {r : StepRecord}

theorem condense_skipped (skipped : r.status = .skipped) : condense f (history ++ [r]) = condense f history := by
  simp [condense, skipped]

theorem condense_concat (kept : r.status ≠ .skipped) :
    condense f (history ++ [r]) = condense f history ++ [r.renumber f] := by
  simp [condense, kept]

end Condense

/-- What comes of the steps of a workflow, without those that were skipped. -/
def Walked.condense (f : Nat → Nat) (w : Walked) : Walked :=
  ⟨w.state, Stepflow.condense f w.history, w.scheduled, w.ending.map fun ending => (ending.1, ending.2.renumber f)⟩

namespace Conduct

/-- Whether the type of a step is bound. -/
def knows (k : Conduct) (step : Step) : Bool := (k.registry.find? step.stepType).isSome

/-- The number that a step has among those that are known. -/
def place (k : Conduct) (steps : List Step) (index : Nat) : Nat := (steps.take index).countP k.knows

section Known

variable {k : Conduct} {step : Step} {done steps : List Step} {names : List String} {state : State}
  {history : List StepRecord} {scheduled : List Workflow} {index : Nat}

theorem place_length (k : Conduct) (done steps : List Step) : k.place (done ++ steps) done.length = done.countP k.knows := by
  unfold place
  rw [List.take_left]

theorem resolve_unknown (unknown : k.knows step = false) :
    k.resolve step = if k.settings.strict then .failed "unknown step type" (.unknownStepType step.stepType)
      else .skipped (Failure.unknownStepType step.stepType).message := by
  unfold knows at unknown
  unfold resolve
  rw [Option.isSome_eq_false_iff, Option.isNone_iff_eq_none] at unknown
  rw [unknown]

/-- A known step is not skipped. -/
theorem resolve_ne_skipped (known : k.knows step = true) (error : String) : k.resolve step ≠ .skipped error := by
  obtain ⟨handler, bound⟩ := Option.isSome_iff_exists.mp known
  intro skipped
  unfold resolve at skipped
  rw [bound] at skipped
  dsimp only at skipped
  split at skipped
  · cases skipped
  · split at skipped
    · cases skipped
    · cases skipped
    · split at skipped <;> cases skipped

/-- What comes of a resolver is not recorded as skipped. -/
theorem status_ne_skipped {output : Option Value} {status : StepStatus} {error : Option String}
    (resolved : k.resolve step = .given output status error) : status ≠ .skipped := by
  unfold resolve at resolved
  split at resolved
  · split at resolved <;> cases resolved
  · split at resolved
    · cases resolved
      decide
    · split at resolved
      · cases resolved
        decide
      · cases resolved
      · split at resolved
        · cases resolved
        · cases resolved
          decide

/-! ### Unknown steps that are skipped -/

/-- **Skipped steps leave nothing but their records.** -/
theorem walk_filter (lenient : k.settings.strict = false) (done steps : List Step) (names : List String) (state : State)
    (history : List StepRecord) (scheduled : List Workflow) :
    k.walk names (done.countP k.knows) (steps.filter k.knows) state (condense (k.place (done ++ steps)) history) scheduled =
      (k.walk names done.length steps state history scheduled).condense (k.place (done ++ steps)) := by
  -- the induction is on the steps to come; `done` tells how many of those gone by are known
  induction steps generalizing done state history scheduled with
  | nil => rfl
  | cons step rest ih =>
    have split : done ++ step :: rest = (done ++ [step]) ++ rest := by simp
    have here := k.place_length done (step :: rest)
    have next : (done ++ [step]).length = done.length + 1 := by simp
    rw [split] at here ⊢
    generalize place_eq : k.place ((done ++ [step]) ++ rest) = f at here
    cases known : k.knows step with
    | false =>
      have skips := k.resolve_unknown known
      rw [lenient, if_neg Bool.false_ne_true] at skips
      have same : (done ++ [step]).countP k.knows = done.countP k.knows := by simp [known]
      rw [List.filter_cons_of_neg (by simp [known]), walk, skips]
      dsimp only
      rw [← next, ← place_eq, ← ih, place_eq, condense_skipped rfl, same]
    | true =>
      have more : (done ++ [step]).countP k.knows = done.countP k.knows + 1 := by simp [known]
      rw [List.filter_cons_of_pos known, walk, walk]
      cases resolved : k.resolve step with
      | skipped error => exact absurd resolved (resolve_ne_skipped known error)
      | failed message cause =>
        simp [Walked.condense, condense_concat, StepRecord.renumber, Failure.renumber, Execution.errorAt, here]
      | canceled => simp [Walked.condense, Failure.renumber, here]
      | given output status error =>
        dsimp only
        cases processed : k.process state step output with
        | error raised =>
          cases raised with
          | failure cause =>
            simp [Walked.condense, condense_concat, StepRecord.renumber, Failure.renumber, Execution.errorAt, here]
          | canceled => simp [Walked.condense, Failure.renumber, here]
        | ok transition =>
          dsimp only
          rw [← next, ← place_eq, ← ih, place_eq, condense_concat (status_ne_skipped resolved), more]
          simp [StepRecord.renumber, here]

/-- Nobody is called for skipped steps. -/
theorem callsFrom_filter (lenient : k.settings.strict = false) (done steps : List Step) (state : State) :
    k.callsFrom (done.countP k.knows) (steps.filter k.knows) state =
      (k.callsFrom done.length steps state).map (·.renumber (k.place (done ++ steps))) := by
  -- the same induction as for the walk itself
  induction steps generalizing done state with
  | nil => rfl
  | cons step rest ih =>
    have split : done ++ step :: rest = (done ++ [step]) ++ rest := by simp
    have here := k.place_length done (step :: rest)
    have next : (done ++ [step]).length = done.length + 1 := by simp
    rw [split]
    cases known : k.knows step with
    | false =>
      have skips := k.resolve_unknown known
      rw [lenient, if_neg Bool.false_ne_true] at skips
      have unbound : k.registry.find? step.stepType = none := by simpa [knows] using known
      have same : (done ++ [step]).countP k.knows = done.countP k.knows := by simp [known]
      rw [List.filter_cons_of_neg (by simp [known]), callsFrom, callFor_unbound unbound, follow_skipped skips]
      dsimp only [Option.map_some, Option.getD_some, List.nil_append]
      rw [← next, ← ih, same]
    | true =>
      obtain ⟨handler, bound⟩ := Option.isSome_iff_exists.mp known
      have more : (done ++ [step]).countP k.knows = done.countP k.knows + 1 := by simp [known]
      rw [List.filter_cons_of_pos known, callsFrom, callsFrom, callFor_bound bound, callFor_bound bound, List.map_append]
      congr 1
      · simp [Performed.renumber, here]
      · cases k.follow step state with
        | none => rfl
        | some state =>
          dsimp only [Option.map_some, Option.getD_some]
          rw [← next, ← ih, more]

/-! ### Unknown steps that are refused -/

/-- Steps go on where the steps before them left off. -/
theorem walk_append (more : List Step) :
    k.walk names index (steps ++ more) state history scheduled =
      let w := k.walk names index steps state history scheduled
      match w.ending with
      | some _ => w
      | none => k.walk names (index + steps.length) more w.state w.history w.scheduled := by
  induction steps generalizing index state history scheduled with
  | nil => rfl
  | cons step rest ih =>
    have next : index + (step :: rest).length = index + 1 + rest.length := by
      rw [List.length_cons]
      omega
    rw [List.cons_append, walk, walk, next]
    cases k.resolve step with
    | skipped error => exact ih
    | failed message cause => rfl
    | canceled => rfl
    | given output status error =>
      dsimp only
      cases k.process state step output with
      | error raised => cases raised <;> rfl
      | ok transition => exact ih

theorem walk_unknown (strict : k.settings.strict = true) (unknown : k.knows step = false) (rest : List Step) :
    k.walk names index (step :: rest) state history scheduled =
      ⟨state, history ++ [⟨index, step.stepType, .failed, some (Failure.unknownStepType step.stepType).message⟩], scheduled,
        some (.failed, Execution.errorAt names index step "unknown step type" (.unknownStepType step.stepType))⟩ := by
  have refused := k.resolve_unknown unknown
  rw [strict, if_pos rfl] at refused
  rw [walk, refused]

/-- Nobody is called from the first unknown step on. -/
theorem callsFrom_append_unknown (strict : k.settings.strict = true) (unknown : k.knows step = false) (rest : List Step) :
    k.callsFrom index (steps ++ step :: rest) state = k.callsFrom index steps state := by
  induction steps generalizing index state with
  | nil =>
    have refused := k.resolve_unknown unknown
    rw [strict, if_pos rfl] at refused
    have unbound : k.registry.find? step.stepType = none := by simpa [knows] using unknown
    simp only [List.nil_append, callsFrom, callFor_unbound unbound, follow_failed refused]
    rfl
  | cons first others ih =>
    rw [List.cons_append, callsFrom, callsFrom]
    congr 3
    funext next
    exact ih

/-- A step that fails the workflow leaves a record of it. -/
theorem walk_failed {error : Failure}
    (failed : (k.walk names index steps state history scheduled).ending = some (.failed, error)) :
    ∃ r ∈ (k.walk names index steps state history scheduled).history, r.status = .failed := by
  induction steps generalizing index state history scheduled with
  | nil => cases failed
  | cons step rest ih =>
    rw [walk] at failed ⊢
    cases resolved : k.resolve step with
    | skipped error =>
      rw [resolved] at failed
      exact ih failed
    | failed message cause => exact ⟨_, List.mem_append_right _ (List.mem_singleton.mpr rfl), rfl⟩
    | canceled =>
      rw [resolved] at failed
      cases failed
    | given output status error =>
      rw [resolved] at failed
      dsimp only at failed ⊢
      cases processed : k.process state step output with
      | error raised =>
        rw [processed] at failed
        cases raised with
        | failure cause => exact ⟨_, List.mem_append_right _ (List.mem_singleton.mpr rfl), rfl⟩
        | canceled => cases failed
      | ok transition =>
        rw [processed] at failed
        exact ih failed

end Known

/-! ### The steps that a workflow is left with -/

/-- A workflow without its unknown steps, where those are skipped; where they are refused, what comes before the first. -/
def bare (k : Conduct) (workflow : Workflow) : Workflow :=
  { workflow with
    steps := if k.settings.strict then workflow.steps.takeWhile k.knows else workflow.steps.filter k.knows }

section Bare

variable {k : Conduct} {workflow : Workflow} {path : List Datum} {depth : Nat} {initial : State} {step : Step}

theorem outcome_skipping (lenient : k.settings.strict = false) : k.outcome (k.bare workflow) path depth initial =
    (k.outcome workflow path depth initial).condense (k.place workflow.steps) := by
  have steps : (k.bare workflow).steps = workflow.steps.filter k.knows := by simp [bare, lenient]
  have walks := walk_filter lenient [] workflow.steps (pathNames path) initial [] []
  unfold outcome
  rw [steps]
  split
  · rfl
  · exact walks

/-- Where unknown steps are refused, what a workflow is left with is all of it, or what comes before an unknown step. -/
theorem bare_eq_or (strict : k.settings.strict = true) (workflow : Workflow) : k.bare workflow = workflow ∨
    ∃ step rest, k.knows step = false ∧ workflow.steps = (k.bare workflow).steps ++ step :: rest := by
  have steps : (k.bare workflow).steps = workflow.steps.takeWhile k.knows := by simp [bare, strict]
  have split : workflow.steps.takeWhile k.knows ++ workflow.steps.dropWhile k.knows = workflow.steps :=
    List.takeWhile_append_dropWhile
  have first := List.head?_dropWhile_not k.knows workflow.steps
  cases dropped : workflow.steps.dropWhile k.knows with
  | nil =>
    rw [dropped, List.append_nil] at split
    left
    unfold bare
    rw [if_pos strict, split]
  | cons step rest =>
    rw [dropped] at first split
    refine .inr ⟨step, rest, by simpa using first, ?_⟩
    rw [steps]
    exact split.symm

/-- The first unknown step ends the workflow unless a step before it does. -/
theorem outcome_refusing {rest : List Step} (strict : k.settings.strict = true) (unknown : k.knows step = false)
    (split : workflow.steps = (k.bare workflow).steps ++ step :: rest) : k.outcome workflow path depth initial =
      let w := k.outcome (k.bare workflow) path depth initial
      match w.ending with
      | some _ => w
      | none =>
        let index := (k.bare workflow).steps.length
        ⟨w.state, w.history ++ [⟨index, step.stepType, .failed, some (Failure.unknownStepType step.stepType).message⟩],
          w.scheduled, some (.failed,
            Execution.errorAt (pathNames path) index step "unknown step type" (.unknownStepType step.stepType))⟩ := by
  unfold outcome
  rw [split]
  split
  · rfl
  · rw [walk_append]
    dsimp only
    cases (k.walk (pathNames path) 0 (k.bare workflow).steps initial [] []).ending with
    | some ending => rfl
    | none =>
      dsimp only
      rw [walk_unknown strict unknown, Nat.zero_add]

/-- A workflow that is not too deep and fails has the record of a step that failed. -/
theorem outcome_failed {error : Failure} (shallow : ¬ k.settings.maxDepth < depth)
    (failed : (k.outcome workflow path depth initial).ending = some (.failed, error)) :
    ∃ r ∈ (k.outcome workflow path depth initial).history, r.status = .failed := by
  unfold outcome at failed ⊢
  rw [if_neg shallow] at failed ⊢
  exact walk_failed failed

end Bare

end Conduct

/-! ## Runs -/

namespace Engine

/-- What is told of the execution of a workflow (number `x`), by what is told of one without the steps that are skipped
(number `x'`). -/
structure Overlooks (e e' : Engine) (f : Nat → Nat) (x x' : Nat) (c c' : Course) : Prop where
  status : c'.execution.status = c.execution.status
  state : c'.execution.state = c.execution.state
  history : c'.execution.history = condense f c.execution.history
  error : c'.execution.error = c.execution.error.map (·.renumber f)
  calls : performedIn e'.calls x' = (performedIn e.calls x).map (·.renumber f)
  children : List.Forall₂ (Mirrors e e') c.execution.children c'.execution.children

/-- Two executions have ended alike, and so has all that came of them. -/
structure Repeats (e e' : Engine) (x x' : Nat) (c c' : Course) : Prop where
  status : c'.execution.status = c.execution.status
  state : c'.execution.state = c.execution.state
  history : c'.execution.history = c.execution.history
  error : c'.execution.error = c.execution.error
  calls : performedIn e'.calls x' = performedIn e.calls x
  children : List.Forall₂ (Mirrors e e') c.execution.children c'.execution.children

/-- What is told of an execution (number `x`) that an unknown step ends, by what is told of one (number `x'`) of the steps
before it. -/
structure BreaksOff (e e' : Engine) (x x' : Nat) (c c' : Course) (index : Nat) (step : Step) : Prop where
  status : c.execution.status = .failed
  state : c.execution.state = c'.execution.state
  history : c.execution.history = c'.execution.history ++
    [⟨index, step.stepType, .failed, some (Failure.unknownStepType step.stepType).message⟩]
  error : c.execution.error = some (Execution.errorAt (pathNames c.execution.path) index step "unknown step type"
    (.unknownStepType step.stepType))
  calls : performedIn e.calls x = performedIn e'.calls x'
  children : c.execution.children = []

section Unknown

variable {e e' : Engine} {k : Conduct} {x x' : Nat} {c c' : Course} {workflow : Workflow} {state : State} {a a' : Act}
  {acts acts' : Nat → Act} {now now' : Rat}

theorem due_of_root {r : Execution} (origin : r.origin = .root now workflow state) :
    k.due r = k.outcome workflow [workflow.rootName] 0 state := k.due_congr (a := .root now workflow state) origin

theorem callsDue_of_root {r : Execution} (origin : r.origin = .root now workflow state) :
    k.callsDue r = if k.settings.maxDepth < 0 then [] else k.callsFrom 0 workflow.steps state :=
  k.callsDue_congr (a := .root now workflow state) origin

/-- What is not too deep, is not canceled and has no record of a step that failed has completed. -/
theorem Accomplished.completed (h : e.Accomplished k x c) (shallow : ¬ k.settings.maxDepth < c.execution.depth)
    (uncanceled : c.execution.status ≠ .canceled) (clean : ∀ r ∈ c.execution.history, r.status ≠ .failed) :
    c.execution.status = .completed := by
  have finished := h.finished
  unfold Execution.isFinished at finished
  rw [h.history] at clean
  cases status : c.execution.status with
  | completed => rfl
  | canceled => exact absurd status uncanceled
  | idle | running | spawning => simp [status, Status.isFinished] at finished
  | failed =>
    have failed := h.status.symm.trans status
    unfold Walked.status at failed
    cases ending : (k.due c.execution).ending with
    | none => simp [ending] at failed
    | some ended =>
      obtain ⟨_, error⟩ := ended
      simp only [ending, Option.map_some, Option.getD_some] at failed
      obtain ⟨r, mem, failed_r⟩ := Conduct.outcome_failed shallow (ending.trans (by rw [failed]))
      exact absurd failed_r (clean r mem)

section Pair

variable (accomplished : ∀ y c, e.Below x y → e.courses[y]? = some c → e.Accomplished k y c)
  (accomplished' : ∀ y c, e'.Below x' y → e'.courses[y]? = some c → e'.Accomplished k y c) (at_x : e.courses[x]? = some c)
  (at_x' : e'.courses[x']? = some c') (origin : c.execution.origin = .root now workflow state)
  (origin' : c'.execution.origin = .root now' (k.bare workflow) state)

include accomplished accomplished' at_x at_x' origin origin'

/-- What is spawned from the same schedule and the same state is mirrored. -/
theorem mirrors_of_root (same : c'.execution.state = c.execution.state)
    (spawned : (k.due c'.execution).spawned = (k.due c.execution).spawned) :
    List.Forall₂ (Mirrors e e') c.execution.children c'.execution.children := by
  have brood := (accomplished x c .self at_x).brood
  have brood' := (accomplished' x' c' .self at_x').brood
  have path : c.execution.path = [workflow.rootName] := congrArg Execution.path origin
  have path' : c'.execution.path = [workflow.rootName] := congrArg Execution.path origin'
  have depth : c.execution.depth = 0 := congrArg Execution.depth origin
  have depth' : c'.execution.depth = 0 := congrArg Execution.depth origin'
  rw [spawned] at brood'
  refine brood.mirrors brood' (path'.trans path.symm) (depth'.trans depth.symm) same (fun z mem => .child .self at_x mem)
    (fun z mem => .child .self at_x' mem) ?_
  intro z z' d d' below below' at_z at_z' plan _
  exact mirrors_of_accomplished accomplished accomplished' below below' at_z at_z' plan

theorem overlooks_of_accomplished (lenient : k.settings.strict = false) :
    Overlooks e e' (k.place workflow.steps) x x' c c' := by
  have ends := accomplished x c .self at_x
  have ends' := accomplished' x' c' .self at_x'
  have due' : k.due c'.execution = (k.due c.execution).condense (k.place workflow.steps) := by
    rw [due_of_root origin, due_of_root origin']
    exact Conduct.outcome_skipping lenient
  have same : c'.execution.state = c.execution.state := by
    rw [ends'.state, ends.state, due']
    rfl
  refine ⟨?_, same, ?_, ?_, ?_, ?_⟩
  · rw [ends'.status, ends.status, due']
    simp [Walked.status, Walked.condense, Option.map_map, Function.comp_def]
  · rw [ends'.history, ends.history, due']
    rfl
  · rw [ends'.error, ends.error, due']
    simp [Walked.error, Walked.condense, Option.map_map, Function.comp_def]
  · have steps : (k.bare workflow).steps = workflow.steps.filter k.knows := by simp [Conduct.bare, lenient]
    have calls := Conduct.callsFrom_filter lenient [] workflow.steps state
    rw [ends'.calls, ends.calls, callsDue_of_root origin, callsDue_of_root origin', steps]
    split
    · rfl
    · exact calls
  · refine mirrors_of_root accomplished accomplished' at_x at_x' origin origin' same ?_
    rw [due']
    simp [Walked.spawned, Walked.condense]

theorem repeats_of_accomplished (strict : k.settings.strict = true)
    (ended : c'.execution.status ≠ .completed ∨ ∀ step ∈ workflow.steps, k.knows step = true) :
    Repeats e e' x x' c c' := by
  have ends := accomplished x c .self at_x
  have ends' := accomplished' x' c' .self at_x'
  have due' : k.due c'.execution = k.due c.execution ∧ k.callsDue c'.execution = k.callsDue c.execution := by
    -- with an unknown step the bare workflow is what stands before it, and the walk breaks off there or earlier
    rcases Conduct.bare_eq_or strict workflow with same | ⟨step, rest, unknown, split⟩
    · rw [same] at origin'
      have planned : c.execution.plan = (Execution.root now workflow state).plan := Execution.plan_of_origin origin
      have planned' : c'.execution.plan = (Execution.root now' workflow state).plan := Execution.plan_of_origin origin'
      have plan : c'.execution.plan = c.execution.plan := planned'.trans planned.symm
      exact ⟨Conduct.due_of_plan plan, Conduct.callsDue_of_plan plan⟩
    · have status := ended.resolve_right fun known => by
        have mem : step ∈ workflow.steps := by simp [split]
        exact Bool.false_ne_true (unknown.symm.trans (known step mem))
      have root : (k.bare workflow).rootName = workflow.rootName := rfl
      rw [ends'.status, due_of_root origin', root] at status
      rw [due_of_root origin, due_of_root origin', callsDue_of_root origin, callsDue_of_root origin', root,
        Conduct.outcome_refusing strict unknown split]
      constructor
      · dsimp only
        cases ending : (k.outcome (k.bare workflow) [workflow.rootName] 0 state).ending with
        | none => simp [Walked.status, ending] at status
        | some ending => rfl
      · rw [split, Conduct.callsFrom_append_unknown strict unknown]
  have same : c'.execution.state = c.execution.state := by rw [ends'.state, ends.state, due'.1]
  refine ⟨?_, same, ?_, ?_, ?_, ?_⟩
  · rw [ends'.status, ends.status, due'.1]
  · rw [ends'.history, ends.history, due'.1]
  · rw [ends'.error, ends.error, due'.1]
  · rw [ends'.calls, ends.calls, due'.2]
  · exact mirrors_of_root accomplished accomplished' at_x at_x' origin origin' same (by rw [due'.1])

theorem breaksOff_of_accomplished (strict : k.settings.strict = true) (completed : c'.execution.status = .completed)
    {step : Step} (at_step : workflow.steps[(k.bare workflow).steps.length]? = some step) :
    BreaksOff e e' x x' c c' (k.bare workflow).steps.length step := by
  have ends := accomplished x c .self at_x
  have ends' := accomplished' x' c' .self at_x'
  have path : c.execution.path = [workflow.rootName] := congrArg Execution.path origin
  have root : (k.bare workflow).rootName = workflow.rootName := rfl
  rcases Conduct.bare_eq_or strict workflow with same | ⟨first, rest, unknown, split⟩
  · rw [same] at at_step
    simp at at_step
  · obtain rfl : first = step := by
      rw [split] at at_step
      simpa using at_step
    have brood := ends.brood
    have due := due_of_root (k := k) origin
    have due' := due_of_root (k := k) origin'
    rw [root] at due'
    rw [Conduct.outcome_refusing strict unknown split, ← due'] at due
    simp only [ends'.through completed] at due
    refine ⟨?_, ?_, ?_, ?_, ?_, ?_⟩
    · rw [ends.status, due]
      rfl
    · rw [ends.state, due, ends'.state]
    · rw [ends.history, due, ends'.history]
    · rw [ends.error, due, path]
      rfl
    · rw [ends.calls, ends'.calls, callsDue_of_root origin, callsDue_of_root origin', split,
        Conduct.callsFrom_append_unknown strict unknown]
    · rw [due] at brood
      exact List.forall₂_nil_right_iff.mp brood

end Pair

/-- What unknown steps come to where they are refused, by what the steps before the first of them (number `x'`) come to. -/
structure Stops (k : Conduct) (workflow : Workflow) (e e' : Engine) (x x' : Nat) (c c' : Course) : Prop where
  /-- If those do not complete, or if there are no others, the workflow ends as they do. -/
  repeats : c'.execution.status ≠ .completed ∨ (∀ step ∈ workflow.steps, k.knows step = true) → Repeats e e' x x' c c'
  breaks : c'.execution.status = .completed → ∀ step, workflow.steps[(k.bare workflow).steps.length]? = some step →
    BreaksOff e e' x x' c c' (k.bare workflow).steps.length step
  completes : 0 ≤ k.settings.maxDepth → c'.execution.status ≠ .canceled →
    (∀ r ∈ c'.execution.history, r.status ≠ .failed) → c'.execution.status = .completed

/-- **Unknown steps** act as if they were not there.  A workflow is run, and so is, in another engine that goes by the same,
what it is left with without them; nobody disturbs the runs, but their tasks take as long as they like and nothing is said of
what else the engines do.  Then both workflows end.  Where unknown steps are skipped, they end alike: with the same calls in
the same order, in the same state and with the same children, and the records and the error tell the same under the numbers
that the steps have among the known ones.  Where they are refused, the first of them ends a workflow that comes so far. -/
theorem unknown_steps (answers : k.Answers) (run : Tranquil k workflow state e a acts)
    (bare_run : Tranquil k (k.bare workflow) state e' a' acts') :
    ∃ m, ∀ n n', m ≤ n → m ≤ n' → ∃ c c',
      ((e.act a).after acts n).courses[e.courses.length]? = some c ∧
      ((e'.act a').after acts' n').courses[e'.courses.length]? = some c' ∧
      c.execution.isFinished = true ∧ c'.execution.isFinished = true ∧
      (k.settings.strict = false → Overlooks ((e.act a).after acts n) ((e'.act a').after acts' n')
        (k.place workflow.steps) e.courses.length e'.courses.length c c') ∧
      (k.settings.strict = true → Stops k workflow ((e.act a).after acts n) ((e'.act a').after acts' n')
        e.courses.length e'.courses.length c c') := by
  -- both runs come to an end whose outcome the interpreter tells
  obtain ⟨m, ends⟩ := run.accomplished answers
  obtain ⟨m', ends'⟩ := bare_run.accomplished answers
  refine ⟨max m m', fun n n' le le' => ?_⟩
  obtain ⟨⟨c, at_x, origin⟩, accomplished⟩ := ends n (by omega)
  obtain ⟨⟨c', at_x', origin'⟩, accomplished'⟩ := ends' n' (by omega)
  refine ⟨c, c', at_x, at_x', (accomplished _ c .self at_x).finished, (accomplished' _ c' .self at_x').finished, ?_, ?_⟩
  · exact overlooks_of_accomplished accomplished accomplished' at_x at_x' origin origin'
  · intro strict
    have depth : c'.execution.depth = 0 := congrArg Execution.depth origin'
    exact ⟨repeats_of_accomplished accomplished accomplished' at_x at_x' origin origin' strict,
      fun completed step => breaksOff_of_accomplished accomplished accomplished' at_x at_x' origin origin' strict completed,
      fun shallow => (accomplished' _ c' .self at_x').completed (by rw [depth]; exact Int.not_lt.mpr shallow)⟩

end Unknown

/-! ### A workflow with a step that nobody knows -/

section Witness

/-- An engine that knows one type of step, whose processing schedules a workflow without steps. -/
def curious (strict : Bool) (maxDepth : Int) : Engine :=
  let resolver : Resolver := ⟨"Plain", "explore", .propagate, false, fun _ _ => .answer none⟩
  fresh ⟨strict, maxDepth, 5⟩ (fun state _ _ => .ok ⟨state, [⟨[], .null, none, .empty, .empty⟩]⟩) none
    (Registry.empty.register "explore" ⟨0, resolver⟩)

/-- What the runs of that engine go by. -/
def curiosity (strict : Bool) (maxDepth : Int) : Conduct := (curious strict maxDepth).conduct fun _ _ => .ok none

/-- A workflow of three steps, the second of which nobody knows. -/
def puzzle : Workflow :=
  ⟨[⟨"explore", .null, .empty, by decide⟩, ⟨"wonder", .null, .empty, by decide⟩, ⟨"explore", .null, .empty, by decide⟩],
    .text "puzzle", none, .empty, .empty⟩

/-- The run of a workflow that is started on that engine. -/
def curiousRun (strict : Bool) (maxDepth : Int) (workflow : Workflow) (n : Nat) : Engine :=
  ((curious strict maxDepth).act (.host (.start workflow .null))).after (fun _ => .turn 0) n

theorem curiousRun_tranquil (strict : Bool) (maxDepth : Int) (workflow : Workflow)
    (ends : (curiousRun strict maxDepth workflow 40).isQuiet = true ∧ ∀ n ≤ 40,
      (curiousRun strict maxDepth workflow n).waits = [] ∧ (curiousRun strict maxDepth workflow n).WellNamed ∧
      (curiousRun strict maxDepth workflow n).callers = [] ∧ (curiousRun strict maxDepth workflow n).closers = []) :
    Tranquil (curiosity strict maxDepth) workflow .empty (curious strict maxDepth) (.host (.start workflow .null))
      (fun _ => .turn 0) := by
  obtain ⟨quiet, always⟩ := ends
  refine ⟨Reaches.of_fresh .refl, fresh_calm _ _ _, rfl, .start rfl rfl, trivial, ?_, ?_, ?_⟩
  · exact fair_of_quiet quiet (fun _ => rfl) (fun _ _ => rfl) fun n le w mem => by
      have none := (always n le).1
      unfold curiousRun at none
      rw [none] at mem
      cases mem
  · exact forall_after_of_quiet (P := WellNamed) quiet (fun _ _ => rfl) fun n le => (always n le).2.1
  · intro n
    have unwatched := forall_after_of_quiet (P := fun e => e.callers = [] ∧ e.closers = []) quiet (fun _ _ => rfl)
      (fun n le => (always n le).2.2) n
    refine ⟨id, fun y _ disturbed => ?_⟩
    cases disturbed with
    | abandoned _ at_k => simp [unwatched.1] at at_k
    | timedOut _ life => simp [unwatched.2] at life

theorem curiosity_answers (strict : Bool) (maxDepth : Int) : (curiosity strict maxDepth).Answers := by
  intro stepType handler bound _ n payload
  simp only [curiosity, conduct, curious, fresh, Registry.find?, Registry.register, Registry.empty,
    Fields.get?_insert] at bound
  split at bound
  · cases bound
    rfl
  · cases bound

theorem curiousRun_unknown :
    (curiousRun false 3 puzzle 40).courses.map (·.execution.status) = [.completed, .completed, .completed] ∧
    (curiousRun true 3 puzzle 40).courses.map (·.execution.status) = [.failed] ∧
    (∃ m, ∀ n n', m ≤ n → m ≤ n' → ∃ c c', (curiousRun false 3 puzzle n).courses[0]? = some c ∧
      (curiousRun false 3 ((curiosity false 3).bare puzzle) n').courses[0]? = some c' ∧
      Overlooks (curiousRun false 3 puzzle n) (curiousRun false 3 ((curiosity false 3).bare puzzle) n')
        ((curiosity false 3).place puzzle.steps) 0 0 c c') ∧
    ∃ m, ∀ n n', m ≤ n → m ≤ n' → ∃ c c', (curiousRun true 3 puzzle n).courses[0]? = some c ∧
      (curiousRun true 3 ((curiosity true 3).bare puzzle) n').courses[0]? = some c' ∧
      Stops (curiosity true 3) puzzle (curiousRun true 3 puzzle n)
        (curiousRun true 3 ((curiosity true 3).bare puzzle) n') 0 0 c c' := by
  refine ⟨by decide +kernel, by decide +kernel, ?_, ?_⟩
  · have run := curiousRun_tranquil false 3 puzzle (by decide +kernel)
    have bare_run := curiousRun_tranquil false 3 ((curiosity false 3).bare puzzle) (by decide +kernel)
    obtain ⟨m, both⟩ := unknown_steps (curiosity_answers false 3) run bare_run
    refine ⟨m, fun n n' le le' => ?_⟩
    obtain ⟨c, c', at_x, at_x', -, -, overlooks, -⟩ := both n n' le le'
    exact ⟨c, c', at_x, at_x', overlooks rfl⟩
  · have run := curiousRun_tranquil true 3 puzzle (by decide +kernel)
    have bare_run := curiousRun_tranquil true 3 ((curiosity true 3).bare puzzle) (by decide +kernel)
    obtain ⟨m, both⟩ := unknown_steps (curiosity_answers true 3) run bare_run
    refine ⟨m, fun n n' le le' => ?_⟩
    obtain ⟨c, c', at_x, at_x', -, -, -, stops⟩ := both n n' le le'
    exact ⟨c, c', at_x, at_x', stops rfl⟩

/-- A workflow of one step, which nobody knows. -/
def riddle : Workflow := ⟨[⟨"wonder", .null, .empty, by decide⟩], .text "riddle", none, .empty, .empty⟩

/-- Where every workflow lies too deep, no step of the empty one before the unknown step fails, but it is not the unknown
step that ends the workflow. -/
theorem curiousRun_tooDeep : ((curiosity true (-1)).bare riddle).steps = [] ∧
    ∃ c c', (curiousRun true (-1) riddle 40).courses[0]? = some c ∧
      (curiousRun true (-1) ((curiosity true (-1)).bare riddle) 40).courses[0]? = some c' ∧
      c.execution.isFinished = true ∧ c'.execution.isFinished = true ∧ c'.execution.history = [] ∧
      c.execution.error = some (Execution.depthError (-1) ["riddle"]) ∧
      ∀ index step, ¬ BreaksOff (curiousRun true (-1) riddle 40)
        (curiousRun true (-1) ((curiosity true (-1)).bare riddle) 40) 0 0 c c' index step := by
  refine ⟨by rfl, _, _, by rfl, by rfl, by decide +kernel, by decide +kernel, by rfl, by rfl, ?_⟩
  intro index step breaks
  exact List.append_ne_nil_of_right_ne_nil _ (List.cons_ne_nil _ _) breaks.history.symm

end Witness

end Engine

end Stepflow
