import Stepflow.Proofs.Engine.Broods

/-!
# Stepflow.Proofs.Engine.Interpreter — workflows run one after another

* `Conduct`: what a run goes by: the settings, the processing, the bindings and what the resolvers answer.
* `Conduct.walk`: the steps of a workflow in order, each through its resolver and the processing.
* `Conduct.interpret`: a workflow and, once its steps are done, the workflows that it scheduled, each after the other and
  as deep as the settings allow.  There are no tasks, no times and no queue here.
* `Engine.Shows`: the tree of executions that an engine holds below one of them.
-/

namespace Stepflow

/-- What a run of workflows goes by.  `answer` has what the resolver of a step type answers to a payload, or raises. -/
structure Conduct where
  settings : Settings
  process : State → Step → Option Value → Except Raised Transition
  registry : Registry Handler
  answer : String → Value → Except Raised (Option Value)

/-- What comes of a step before the processing. -/
inductive Resolved where
  /-- The output that goes to the processing, and what is recorded if it succeeds. -/
  | given (output : Option Value) (status : StepStatus) (error : Option String)
  | skipped (error : String)
  | failed (message : String) (cause : Failure)
  | canceled

/-- What comes of the steps of a workflow: the state, the records, what is scheduled and, if a step ended the workflow,
its status and its error. -/
structure Walked where
  state : State
  history : List StepRecord
  scheduled : List Workflow
  ending : Option (Status × Failure)

/-- The texts of a path. -/
def pathNames (path : List Datum) : List String :=
  path.filterMap fun
    | .text s => some s
    | _ => none

/-- A tree of executions: what is told of each, and below it those that it spawned. -/
inductive Tree where
  | node (path : List Datum) (depth : Nat) (status : Status) (state : State) (history : List StepRecord)
      (error : Option Failure) (children : List Tree)

namespace Conduct

/-- A step through its resolver. -/
def resolve (k : Conduct) (step : Step) : Resolved :=
  match k.registry.find? step.stepType with
  | none =>
    if k.settings.strict then .failed "unknown step type" (.unknownStepType step.stepType)
    else .skipped (Failure.unknownStepType step.stepType).message
  | some handler =>
    if handler.resolver.detached then .given none .dispatched none
    else
      match k.answer step.stepType step.payload with
      | .ok output => .given output .succeeded none
      | .error .canceled => .canceled
      | .error (.failure f) =>
        match handler.resolver.policy with
        | .propagate => .failed "step resolution failed" f
        | .swallow => .given none .recovered (some f.message)

/-- The steps from `index` on, in order. -/
def walk (k : Conduct) (names : List String) : Nat → List Step → State → List StepRecord → List Workflow → Walked
  | _, [], state, history, scheduled => ⟨state, history, scheduled, none⟩
  | index, step :: rest, state, history, scheduled =>
    let failed (message : String) (cause : Failure) : Walked :=
      ⟨state, history ++ [⟨index, step.stepType, .failed, some cause.message⟩], scheduled,
        some (.failed, Execution.errorAt names index step message cause)⟩
    let canceled : Walked := ⟨state, history, scheduled,
      some (.canceled, .execution true ("canceled: " ++ Engine.callerReason) names (some (index : Int)) none none)⟩
    match k.resolve step with
    | .skipped error =>
      k.walk names (index + 1) rest state (history ++ [⟨index, step.stepType, .skipped, some error⟩]) scheduled
    | .failed message cause => failed message cause
    | .canceled => canceled
    | .given output status error =>
      match k.process state step output with
      | .error (.failure f) => failed "state processing failed" f
      | .error .canceled => canceled
      | .ok transition =>
        k.walk names (index + 1) rest transition.newState (history ++ [⟨index, step.stepType, status, error⟩])
          (scheduled ++ transition.workflows)

/-- The steps of a workflow at a depth, unless it lies too deep. -/
def outcome (k : Conduct) (workflow : Workflow) (path : List Datum) (depth : Nat) (initial : State) : Walked :=
  if k.settings.maxDepth < depth then
    ⟨initial, [], [], some (.failed, Execution.depthError k.settings.maxDepth (pathNames path))⟩
  else k.walk (pathNames path) 0 workflow.steps initial [] []

theorem shallow_of_outcome {k : Conduct} {workflow : Workflow} {path : List Datum} {depth : Nat} {initial : State}
    (h : (k.outcome workflow path depth initial).ending = none) : ¬ k.settings.maxDepth < depth := by
  intro deep
  simp [outcome, deep] at h

/-- A workflow and all that comes of it, one after the other. -/
def interpret (k : Conduct) (workflow : Workflow) (path : List Datum) (depth : Nat) (initial : State) : Tree :=
  let walked := k.outcome workflow path depth initial
  match h : walked.ending with
  | some (status, error) => .node path depth status walked.state walked.history (some error) []
  | none => .node path depth .completed walked.state walked.history none
      ((wanted walked.scheduled walked.state).map fun p =>
        k.interpret p.1 (path ++ [p.1.childName p.2]) (depth + 1) walked.state)
termination_by (k.settings.maxDepth + 1 - depth).toNat
decreasing_by
  have shallow := shallow_of_outcome h
  omega

section Interpret

variable {k : Conduct} {workflow : Workflow} {path : List Datum} {depth : Nat} {initial : State}

/-- A workflow that a step or its depth ends spawns nothing. -/
theorem interpret_ended {state : State} {history : List StepRecord} {scheduled : List Workflow} {status : Status}
    {error : Failure} (h : k.outcome workflow path depth initial = ⟨state, history, scheduled, some (status, error)⟩) :
    k.interpret workflow path depth initial = .node path depth status state history (some error) [] := by
  rw [interpret]
  split
  · simp_all
  · simp_all

/-- A workflow that comes through its steps spawns what is wanted of its schedule. -/
theorem interpret_through {state : State} {history : List StepRecord} {scheduled : List Workflow}
    (h : k.outcome workflow path depth initial = ⟨state, history, scheduled, none⟩) :
    k.interpret workflow path depth initial = .node path depth .completed state history none
      ((wanted scheduled state).map fun p => k.interpret p.1 (path ++ [p.1.childName p.2]) (depth + 1) state) := by
  rw [interpret]
  split
  · simp_all
  · simp_all

end Interpret

end Conduct

namespace Engine

/-- The tree of executions below number `x`, as an engine holds it. -/
inductive Shows (e : Engine) : Nat → Tree → Prop
  | node {x : Nat} {c : Course} {children : List Tree} (at_x : e.courses[x]? = some c)
      (below : List.Forall₂ (Shows e) c.execution.children children) :
      Shows e x (.node c.execution.path c.execution.depth c.execution.status c.execution.state c.execution.history
        c.execution.error children)

/-- An execution shows one tree. -/
theorem Shows.unique {e : Engine} {x : Nat} {t t' : Tree} (h : e.Shows x t) (h' : e.Shows x t') : t = t' := by
  -- the lists of children are read together with the executions
  refine @Shows.rec e (fun x t _ => ∀ t', e.Shows x t' → t = t')
    (fun xs ts _ => ∀ ts', List.Forall₂ e.Shows xs ts' → ts = ts') ?_ ?_ ?_ x t h t' h'
  · intro x c children at_x _ same t' h'
    cases h' with
    | @node _ d children' at_x' below' =>
      obtain rfl : c = d := Option.some.inj (at_x.symm.trans at_x')
      rw [same children' below']
  · intro ts' below'
    cases below'
    rfl
  · intro x t xs ts _ _ head tail ts' below'
    cases below' with
    | cons first others => rw [head _ first, tail _ others]

end Engine

end Stepflow
