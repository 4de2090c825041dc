import Stepflow.Proofs.Engine.Advance

/-!
# Stepflow.Proofs.Engine.Working — relations that the parts of a move keep

Whatever the event bus does and whatever the names are, a move of the task of an execution, or of a detached call for one of
its steps, is made of a few small changes: it tells the log and the journal, announces, notes calls, changes that execution,
queues a detached call and has a child accepted.  A relation between engines that each of these keeps (`Working`) is kept by
the whole move (`Working.moveCourse`, `Working.moveDelivery`).
-/

namespace Stepflow

/-- What was fixed of an execution when it was accepted. -/
def Execution.origin (x : Execution) : Execution :=
  .idle x.startedAt x.workflow x.path x.parent x.depth x.initialState

section Origin

variable {a b : Execution}

theorem Execution.workflow_eq (h : a.origin = b.origin) : a.workflow = b.workflow := by
  have := congrArg Execution.workflow h
  exact this

theorem Execution.path_eq (h : a.origin = b.origin) : a.path = b.path := by
  have := congrArg Execution.path h
  exact this

theorem Execution.depth_eq (h : a.origin = b.origin) : a.depth = b.depth := by
  have := congrArg Execution.depth h
  exact this

theorem Execution.parent_eq (h : a.origin = b.origin) : a.parent = b.parent := by
  have := congrArg Execution.parent h
  exact this

theorem Execution.initialState_eq (h : a.origin = b.origin) : a.initialState = b.initialState := by
  have := congrArg Execution.initialState h
  exact this

end Origin

namespace Engine

/-- A relation that is kept by what a move for execution number `x` is made of. -/
structure Working (x : Nat) (R : Engine → Engine → Prop) : Prop where
  refl : ∀ e, R e e
  trans : ∀ {e e' e'' : Engine}, R e e' → R e' e'' → R e e''
  report : ∀ e level message, R e (e.report level message)
  take : ∀ e r, R e (e.take r)
  announce : ∀ e event, R e (e.announce event).1
  note : ∀ e n, n.execution = x → R e (e.note n)
  update : ∀ e (f : Course → Course), (∀ c, (f c).execution.origin = c.execution.origin) → R e (e.updateCourse x f)
  queue : ∀ e d, d.execution = x →
    R e { e with deliveries := e.deliveries ++ [d], ready := e.ready ++ [.delivery e.deliveries.length] }
  submit : ∀ e c workflow position, e.courses[x]? = some c → R e (e.submit (c.execution.child e.clock x workflow position))

namespace Working

variable {x : Nat} {R : Engine → Engine → Prop} (h : Working x R) (e : Engine) (execution : Execution)

include h

/-! ## Ends and calls -/

theorem change {f : Execution → Execution} (hf : ∀ a, (f a).origin = a.origin) : R e (e.update x f) :=
  h.update e _ fun c => hf c.execution

theorem fail (error : Failure) : R e (e.fail x execution error).1 := by
  refine h.trans (h.trans ?_ (h.report _ _ _)) (h.announce _ _)
  exact h.change e fun _ => rfl

theorem failStep (index : Nat) (step : Step) (message : String) (cause : Failure) :
    R e (e.failStep x execution index step message cause).1 := by
  have recorded : R e (e.update x (·.record e.clock index step .failed (some cause.message))) := h.change e fun _ => rfl
  unfold Engine.failStep
  dsimp only
  split
  · exact h.trans recorded (h.fail _ _ _)
  · exact recorded

theorem markCanceled (reason : String) : R e (e.markCanceled x execution reason).1 := by
  have marked : R e (e.update x ({ · with status := .canceled })) := h.change e fun _ => rfl
  unfold Engine.markCanceled
  dsimp only
  split
  · refine h.trans (h.trans (h.trans marked ?_) (h.report _ _ _)) (h.announce _ _)
    exact h.change _ fun _ => rfl
  · exact marked
  · exact marked

theorem recover (index : Nat) (stepType : String) (f : Failure) : R e (e.recover x execution index stepType f).1 := by
  unfold Engine.recover
  split
  · exact h.refl e
  · exact h.trans (h.report _ _ _) (h.announce _ _)

theorem play (index slot : Nat) (script : Script) : R e (e.play x index slot script).1 := by
  cases script with
  | answer output => exact h.note e _ rfl
  | raise r => exact h.note e _ rfl
  | remark r next => exact h.take e r
  | sleep seconds next canceled => exact h.refl e
  | gate next canceled =>
    dsimp only [Engine.play]
    split <;> exact h.refl e

/-! ## Moves of executions -/

theorem begin : R e (e.begin x execution).1 := by
  refine h.trans ?_ (h.announce _ _)
  exact h.change e fun _ => rfl

theorem checkDepth : R e (e.checkDepth x execution).1 := by
  unfold Engine.checkDepth
  split
  · split
    · exact h.fail _ _ _
    · exact h.refl e
  · exact h.refl e

theorem meetUnknown (index : Nat) (step : Step) : R e (e.meetUnknown x execution index step).1 := by
  unfold Engine.meetUnknown
  dsimp only
  split
  · exact h.failStep _ _ _ _ _ _
  · split
    · exact h.refl e
    · refine h.trans (h.trans (h.report e _ _) (h.change _ ?_)) (h.announce _ _)
      exact fun _ => rfl

theorem meet (index : Nat) : R e (e.meet x execution index).1 := by
  have turned : R e (e.update x (·.turnTo e.clock index)) := h.change e fun _ => rfl
  unfold Engine.meet
  split
  · exact h.refl e
  · dsimp only
    split
    · exact h.trans turned (h.meetUnknown _ _ _ _)
    · split
      · exact h.trans turned (h.queue _ _ rfl)
      · exact h.trans turned (h.note _ _ rfl)

theorem concludeCall (index : Nat) (step : Step) (policy : Policy) (result : Except Raised (Option Value)) :
    R e (e.concludeCall x execution index step policy result).1 := by
  cases result with
  | ok output => exact h.refl e
  | error r =>
    cases r with
    | canceled => exact h.refl e
    | failure f =>
      have recovered := h.recover e execution index step.stepType f
      cases policy with
      | propagate => exact h.failStep _ _ _ _ _ _
      | swallow =>
        dsimp only [Engine.concludeCall]
        split <;> rename_i eq <;> rw [eq] at recovered
        · exact h.trans recovered (h.failStep _ _ _ _ _ _)
        · exact h.trans recovered (h.failStep _ _ _ _ _ _)
        · exact recovered

theorem attend (index : Nat) (step : Step) (handler : Handler) (script : Script) :
    R e (e.attend x execution index step handler script).1 := by
  have played := h.play e index handler.slot script
  unfold Engine.attend
  split <;> rename_i eq <;> rw [eq] at played
  · exact played
  · exact played
  · exact played
  · exact h.trans played (h.concludeCall _ _ _ _ _ _)

theorem adopt (index : Nat) (step : Step) (output : Option Value) (status : StepStatus) (error : Option String) :
    R e (e.adopt x execution index step output status error).1 := by
  unfold Engine.adopt
  split
  · exact h.refl e
  · split
    · exact h.refl e
    · exact h.failStep _ _ _ _ _ _
    · exact h.update e _ fun _ => rfl

theorem finish (scheduled : List Workflow) : R e (e.finish x scheduled).1 := by
  have turned : R e (e.update x ({ · with currentStep := none })) := h.change e fun _ => rfl
  unfold Engine.finish
  dsimp only
  split
  · exact turned
  · refine h.trans (h.trans turned ?_) (h.announce _ _)
    exact h.change _ fun _ => rfl

theorem spawn {c : Course} (at_x : e.courses[x]? = some c) (position : Nat) (workflow : Workflow)
    (rest : List Workflow) : R e (e.spawn x c.execution position workflow rest).1 := by
  unfold Engine.spawn
  dsimp only
  split
  · refine h.trans (h.submit e c workflow position at_x) ?_
    exact h.update _ _ fun _ => rfl
  · split
    · exact h.refl e
    · exact h.trans (h.report _ _ _) (h.announce _ _)

theorem complete : R e (e.complete x execution).1 := by
  have completed : R e (e.update x (·.complete e.clock)) := h.change e fun _ => rfl
  unfold Engine.complete
  dsimp only
  split
  · exact completed
  · exact h.trans (h.trans completed (h.report _ _ _)) (h.announce _ _)

theorem acknowledge : R e (e.acknowledge x execution).1 := by
  unfold Engine.acknowledge
  dsimp only
  split
  · exact h.refl e
  · split <;> rename_i marked <;> exact (congrArg Prod.fst marked) ▸ h.markCanceled e execution _

theorem withStep (index : Nat) {f : Step → Engine × Move Stage} (hf : ∀ step, R e (f step).1) :
    R e (e.withStep execution index f).1 := by
  unfold Engine.withStep
  split
  · exact hf _
  · exact h.refl e

/-- **A move of the task of an execution** keeps to what its parts keep. -/
theorem moveCourse {c : Course} (at_x : e.courses[x]? = some c) (stage : Stage) : R e (e.moveCourse x c stage).1 := by
  cases stage with
  | opening => exact h.begin e _
  | admitted => exact h.checkDepth e _
  | reaching index => exact h.meet e _ index
  | calling index handler script =>
    exact h.withStep e _ index fun step => h.attend e _ index step handler script
  | handled index output status error =>
    exact h.withStep e _ index fun step => h.adopt e _ index step output status error
  | finishing => exact h.finish e _
  | spawning position rest =>
    cases rest with
    | nil => exact h.refl e
    | cons workflow rest => exact h.spawn e at_x position workflow rest
  | completing => exact h.complete e _
  | canceling => exact h.acknowledge e _
  | unrecovered index event => exact h.withStep e _ index fun step => h.failStep e _ index step _ _
  | holding | closing | leaving | refusing => exact h.refl e

/-- **A move of a detached call** does so too. -/
theorem moveDelivery {d : Delivery} (for_x : d.execution = x) (stage : DeliveryStage) :
    R e (e.moveDelivery d execution stage).1 := by
  subst for_x
  cases stage with
  | entering => exact h.note e _ rfl
  | calling script =>
    have played := h.play e d.index d.handler.slot script
    dsimp only [Engine.moveDelivery]
    split <;> rename_i eq <;> rw [eq] at played
    · exact played
    · exact played
    · exact played
    · rename_i e' result
      refine h.trans played ?_
      cases result with
      | ok output => exact h.refl e'
      | error r =>
        cases r with
        | canceled => exact h.refl e'
        | failure f =>
          have recovered := h.recover e' execution d.index d.step.stepType f
          dsimp only [concludeDelivery]
          split
          · split <;> rename_i eq' <;> rw [eq'] at recovered <;> exact recovered
          · split
            · exact h.refl e'
            · exact h.report _ _ _
  | holding | closing | refusing => exact h.refl e

end Working

end Engine

end Stepflow
