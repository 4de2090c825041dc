import Stepflow.Proofs.Engine.Easing

/-!
# Stepflow.Proofs.Engine.Recovering — moves of executions whose resolvers return nothing instead of raising

* `EasedMove`: what comes of a move of the task of an execution in two engines that are the same but for some recoveries.
* `Eased.fail`, `Eased.meet`, `Eased.concludeCall`, `Eased.adopt` and so on: the parts of a move.  `Eased.attend`: a call
  that raised in the first engine and returns nothing in the second is one more recovery.
* `Eased.moveCourse`: a move of the task of an execution leaves the engines the same but for some recoveries.
-/

namespace Stepflow

/-! ## Moves of executions -/

namespace Engine

/-- What comes of a move of the task of execution number `x` in the two engines. -/
structure EasedMove (recoveries : List Recovery) (x : Nat) (r r' : Engine × Move Stage) : Prop where
  engines : Eased recoveries r.1 r'.1
  moves : r.2.Eases (Stage.Eases (textAt recoveries x)) r'.2

/-- No recovery is added. -/
theorem EasedMove.noMore {recoveries : List Recovery} {x : Nat} {r r' : Engine × Move Stage}
    (h : EasedMove recoveries x r r') : ∃ more, EasedMove (recoveries ++ more) x r r' :=
  ⟨[], by rw [List.append_nil]; exact h⟩

namespace Eased

variable {recoveries : List Recovery} {e e' : Engine} {x index : Nat} {a : Execution} {step : Step}

theorem bus_eq (h : Eased recoveries e e') : e'.bus = e.bus := (congrArg Engine.bus h.rest).trans rfl

theorem settings_eq (h : Eased recoveries e e') : e'.settings = e.settings := (congrArg Engine.settings h.rest).trans rfl

theorem process_eq (h : Eased recoveries e e') : e'.process = e.process := (congrArg Engine.process h.rest).trans rfl

theorem registered (h : Eased recoveries e e') : e.registry.Eases e'.registry := by
  cases h with
  | mk registered => exact registered

/-- The processor is kept at a stage that tells of no recovery. -/
theorem go (h : Eased recoveries e e') {stage : Stage}
    (plain : ∀ index output error, stage = .handled index output .recovered error → textAt recoveries x index = none) :
    EasedMove recoveries x (e, .go stage) (e', .go stage) :=
  ⟨h, .go (.same plain)⟩

theorem stop (h : Eased recoveries e e') (ending : Ending) : EasedMove recoveries x (e, .stop ending) (e', .stop ending) :=
  ⟨h, .stop ending⟩

/-- An event is announced, and the task goes on as the bus takes it. -/
theorem tell (h : Eased recoveries e e') (event : Lifecycle) {next refused : Stage}
    (plain : ∀ index output error, next = .handled index output .recovered error → textAt recoveries x index = none)
    (plain' : ∀ index output error, refused ≠ .handled index output .recovered error) :
    EasedMove recoveries x ((e.announce event).1, (e.announce event).2.move event next refused)
      ((e'.announce event).1, (e'.announce event).2.move event next refused) := by
  obtain ⟨engines, same⟩ := h.announce event
  refine ⟨engines, ?_⟩
  dsimp only
  rw [same]
  cases (e.announce event).2 with
  | accept => exact .go (.same plain)
  | hold => exact .wait _ (.same plain)
  | holdReject => exact .wait _ (.same fun _ _ _ eq => absurd eq (plain' _ _ _))
  | reject => exact .stop _

theorem fail (h : Eased recoveries e e') (a : Execution) (error : Failure) :
    EasedMove recoveries x (e.fail x a error) (e'.fail x (a.ease (textAt recoveries x)) error) := by
  have ended := h.update (x := x) (f := (·.endWith e.clock .failed error)) fun _ => rfl
  unfold Engine.fail
  rw [h.clock_eq]
  exact (ended.report .error error.message).tell _ (fun _ _ _ eq => by cases eq) (fun _ _ _ eq => by cases eq)

/-- The record of a step that was not recovered is the same in both engines. -/
theorem record (h : Eased recoveries e e') (index : Nat) (step : Step) (status : StepStatus) (error : Option String)
    (unrecovered : status ≠ .recovered) :
    Eased recoveries (e.update x (·.record e.clock index step status error))
      (e'.update x (·.record e'.clock index step status error)) := by
  rw [h.clock_eq]
  exact h.update fun a => by simp [Execution.record, Execution.ease, StepRecord.ease, unrecovered]

theorem failStep (h : Eased recoveries e e') (a : Execution) (index : Nat) (step : Step) (message : String)
    (cause : Failure) : EasedMove recoveries x (e.failStep x a index step message cause)
      (e'.failStep x (a.ease (textAt recoveries x)) index step message cause) := by
  have recorded := h.record (x := x) index step .failed (some cause.message) (by decide)
  have same : (a.ease (textAt recoveries x)).failure false message (some index) (some step.stepType) (some cause) =
      a.failure false message (some index) (some step.stepType) (some cause) := rfl
  unfold Engine.failStep
  dsimp only
  rw [same]
  cases a.failure false message (some index) (some step.stepType) (some cause) with
  | ok error => exact recorded.fail a error
  | error f => exact recorded.stop _

theorem withStep (h : Eased recoveries e e') (a : Execution) (index : Nat) {f f' : Step → Engine × Move Stage}
    (both : ∀ step, a.workflow.steps[index]? = some step → EasedMove recoveries x (f step) (f' step)) :
    EasedMove recoveries x (e.withStep a index f) (e'.withStep (a.ease (textAt recoveries x)) index f') := by
  have same : (a.ease (textAt recoveries x)).workflow.steps[index]? = a.workflow.steps[index]? := rfl
  unfold Engine.withStep
  rw [same]
  cases at_step : a.workflow.steps[index]? with
  | some step => exact both step at_step
  | none => exact h.go fun _ _ _ eq => by cases eq

/-! ### Before and after the steps -/

theorem begin (h : Eased recoveries e e') (a : Execution) :
    EasedMove recoveries x (e.begin x a) (e'.begin x (a.ease (textAt recoveries x))) := by
  have running := h.update (x := x) (f := ({ · with status := .running })) fun _ => rfl
  exact running.tell _ (fun _ _ _ eq => by cases eq) (fun _ _ _ eq => by cases eq)

theorem checkDepth (h : Eased recoveries e e') (a : Execution) :
    EasedMove recoveries x (e.checkDepth x a) (e'.checkDepth x (a.ease (textAt recoveries x))) := by
  have same (message : String) : (a.ease (textAt recoveries x)).failure false message none none none =
      a.failure false message none none none := rfl
  have depth : (a.ease (textAt recoveries x)).depth = a.depth := rfl
  unfold Engine.checkDepth
  rw [h.settings_eq, depth]
  split
  · rw [same]
    cases a.failure false ("maximum spawn depth " ++ toString e.settings.maxDepth ++ " exceeded") none none none with
    | ok error => exact h.fail a error
    | error f => exact h.stop _
  · exact h.go fun _ _ _ eq => by cases eq

theorem finish (h : Eased recoveries e e') (scheduled : List Workflow) :
    EasedMove recoveries x (e.finish x scheduled) (e'.finish x scheduled) := by
  have turned := h.update (x := x) (f := ({ · with currentStep := none })) fun _ => rfl
  unfold Engine.finish
  cases scheduled with
  | nil => exact turned.go fun _ _ _ eq => by cases eq
  | cons workflow rest =>
    have spawning := turned.update (x := x) (f := ({ · with status := .spawning })) fun _ => rfl
    exact spawning.tell _ (fun _ _ _ eq => by cases eq) (fun _ _ _ eq => by cases eq)

theorem spawn (h : Eased recoveries e e') (a : Execution) (position : Nat) (workflow : Workflow) (rest : List Workflow) :
    EasedMove recoveries x (e.spawn x a position workflow rest)
      (e'.spawn x (a.ease (textAt recoveries x)) position workflow rest) := by
  have place : (a.ease (textAt recoveries x)).place = a.place := rfl
  have child : (a.ease (textAt recoveries x)).child e.clock x workflow position = a.child e.clock x workflow position :=
    rfl
  have state : (a.ease (textAt recoveries x)).state = a.state := rfl
  unfold Engine.spawn
  dsimp only
  rw [place, h.clock_eq, child, state, h.length_eq]
  split
  · have submitted := h.submit (a := a.child e.clock x workflow position) rfl
    have adopted := submitted.update (x := x)
      (f := fun p => { p with children := p.children ++ [e.courses.length] }) fun _ => rfl
    exact adopted.go fun _ _ _ eq => by cases eq
  · cases a.place with
    | error f => exact h.stop _
    | ok place => exact (h.report _ _).tell _ (fun _ _ _ eq => by cases eq) (fun _ _ _ eq => by cases eq)

theorem complete (h : Eased recoveries e e') (a : Execution) :
    EasedMove recoveries x (e.complete x a) (e'.complete x (a.ease (textAt recoveries x))) := by
  have completed := h.update (x := x) (f := (·.complete e.clock)) fun _ => rfl
  have place : (a.ease (textAt recoveries x)).place = a.place := rfl
  unfold Engine.complete
  dsimp only
  rw [place, h.clock_eq]
  cases a.place with
  | error f => exact completed.stop _
  | ok place => exact (completed.report _ _).tell _ (fun _ _ _ eq => by cases eq) (fun _ _ _ eq => by cases eq)

/-! ### Cancellations -/

/-- An execution is marked as canceled in both engines, and the bus takes the announcement alike. -/
theorem markCanceled (h : Eased recoveries e e') (a : Execution) (reason : String) :
    Eased recoveries (e.markCanceled x a reason).1 (e'.markCanceled x (a.ease (textAt recoveries x)) reason).1 ∧
      (e'.markCanceled x (a.ease (textAt recoveries x)) reason).2 = (e.markCanceled x a reason).2 := by
  have marked := h.update (x := x) (f := ({ · with status := .canceled })) fun _ => rfl
  have place : (a.ease (textAt recoveries x)).place = a.place := rfl
  have failure : (a.ease (textAt recoveries x)).failure true ("canceled: " ++ reason) a.currentStep none none =
      a.failure true ("canceled: " ++ reason) a.currentStep none none := rfl
  have current : (a.ease (textAt recoveries x)).currentStep = a.currentStep := rfl
  unfold Engine.markCanceled
  dsimp only
  rw [place, current, failure, marked.clock_eq]
  cases a.place with
  | error f => exact ⟨marked, rfl⟩
  | ok place =>
    cases a.failure true ("canceled: " ++ reason) a.currentStep none none with
    | error f => exact ⟨marked, rfl⟩
    | ok error =>
      have ended := marked.update (x := x) (f := (·.endWith e.clock .canceled error)) fun _ => rfl
      obtain ⟨engines, same⟩ := (ended.report .info ("Workflow " ++ place ++ " canceled: " ++ reason)).announce
        (.canceled x reason)
      exact ⟨engines, congrArg (fun reaction => Except.ok (Lifecycle.canceled x reason, reaction)) same⟩

theorem acknowledge (h : Eased recoveries e e') (a : Execution) :
    EasedMove recoveries x (e.acknowledge x a) (e'.acknowledge x (a.ease (textAt recoveries x))) := by
  have finished : (a.ease (textAt recoveries x)).isFinished = a.isFinished := rfl
  unfold Engine.acknowledge
  dsimp only
  rw [finished, h.reason_eq]
  split
  · exact h.go fun _ _ _ eq => by cases eq
  · generalize (if ((e.reason? x).getD callerReason).isEmpty then callerReason else (e.reason? x).getD callerReason) = given
    obtain ⟨engines, same⟩ := h.markCanceled (x := x) a given
    generalize e.markCanceled x a given = r, e'.markCanceled x (a.ease (textAt recoveries x)) given = r' at engines same
    obtain ⟨e₁, told⟩ := r
    obtain ⟨e₁', told'⟩ := r'
    dsimp only at engines same
    subst same
    rcases told' with f | ⟨event, reaction⟩
    · exact engines.stop _
    · refine ⟨engines, ?_⟩
      cases reaction with
      | accept => exact .go (.same fun _ _ _ eq => by cases eq)
      | hold | holdReject => exact .wait _ (.same fun _ _ _ eq => by cases eq)
      | reject => exact .stop _

/-! ### Steps -/

theorem meetUnknown (h : Eased recoveries e e') (a : Execution) (index : Nat) (step : Step) :
    EasedMove recoveries x (e.meetUnknown x a index step)
      (e'.meetUnknown x (a.ease (textAt recoveries x)) index step) := by
  have place : (a.ease (textAt recoveries x)).place = a.place := rfl
  unfold Engine.meetUnknown
  dsimp only
  rw [h.settings_eq, place]
  split
  · exact h.failStep a index step _ _
  · cases a.place with
    | error f => exact h.stop _
    | ok place =>
      have told := h.report .warning ("Skipping step " ++ place ++ "[" ++ toString index ++ "]: " ++
        (Failure.unknownStepType step.stepType).message)
      have recorded := told.record (x := x) index step .skipped (some (Failure.unknownStepType step.stepType).message)
        (by decide)
      exact recorded.tell _ (fun _ _ _ eq => by cases eq) (fun _ _ _ eq => by cases eq)

/-- A detached call is queued in both engines; its step is no recovery. -/
theorem dispatch (h : Eased recoveries e e') (unmarked : textAt recoveries x index = none) (step : Step)
    (handler : Handler) : EasedMove recoveries x (e.dispatch x index step handler) (e'.dispatch x index step handler) := by
  refine ⟨?_, .yield (.same fun _ _ _ eq => by cases eq)⟩
  cases h with
  | mk registered abreast noted attached announced logged =>
    refine .mk registered abreast noted (fun r mem d mem_d => ?_) announced logged
    rcases List.mem_append.mp mem_d with old | new
    · exact attached r mem d old
    · obtain rfl := List.mem_singleton.mp new
      rintro rfl rfl
      unfold textAt at unmarked
      rw [Option.map_eq_none_iff, List.find?_eq_none] at unmarked
      exact unmarked r mem (by simp)

theorem meet (h : Eased recoveries e e') (unmarked : textAt recoveries x index = none) (a : Execution) :
    EasedMove recoveries x (e.meet x a index) (e'.meet x (a.ease (textAt recoveries x)) index) := by
  have workflow : (a.ease (textAt recoveries x)).workflow = a.workflow := rfl
  have turned := h.update (x := x) (f := (·.turnTo e.clock index)) fun _ => rfl
  unfold Engine.meet
  dsimp only
  rw [workflow, h.clock_eq]
  cases a.workflow.steps[index]? with
  | none => exact h.go fun _ _ _ eq => by cases eq
  | some step =>
    have bound := turned.registered step.stepType
    generalize e.update x (·.turnTo e.clock index) = e₁ at turned bound ⊢
    generalize e'.update x (·.turnTo e.clock index) = e₁' at turned bound ⊢
    dsimp only
    generalize e₁.registry.find? step.stepType = found, e₁'.registry.find? step.stepType = found' at bound
    cases bound with
    | none => exact turned.meetUnknown a index step
    | @some handler handler' handlers =>
      dsimp only
      rw [handlers.detached_eq]
      split
      · rename_i detached
        rw [handlers.eq_of_detached detached]
        exact turned.dispatch unmarked step handler
      · have noted := turned.note (n := .begun x index handler.slot step.payload) rfl
        unfold beginCall
        dsimp only
        rw [handlers.slot_eq, turned.callCount_eq]
        refine ⟨noted, .go ?_⟩
        cases handlers with
        | same => exact .same fun _ _ _ eq => by cases eq
        | eased attached swallow each => exact .calling (.eased attached swallow each) (each _ _) (.inr swallow)

/-! ### Calls -/

theorem unmarked (h : Eased recoveries e e') (silent : endingsIn e.calls x index = []) :
    textAt recoveries x index = none := by
  cases h with
  | mk registered abreast noted => exact textAt_eq_none silent noted

/-- The same is announced and written to the log in both engines. -/
theorem told (h : Eased recoveries e e') (event : Lifecycle) (entry : LogEntry) :
    Eased recoveries
      { e with events := e.events ++ if e.bus.isSome then [event] else [], log := e.log ++ [entry] }
      { e' with events := e'.events ++ if e'.bus.isSome then [event] else [], log := e'.log ++ [entry] } := by
  cases h with
  | mk registered abreast noted attached announced logged =>
    exact .mk registered abreast noted attached (announced.keepAll _) (logged.keep entry)

/-- The same end of a call leads to the same. -/
theorem concludeCall {names : List String} (h : Eased recoveries e e') (calm : e.Calm) (names_eq : a.names = .ok names)
    (unmarked : textAt recoveries x index = none) (step : Step) (policy : Policy) (result : Except Raised (Option Value)) :
    EasedMove recoveries x (e.concludeCall x a index step policy result)
      (e'.concludeCall x (a.ease (textAt recoveries x)) index step policy result) := by
  cases result with
  | ok output => exact h.go fun _ _ _ eq => by cases eq
  | error raised =>
    cases raised with
    | canceled => exact h.go fun _ _ _ eq => by cases eq
    | failure f =>
      cases policy with
      | propagate => exact h.failStep a index step _ f
      | swallow =>
        have calm' : e'.Calm := by
          unfold Calm
          rw [h.bus_eq]
          exact calm
        have names_eq' : (a.ease (textAt recoveries x)).names = .ok names := names_eq
        unfold Engine.concludeCall
        dsimp only
        rw [recover_calm calm names_eq, recover_calm calm' names_eq']
        refine (h.told _ _).go fun i output error eq => ?_
        cases eq
        exact unmarked

section Waits

variable {handler handler' : Handler} {next next' canceled canceled' : Script} {b : Execution}
  (h : Eased recoveries e e') (handlers : handler.Eases handler') (scripts : next.Eases next')

include h handlers scripts

theorem attend_remark (swallow : next' = next ∨ handler.resolver.policy = .swallow) (r : Remark) :
    EasedMove recoveries x (e.attend x a index step handler (.remark r next))
      (e'.attend x b index step handler' (.remark r next')) :=
  ⟨h.take r, .go (.calling handlers scripts swallow)⟩

variable (scripts' : canceled.Eases canceled')
  (swallow : next' = next ∧ canceled' = canceled ∨ handler.resolver.policy = .swallow)

include scripts' swallow

theorem attend_sleep (seconds : Rat) :
    EasedMove recoveries x (e.attend x a index step handler (.sleep seconds next canceled))
      (e'.attend x b index step handler' (.sleep seconds next' canceled')) := by
  have holds : Stage.Eases (textAt recoveries x) (.holding index handler next canceled)
      (.holding index handler' next' canceled') := .holding handlers scripts scripts' swallow
  unfold Engine.attend
  dsimp only [play]
  rw [h.clock_eq]
  by_cases later : 0 < seconds
  · simp only [later, if_true]
    exact ⟨h, .wait _ holds⟩
  · simp only [later, if_false]
    exact ⟨h, .yield holds⟩

theorem attend_gate : EasedMove recoveries x (e.attend x a index step handler (.gate next canceled))
    (e'.attend x b index step handler' (.gate next' canceled')) := by
  unfold Engine.attend
  dsimp only [play]
  rw [handlers.slot_eq, h.isDue_eq]
  by_cases due : e.isDue (.gate handler.slot) = true
  · simp only [due, if_true]
    exact ⟨h, .go (.calling handlers scripts (swallow.imp_left And.left))⟩
  · simp only [due, Bool.false_eq_true, if_false]
    exact ⟨h, .wait _ (.holding handlers scripts scripts' swallow)⟩

end Waits

/-- **A move in a call**: the call goes on in both engines, or it ends alike, or it raised in the first and returns nothing
in the second. -/
theorem attend {names : List String} {c : Course} {handler handler' : Handler} {script script' : Script}
    (h : Eased recoveries e e') (calm : e.Calm) (names_eq : c.execution.names = .ok names)
    (at_x : e.courses[x]? = some c) (life : c.life = .live (.calling index handler script) false)
    (ahead : ∀ record ∈ c.execution.history, record.index ≠ index) (silent : endingsIn e.calls x index = [])
    (apart : ∀ d ∈ e.deliveries, d.execution = x → d.index ≠ index) (handlers : handler.Eases handler')
    (scripts : script.Eases script') (swallow : script' = script ∨ handler.resolver.policy = .swallow) (step : Step) :
    ∃ more, EasedMove (recoveries ++ more) x (e.attend x c.execution index step handler script)
      (e'.attend x (c.execution.ease (textAt recoveries x)) index step handler' script') := by
  have unmarked := h.unmarked silent
  have ends (result : Except Raised (Option Value)) :
      EasedMove recoveries x
        ((e.note (.ended x index result)).concludeCall x c.execution index step handler.resolver.policy result)
        ((e'.note (.ended x index result)).concludeCall x (c.execution.ease (textAt recoveries x)) index step
          handler'.resolver.policy result) := by
    rw [handlers.policy_eq]
    have noted := h.note (CallNote.ease_of_unmarked unmarked result)
    exact noted.concludeCall calm names_eq unmarked step handler.resolver.policy result
  cases scripts with
  | eased f =>
    have swallows : handler.resolver.policy = .swallow := swallow.resolve_left fun eq => by cases eq
    -- here the first engine records a recovery, and the second the same step as succeeded
    let r : Recovery := ⟨x, index, step.stepType, f, "/".intercalate names⟩
    refine ⟨[r], ?_⟩
    have recovered := h.recover (r := r) at_x life ahead silent apart
    unfold Engine.attend
    dsimp only [Engine.play]
    unfold Engine.concludeCall
    rw [swallows]
    dsimp only
    rw [recover_calm (by exact calm) names_eq]
    exact ⟨recovered, .go (.handled (textAt_concat_self (r := r) unmarked))⟩
  | same =>
    refine EasedMove.noMore ?_
    cases script with
    | answer output => exact ends (.ok output)
    | raise r => exact ends (.error r)
    | remark r next => exact h.attend_remark handlers (.same next) (.inl rfl) r
    | sleep seconds next canceled => exact h.attend_sleep handlers (.same next) (.same canceled) (.inl ⟨rfl, rfl⟩) seconds
    | gate next canceled => exact h.attend_gate handlers (.same next) (.same canceled) (.inl ⟨rfl, rfl⟩)
  | remark scripts =>
    refine EasedMove.noMore ?_
    exact h.attend_remark handlers scripts (swallow.imp_left fun eq => by injection eq) _
  | sleep scripts scripts' =>
    refine EasedMove.noMore ?_
    exact h.attend_sleep handlers scripts scripts' (swallow.imp_left fun eq => by injection eq; constructor <;> assumption) _
  | gate scripts scripts' =>
    refine EasedMove.noMore ?_
    exact h.attend_gate handlers scripts scripts' (swallow.imp_left fun eq => by injection eq; constructor <;> assumption)

/-- The transition of a step is adopted in both engines; its record may tell of a recovery in the first only. -/
theorem adopt {output : Option Value} {status status' : StepStatus} {error error' : Option String}
    (h : Eased recoveries e e') (a : Execution) (step : Step)
    (records : StepRecord.ease (textAt recoveries x) ⟨index, step.stepType, status, error⟩ =
      ⟨index, step.stepType, status', error'⟩) :
    EasedMove recoveries x (e.adopt x a index step output status error)
      (e'.adopt x (a.ease (textAt recoveries x)) index step output status' error') := by
  have state : (a.ease (textAt recoveries x)).state = a.state := rfl
  unfold Engine.adopt
  rw [h.reason_eq, h.process_eq, state]
  split
  · exact h.go fun _ _ _ eq => by cases eq
  · cases e.process a.state step output with
    | error raised =>
      cases raised with
      | canceled => exact h.go fun _ _ _ eq => by cases eq
      | failure f => exact h.failStep a index step _ f
    | ok transition =>
      refine ⟨h.updateCourse fun c c' eases => ⟨?_, ?_, eases.life, eases.reason⟩, .go (.same fun _ _ _ eq => ?_)⟩
      · rw [eases.execution]
        simp [Execution.record, Execution.ease, records, h.clock_eq]
      · rw [eases.scheduled]
      · cases eq

/-! ### Whole moves -/

/-- What is known of an execution whose task is about to move: its path can be written, and at the step that it has come to
no call has ended and none is detached. -/
theorem ahead {c : Course} {stage : Stage} (sound : e.Sound) (at_x : e.courses[x]? = some c)
    (life : c.life = .live stage false)
    (here : stage = .reaching index ∨ ∃ handler script, stage = .calling index handler script) :
    (∀ record ∈ c.execution.history, record.index ≠ index) ∧ endingsIn e.calls x index = [] ∧
      ∀ d ∈ e.deliveries, d.execution = x → d.index ≠ index := by
  have stands := sound.standing.stands x c at_x
  have threads := sound.threading.threads x c at_x
  rw [life] at stands
  have running : c.execution.Running index := by
    rcases here with rfl | ⟨handler, script, rfl⟩
    · cases stands with
      | reaching running => exact running
    · cases stands with
      | calling running => exact running
  have frontier : c.frontier = index := by
    unfold Course.frontier
    rw [if_neg (by simp [running.status]), life]
    rcases here with rfl | ⟨handler, script, rfl⟩ <;> exact running.length
  refine ⟨fun record mem eq => ?_, threads.silent index (Nat.le_of_eq frontier), fun d mem for_x eq => ?_⟩
  · have lt := threads.recorded.index_lt mem
    have := running.length
    omega
  · subst for_x
    have given := (sound.threading.given d c mem at_x).lt
    omega

theorem move_calling {c c' : Course} {handler handler' : Handler} {script script' : Script} (h : Eased recoveries e e')
    (sound : e.Sound) (at_x : e.courses[x]? = some c) (execution : c'.execution = c.execution.ease (textAt recoveries x))
    (life : c.life = .live (.calling index handler script) false) (handlers : handler.Eases handler')
    (scripts : script.Eases script') (swallow : script' = script ∨ handler.resolver.policy = .swallow) :
    ∃ more, EasedMove (recoveries ++ more) x (e.moveCourse x c (.calling index handler script))
      (e'.moveCourse x c' (.calling index handler' script')) := by
  obtain ⟨names, names_eq⟩ := sound.orderly.names at_x
  obtain ⟨ahead, silent, apart⟩ := ahead sound at_x life (.inr ⟨handler, script, rfl⟩)
  have attends := h.attend sound.calm names_eq at_x life ahead silent apart handlers scripts swallow
  have workflow : c'.execution.workflow = c.execution.workflow := by rw [execution]; rfl
  dsimp only [Engine.moveCourse, Engine.withStep]
  rw [workflow, execution]
  cases c.execution.workflow.steps[index]? with
  | some step => exact attends step
  | none =>
    refine ⟨[], ?_⟩
    rw [List.append_nil]
    exact h.go fun _ _ _ eq => by cases eq

theorem move_handled {c c' : Course} {stage' : Stage} {output : Option Value} {status : StepStatus}
    {error : Option String} (h : Eased recoveries e e')
    (execution : c'.execution = c.execution.ease (textAt recoveries x))
    (stages : Stage.Eases (textAt recoveries x) (.handled index output status error) stage') :
    EasedMove recoveries x (e.moveCourse x c (.handled index output status error)) (e'.moveCourse x c' stage') := by
  obtain ⟨status', error', rfl, records⟩ := stages.of_handled
  dsimp only [Engine.moveCourse]
  rw [execution]
  exact h.withStep c.execution index fun step _ => h.adopt c.execution step (records step.stepType)

/-- **A move of the task of an execution** leaves the engines the same but for some recoveries. -/
theorem moveCourse {c c' : Course} {stage stage' : Stage} (h : Eased recoveries e e') (sound : e.Sound)
    (at_x : e.courses[x]? = some c) (eases : Course.Eases (textAt recoveries x) c c') (life : c.life = .live stage false)
    (stages : Stage.Eases (textAt recoveries x) stage stage') :
    ∃ more, EasedMove (recoveries ++ more) x (e.moveCourse x c stage) (e'.moveCourse x c' stage') := by
  have execution := eases.execution
  -- only a call in progress and an answer being handled can differ; at all other stages the tasks are the same
  cases stages with
  | calling handlers scripts swallow => exact h.move_calling sound at_x execution life handlers scripts swallow
  | holding handlers scripts _ swallow =>
    exact EasedMove.noMore ⟨h, .go (.calling handlers scripts (swallow.imp_left And.left))⟩
  | handled given => exact EasedMove.noMore (h.move_handled execution (.handled given))
  | same plain =>
    cases stage with
    | calling index handler script => exact h.move_calling sound at_x execution life .same (.same script) (.inl rfl)
    | handled index output status error => exact EasedMove.noMore (h.move_handled execution (.same plain))
    | holding index handler next canceled => exact EasedMove.noMore (h.go fun _ _ _ eq => by cases eq)
    | reaching index =>
      obtain ⟨-, silent, -⟩ := ahead sound at_x life (.inl rfl)
      dsimp only [Engine.moveCourse]
      rw [execution]
      exact EasedMove.noMore (h.meet (h.unmarked silent) c.execution)
    | opening =>
      dsimp only [Engine.moveCourse]
      rw [execution]
      exact EasedMove.noMore (h.begin c.execution)
    | admitted =>
      dsimp only [Engine.moveCourse]
      rw [execution]
      exact EasedMove.noMore (h.checkDepth c.execution)
    | finishing =>
      dsimp only [Engine.moveCourse]
      rw [eases.scheduled]
      exact EasedMove.noMore (h.finish c.scheduled)
    | spawning position rest =>
      cases rest with
      | nil => exact EasedMove.noMore (h.go fun _ _ _ eq => by cases eq)
      | cons workflow rest =>
        dsimp only [Engine.moveCourse]
        rw [execution]
        exact EasedMove.noMore (h.spawn c.execution position workflow rest)
    | completing =>
      dsimp only [Engine.moveCourse]
      rw [execution]
      exact EasedMove.noMore (h.complete c.execution)
    | canceling =>
      dsimp only [Engine.moveCourse]
      rw [execution]
      exact EasedMove.noMore (h.acknowledge c.execution)
    | unrecovered index event =>
      dsimp only [Engine.moveCourse]
      rw [execution]
      exact EasedMove.noMore (h.withStep c.execution index fun step _ => h.failStep c.execution index step _ _)
    | closing | leaving | refusing => exact EasedMove.noMore (h.stop _)

/-- Where a cancellation leads that meets the task. -/
theorem cancelCourse {stage stage' : Stage} (stages : Stage.Eases (textAt recoveries x) stage stage') :
    (Engine.cancelCourse stage).Eases (Stage.Eases (textAt recoveries x)) (Engine.cancelCourse stage') := by
  cases stages with
  | calling => exact .go (.same fun _ _ _ eq => by cases eq)
  | holding handlers _ scripts' swallow => exact .go (.calling handlers scripts' (swallow.imp_left And.right))
  | handled => exact .go (.same fun _ _ _ eq => by cases eq)
  | same plain =>
    unfold Engine.cancelCourse
    split
    · exact .stop _
    · exact .stop _
    · exact .stop _
    · exact .go (.same fun _ _ _ eq => by cases eq)
    · exact .go (.same fun _ _ _ eq => by cases eq)

theorem settleCourse {r r' : Engine × Move Stage} (both : EasedMove recoveries x r r') :
    Eased recoveries (Engine.settleCourse x r) (Engine.settleCourse x r') := by
  obtain ⟨engines, moves⟩ := both
  refine handOn ?_ (.course x) moves
  refine engines.updateCourse fun c c' eases => ⟨eases.execution, eases.scheduled, ?_, ?_⟩
  · revert moves
    generalize r.2 = m, r'.2 = m'
    intro moves
    cases moves with
    | go stages | yield stages | wait _ stages => exact .live false stages
    | stop ending => exact .ended ending
  · revert moves
    generalize r.2 = m, r'.2 = m'
    intro moves
    cases moves with
    | stop => rfl
    | go | yield | wait => exact eases.reason

end Eased

end Engine

end Stepflow
