import Stepflow.Proofs.Engine.Lineage

/-!
# Stepflow.Proofs.Engine.Narration — what the task of an execution announces, and in which order

* `Tale`: the announcements of the task of an execution, from what the execution is: a beginning, what its records tell,
  what it tells of spawning, and one last announcement once it has ended.  `Tale.ordered`: steps come in their order.
* `Narrates`: the same from the stage of the task.  `Moved.narrates`, `Narrates.signaled` and `Narrates.marked` keep it.
-/

namespace Stepflow

/-! ## Announcements of an execution -/

/-- What an execution announces of a step that it records. -/
def StepRecord.told? (x : Nat) (r : StepRecord) : Option Lifecycle :=
  match r.status with
  | .skipped => some (.stepSkipped x r.index r.stepType)
  | .recovered => some (.stepRecovered x r.index r.stepType (r.error.getD ""))
  | .succeeded | .dispatched | .failed => none

/-- What an execution announces of its beginning and of the steps that it records. -/
def Execution.announced (x : Nat) (a : Execution) : List Lifecycle :=
  .started x a.path :: a.history.filterMap (StepRecord.told? x)

/-- What an execution announces when it spawns, once it has gone through a part of its schedule. -/
def spawnings (x : Nat) (scheduled attended : List Workflow) (state : State) : List Lifecycle :=
  if scheduled = [] then []
  else .spawning x scheduled.length :: (unwanted attended state).map fun p => .childSkipped x p.1.name p.2

/-- The index of the step that an announcement is about. -/
def Lifecycle.stepIndex? : Lifecycle → Option Nat
  | .stepSkipped _ i _ | .stepRecovered _ i _ _ => some i
  | _ => none

/-- The step with an index may have been announced as recovered, without a record that tells so. -/
inductive Lapse (x : Nat) (steps : List Step) (i : Nat) : List Lifecycle → Prop
  | none : Lapse x steps i []
  | recovered {step : Step} {message : String} (at_step : steps[i]? = some step) :
      Lapse x steps i [.stepRecovered x i step.stepType message]

/-- The announcements of the task of execution number `x` go with what the execution is. -/
inductive Tale (x : Nat) (a : Execution) (scheduled : List Workflow) : List Lifecycle → Prop
  | idle (status : a.status = .idle) : Tale x a scheduled []
  /-- Canceled before it began. -/
  | stillborn {names : List String} {reason : String} (status : a.status = .canceled) (unturned : a.currentStep = none)
      (history : a.history = []) (error : a.error = some (a.cancelError names reason)) :
      Tale x a scheduled [.canceled x reason]
  | running {last : List Lifecycle} (status : a.status = .running) (lapse : Lapse x a.workflow.steps a.history.length last) :
      Tale x a scheduled (a.announced x ++ last)
  | spawning {attended : List Workflow} (status : a.status = .spawning) (something : scheduled ≠ [])
      (part : attended <+: scheduled) : Tale x a scheduled (a.announced x ++ spawnings x scheduled attended a.state)
  | completed (status : a.status = .completed) :
      Tale x a scheduled (a.announced x ++ spawnings x scheduled scheduled a.state ++ [.completed x a.path])
  | failed {error : Failure} (status : a.status = .failed) (error_eq : a.error = some error) :
      Tale x a scheduled (a.announced x ++ [.failed x a.path error.message])
  /-- The last step was recovered, and its state could not be processed. -/
  | unprocessed {before : List StepRecord} {r : StepRecord} {names : List String} {step : Step} {message : String}
      {cause : Failure} (status : a.status = .failed) (history : a.history = before ++ [r]) (failed : r.status = .failed)
      (at_step : a.workflow.steps[before.length]? = some step)
      (error : a.error = some (Execution.errorAt names before.length step "state processing failed" cause)) :
      Tale x a scheduled (a.announced x ++ [.stepRecovered x before.length step.stepType message,
        .failed x a.path (Execution.errorAt names before.length step "state processing failed" cause).message])
  | canceled {last : List Lifecycle} {names : List String} {reason : String} (status : a.status = .canceled)
      (current : a.currentStep = some a.history.length) (lapse : Lapse x a.workflow.steps a.history.length last)
      (error : a.error = some (a.cancelError names reason)) :
      Tale x a scheduled (a.announced x ++ last ++ [.canceled x reason])

section Tales

variable {x : Nat} {a b : Execution} {scheduled : List Workflow} {events : List Lifecycle}

@[simp] theorem announced_failedAt (now : Rat) (names : List String) (index : Nat) (step : Step) (message : String)
    (cause : Failure) : (a.failedAt now names index step message cause).announced x = a.announced x := by
  simp [Execution.announced, Execution.failedAt, Execution.record, Execution.endWith, StepRecord.told?]

theorem announced_append {r : StepRecord} (path : b.path = a.path) (history : b.history = a.history ++ [r]) :
    b.announced x = a.announced x ++ (r.told? x).toList := by
  cases told : r.told? x <;> simp [Execution.announced, path, history, told]

theorem StepRecord.told?_stepIndex (x : Nat) (r : StepRecord) :
    (r.told? x).bind Lifecycle.stepIndex? = (r.told? x).map fun _ => r.index := by
  unfold StepRecord.told?
  cases r.status <;> rfl

/-- The steps that the records of an execution tell of come in their order. -/
theorem announced_stepIndices (h : a.Recorded) : ((a.announced x).filterMap Lifecycle.stepIndex?).Pairwise (· < ·) := by
  have indices : (a.announced x).filterMap Lifecycle.stepIndex? =
      (a.history.filter fun r => (r.told? x).isSome).map StepRecord.index := by
    simp only [Execution.announced, List.filterMap_cons, Lifecycle.stepIndex?, List.filterMap_filterMap,
      StepRecord.told?_stepIndex]
    induction a.history with
    | nil => rfl
    | cons r history ih => cases told : r.told? x <;> simp [told, ih]
  rw [indices]
  have sorted : (a.history.map StepRecord.index).Pairwise (· < ·) := h.indices ▸ List.pairwise_lt_range
  exact sorted.sublist (List.filter_sublist.map _)

theorem spawnings_stepIndices (attended : List Workflow) (state : State) :
    (spawnings x scheduled attended state).filterMap Lifecycle.stepIndex? = [] := by
  unfold spawnings
  split
  · rfl
  · refine List.filterMap_eq_nil_iff.mpr fun event mem => ?_
    rcases List.mem_cons.mp mem with rfl | mem
    · rfl
    · obtain ⟨p, -, rfl⟩ := List.mem_map.mp mem
      rfl

/-- An announced step is a recorded one that did not fail. -/
theorem record_of_announced {event : Lifecycle} (mem : event ∈ a.announced x) {i : Nat}
    (index : event.stepIndex? = some i) : ∃ r ∈ a.history, r.index = i ∧ r.status ≠ .failed := by
  rcases List.mem_cons.mp mem with rfl | mem
  · cases index
  · obtain ⟨r, hr, told⟩ := List.mem_filterMap.mp mem
    have same := r.told?_stepIndex x
    rw [told, Option.bind_some, index] at same
    refine ⟨r, hr, (Option.some.inj same).symm, fun failed => ?_⟩
    simp [StepRecord.told?, failed] at told

/-- What is announced of steps is announced of recorded ones. -/
theorem index_lt_of_announced (h : a.Recorded) {event : Lifecycle} (mem : event ∈ a.announced x) {i : Nat}
    (index : event.stepIndex? = some i) : i < a.history.length := by
  obtain ⟨r, hr, rfl, -⟩ := record_of_announced mem index
  exact h.index_lt hr

/-- A step that comes after all that are announced keeps them in their order. -/
theorem ordered_append {events : List Lifecycle} (h : a.Recorded) {i : Nat}
    (after : ∀ r ∈ a.history, r.status ≠ .failed → r.index < i)
    (last : events.filterMap Lifecycle.stepIndex? = [] ∨ events.filterMap Lifecycle.stepIndex? = [i]) :
    ((a.announced x ++ events).filterMap Lifecycle.stepIndex?).Pairwise (· < ·) := by
  rw [List.filterMap_append, List.pairwise_append]
  refine ⟨announced_stepIndices h, by rcases last with eq | eq <;> simp [eq], fun j hj k hk => ?_⟩
  obtain ⟨event, mem, index⟩ := List.mem_filterMap.mp hj
  obtain ⟨r, hr, rfl, clean⟩ := record_of_announced mem index
  rcases last with eq | eq <;> rw [eq] at hk
  · cases hk
  · exact List.mem_singleton.mp hk ▸ after r hr clean

/-- **Steps are announced in their order**, each at most once. -/
theorem Tale.ordered (h : Tale x a scheduled events) (recorded : a.Recorded) :
    (events.filterMap Lifecycle.stepIndex?).Pairwise (· < ·) := by
  have after : ∀ r ∈ a.history, r.status ≠ .failed → r.index < a.history.length := fun r hr _ => recorded.index_lt hr
  cases h with
  | idle => exact .nil
  | stillborn => exact .nil
  | running _ lapse =>
    refine ordered_append recorded after ?_
    cases lapse with
    | none => exact .inl rfl
    | recovered => exact .inr rfl
  | spawning => exact ordered_append recorded after (.inl (spawnings_stepIndices _ _))
  | completed =>
    rw [List.append_assoc]
    refine ordered_append recorded after (.inl ?_)
    rw [List.filterMap_append, spawnings_stepIndices]
    rfl
  | failed => exact ordered_append recorded after (.inl rfl)
  | @unprocessed before r _ _ _ _ _ history failed =>
    refine ordered_append recorded (fun s hs clean => ?_) (.inr rfl)
    have hs' : s ∈ before := by
      rw [history] at hs
      rcases List.mem_append.mp hs with hs | hs
      · exact hs
      · exact absurd (List.mem_singleton.mp hs ▸ failed) clean
    obtain ⟨k, at_k⟩ := List.mem_iff_getElem?.mp hs'
    have lt := (List.getElem?_eq_some_iff.mp at_k).1
    rw [recorded.getElem_index (by rw [history, List.getElem?_append_left lt]; exact at_k)]
    exact lt
  | canceled _ _ lapse =>
    rw [List.append_assoc]
    refine ordered_append recorded after ?_
    cases lapse with
    | none => exact .inl rfl
    | recovered => exact .inr rfl

end Tales

/-! ## The stage of the task -/

/-- The stages of an execution in its steps at which everything that is announced is recorded. -/
def Stage.Plain : Stage → Prop
  | .admitted | .reaching _ | .calling .. | .holding .. | .finishing => True
  | .handled _ _ status _ => status = .succeeded ∨ status = .dispatched
  | _ => False

/-- What the task of execution number `x` has announced, from its stage. -/
inductive Narrates (x : Nat) (a : Execution) (scheduled : List Workflow) : Life Stage → List Lifecycle → Prop
  | unbegun {life : Life Stage} (idle : a.status = .idle) : Narrates x a scheduled life []
  | stepping {stage : Stage} {interrupted : Bool} {events : List Lifecycle} (running : a.status = .running)
      (plain : stage.Plain) (told : events = a.announced x) : Narrates x a scheduled (.live stage interrupted) events
  | recovered {output : Option Value} {error : Option String} {interrupted : Bool} {step : Step}
      {events : List Lifecycle} (running : a.status = .running)
      (at_step : a.workflow.steps[a.history.length]? = some step)
      (told : events = a.announced x ++ [.stepRecovered x a.history.length step.stepType (error.getD "")]) :
      Narrates x a scheduled (.live (.handled a.history.length output .recovered error) interrupted) events
  | canceling {last : List Lifecycle} {interrupted : Bool} {events : List Lifecycle} (running : a.status = .running)
      (lapse : Lapse x a.workflow.steps a.history.length last) (told : events = a.announced x ++ last) :
      Narrates x a scheduled (.live .canceling interrupted) events
  | spawning {position : Nat} {rest : List Workflow} {interrupted : Bool} {events : List Lifecycle}
      (status : a.status = .spawning) (something : scheduled ≠ [])
      (told : events = a.announced x ++ spawnings x scheduled (scheduled.take position) a.state) :
      Narrates x a scheduled (.live (.spawning position rest) interrupted) events
  | completing {interrupted : Bool} {events : List Lifecycle}
      (status : scheduled = [] ∧ a.status = .running ∨ scheduled ≠ [] ∧ a.status = .spawning)
      (told : events = a.announced x ++ spawnings x scheduled scheduled a.state) :
      Narrates x a scheduled (.live .completing interrupted) events
  | ended {life : Life Stage} {events : List Lifecycle} (finished : a.isFinished = true)
      (tale : Tale x a scheduled events) : Narrates x a scheduled life events

section Narrates

variable {e : Engine} {x : Nat} {a b : Execution} {scheduled : List Workflow} {life : Life Stage} {c c' : Course}
  {events : List Lifecycle} {eff : Effect} {maxDepth : Int}

theorem Narrates.tale (h : Narrates x a scheduled life events) : Tale x a scheduled events := by
  cases h with
  | unbegun idle => exact .idle idle
  | stepping running plain told =>
    rw [told, ← List.append_nil (a.announced x)]
    exact .running running .none
  | recovered running at_step told => exact told ▸ .running running (.recovered at_step)
  | canceling running lapse told => exact told ▸ .running running lapse
  | spawning status something told => exact told ▸ .spawning status something (List.take_prefix _ _)
  | completing status told =>
    rcases status with ⟨rfl, running⟩ | ⟨something, spawning⟩
    · exact told ▸ .running running .none
    · exact told ▸ .spawning spawning something (List.prefix_refl _)
  | ended _ tale => exact tale

theorem Narrates.interrupt (h : Narrates x a scheduled life events) : Narrates x a scheduled life.interrupt events := by
  cases h with
  | unbegun idle => exact .unbegun idle
  | stepping running plain told => exact .stepping running plain told
  | recovered running at_step told => exact .recovered running at_step told
  | canceling running lapse told => exact .canceling running lapse told
  | spawning status something told => exact .spawning status something told
  | completing status told => exact .completing status told
  | ended finished tale => exact .ended finished tale

/-- What comes from outside makes an execution announce nothing itself. -/
theorem Narrates.signaled (h : Narrates x c.execution c.scheduled c.life events) (signaled : Signaled c c') :
    Narrates x c'.execution c'.scheduled c'.life events := by
  rw [signaled.execution, signaled.scheduled]
  rcases signaled.life with life | life
  · rw [life]
    exact h
  · rw [life]
    exact h.interrupt

/-- An execution that has not begun has announced nothing. -/
theorem Tale.of_idle (h : Tale x a scheduled events) (idle : a.status = .idle) : events = [] := by
  cases h with
  | idle => rfl
  | stillborn status | running status | spawning status | completed status | failed status | unprocessed status
  | canceled status => simp [idle] at status

/-- What it announces when it is canceled before it begins. -/
theorem Tale.drop (h : Tale x a scheduled events) (unbegun : a.Unbegun) (now : Rat) (names : List String)
    (reason : String) : Tale x (a.canceledFor now names reason) scheduled (events ++ [.canceled x reason]) := by
  have unturned : a.currentStep = none := by rw [unbegun]; rfl
  rw [h.of_idle unbegun.status_eq, List.nil_append]
  exact .stillborn rfl unturned unbegun.history_eq rfl

theorem Marked.scheduled_eq {now : Rat} (marked : Marked now c c') : c'.scheduled = c.scheduled := by
  cases marked <;> rfl

/-- An execution that is marked as canceled announces that. -/
theorem Narrates.marked {now : Rat} {names : List String} {reason : String}
    (h : Narrates x c.execution c.scheduled c.life events) (stands : Stands maxDepth c.execution c.scheduled c.life)
    (marked : Marked now c c') (execution : c'.execution = c.execution.canceledFor now names reason) :
    Narrates x c'.execution c'.scheduled c'.life (events ++ [.canceled x reason]) := by
  rw [execution, marked.scheduled_eq]
  exact .ended rfl (h.tale.drop (marked.unbegun stands) now names reason)

/-! ### Moves -/

/-- Away from the end of its steps an execution has announced what its records tell. -/
theorem Narrates.of_plain {stage : Stage} {interrupted : Bool} (h : Narrates x a scheduled (.live stage interrupted) events)
    (running : a.status = .running) (plain : stage.Plain) : events = a.announced x := by
  cases h with
  | unbegun idle => simp [running] at idle
  | stepping _ _ told => exact told
  | recovered => simp [Stage.Plain] at plain
  | canceling | spawning | completing => exact plain.elim
  | ended finished => simp [Execution.isFinished, running, Status.isFinished] at finished

/-- A move that announces nothing. -/
theorem Narrates.quiet (h : Narrates x a scheduled life events) : Narrates x a scheduled life (events ++ []) := by
  rwa [List.append_nil]

/-- A failure is announced after what the records tell. -/
theorem Narrates.fails {f : Failure} (told : events = a.announced x) (status : b.status = .failed)
    (error : b.error = some f) (announced : b.announced x = a.announced x) (path : b.path = a.path) :
    Narrates x b scheduled life (events ++ [.failed x a.path f.message]) := by
  refine .ended (by simp [Execution.isFinished, status, Status.isFinished]) ?_
  rw [told, ← announced, ← path]
  exact .failed status error

/-- An execution that has recorded its step goes on to the next one. -/
theorem Narrates.advance {r : StepRecord} {index : Nat} (status : b.status = .running) (path : b.path = a.path)
    (history : b.history = a.history ++ [r]) (told : events = a.announced x ++ (r.told? x).toList) :
    Narrates x b scheduled (.live (.reaching index) false) events :=
  .stepping status trivial (told.trans (announced_append path history).symm)

theorem Advance.narrates_reaching {index : Nat} (h : Advance e x c (.reaching index) eff)
    (running : c.execution.Running index) (told : events = c.execution.announced x) :
    Narrates x eff.execution eff.scheduled (Engine.lifeAfter eff.move) (events ++ eff.events) := by
  cases h with
  | exhausted => exact .quiet (.stepping running.status trivial told)
  | unknown => exact .fails told rfl rfl (announced_failedAt _ _ _ _ _ _) rfl
  | skipped => exact .advance (a := c.execution) running.status rfl rfl (by rw [told]; rfl)
  | dispatched => exact .quiet (.stepping running.status (.inr rfl) told)
  | called => exact .quiet (.stepping running.status trivial told)

theorem Advance.narrates_calling {handler : Handler} {script : Script}
    (h : Advance e x c (.calling c.execution.history.length handler script) eff)
    (running : c.execution.Running c.execution.history.length) (told : events = c.execution.announced x) :
    Narrates x eff.execution eff.scheduled (Engine.lifeAfter eff.move) (events ++ eff.events) := by
  cases h with
  | remarked | passed => exact .quiet (.stepping running.status trivial told)
  | slept | gaveWay | barred => exact .quiet (.stepping running.status trivial told)
  | answered => exact .quiet (.stepping running.status (.inl rfl) told)
  | yielded => exact .canceling running.status .none (by rw [told])
  | unresolved => exact .fails told rfl rfl (announced_failedAt _ _ _ _ _ _) rfl
  | recovered at_step => exact .recovered running.status at_step (by rw [told]; rfl)

theorem Advance.narrates_handled {output : Option Value} {status : StepStatus} {error : Option String}
    (h : Advance e x c (.handled c.execution.history.length output status error) eff)
    (running : c.execution.Running c.execution.history.length)
    (narrates : Narrates x c.execution c.scheduled (.live (.handled c.execution.history.length output status error) false)
      events) : Narrates x eff.execution eff.scheduled (Engine.lifeAfter eff.move) (events ++ eff.events) := by
  cases narrates with
  | unbegun idle => simp [running.status] at idle
  | ended finished => simp [running.unfinished] at finished
  | stepping _ plain told =>
    cases h with
    | preempted | abandoned => exact .quiet (.canceling running.status .none (by rw [told, List.append_nil]))
    | unprocessed => exact .fails told rfl rfl (announced_failedAt _ _ _ _ _ _) rfl
    | adopted =>
      refine .quiet (.advance (a := c.execution) running.status rfl rfl ?_)
      rcases plain with rfl | rfl <;> simp [told, StepRecord.told?]
  | @recovered _ _ _ step _ _ at_step told =>
    cases h with
    | preempted | abandoned => exact .quiet (.canceling running.status (.recovered at_step) told)
    | @unprocessed _ step' _ _ _ f names names_eq no_reason at_step' =>
      obtain rfl : step = step' := Option.some.inj (at_step.symm.trans at_step')
      refine .ended rfl ?_
      rw [told, List.append_assoc,
        ← announced_failedAt e.clock names c.execution.history.length step "state processing failed" f]
      exact .unprocessed rfl rfl rfl at_step rfl
    | @adopted _ step' _ _ _ transition no_reason at_step' =>
      obtain rfl : step = step' := Option.some.inj (at_step.symm.trans at_step')
      exact .quiet (.advance (a := c.execution) running.status rfl rfl told)

/-- What is announced goes on with what a workflow that is not spawned adds. -/
theorem spawnings_concat {attended : List Workflow} {workflow : Workflow} {state : State} (something : scheduled ≠ []) :
    spawnings x scheduled (attended ++ [workflow]) state = spawnings x scheduled attended state ++
      if workflow.shouldRun state then [] else [.childSkipped x workflow.name attended.length] := by
  simp only [spawnings, if_neg something, unwanted_concat, List.map_append, List.cons_append]
  split <;> rfl

theorem Advance.narrates_spawning {position : Nat} {rest spawned : List Workflow}
    (h : Advance e x c (.spawning position rest) eff) (split : c.scheduled = spawned ++ rest)
    (length : spawned.length = position) (status : c.execution.status = .spawning) (something : c.scheduled ≠ [])
    (told : events = c.execution.announced x ++ spawnings x c.scheduled (c.scheduled.take position) c.execution.state) :
    Narrates x eff.execution eff.scheduled (Engine.lifeAfter eff.move) (events ++ eff.events) := by
  cases h with
  | spawnedAll =>
    have all : c.scheduled.take position = c.scheduled := by rw [split, ← length]; simp
    rw [all] at told
    exact .quiet (.completing (.inr ⟨something, status⟩) told)
  | spawned wanted =>
    obtain ⟨taken, taken'⟩ := take_of_split split length
    refine .quiet (.spawning status something ?_)
    rw [told, taken, taken', spawnings_concat something, if_pos wanted, List.append_nil]
    rfl
  | rejected unwanted =>
    obtain ⟨taken, taken'⟩ := take_of_split split length
    refine .spawning status something ?_
    rw [told, taken, taken', spawnings_concat something, unwanted, length, ← List.append_assoc]
    rfl

/-- What an execution that has ended has announced stays what goes with it. -/
theorem Narrates.settled {stage : Stage} {interrupted : Bool} {life : Life Stage}
    (h : Narrates x a scheduled (.live stage interrupted) events) (finished : a.isFinished = true) :
    Narrates x a scheduled life (events ++ []) :=
  .quiet (.ended finished h.tale)

/-- **A move announces what goes with it**, whatever the stage of the task. -/
theorem Advance.narrates {stage : Stage} (h : Advance e x c stage eff)
    (stands : Stands e.settings.maxDepth c.execution c.scheduled (.live stage false))
    (narrates : Narrates x c.execution c.scheduled (.live stage false) events) :
    Narrates x eff.execution eff.scheduled (Engine.lifeAfter eff.move) (events ++ eff.events) := by
  -- one case for each stage, with what the moves of that stage announce
  cases stands with
  | unbegun unbegun =>
    cases h with
    | begun =>
      refine .stepping rfl trivial ?_
      rw [narrates.tale.of_idle unbegun.status_eq, Execution.announced, unbegun.history_eq]
      rfl
  | admitted running =>
    have told := narrates.of_plain running.status trivial
    cases h with
    | tooDeep => exact .fails told rfl rfl rfl rfl
    | shallow => exact .quiet (.stepping running.status trivial told)
  | reaching running => exact h.narrates_reaching running (narrates.of_plain running.status trivial)
  | calling running =>
    cases running.length
    exact h.narrates_calling running (narrates.of_plain running.status trivial)
  | holding running =>
    cases h with
    | resumed => exact .quiet (.stepping running.status trivial (narrates.of_plain running.status trivial))
  | handled running | dispatched running =>
    cases running.length
    exact h.narrates_handled running narrates
  | finishing running =>
    have told := narrates.of_plain running.status trivial
    cases h with
    | unscheduled nothing =>
      refine .quiet (.completing (.inl ⟨nothing, running.status⟩) ?_)
      simp [told, spawnings, nothing, Execution.announced]
    | scheduled something =>
      refine .spawning rfl something ?_
      rw [told, spawnings, if_neg something]
      rfl
  | spawning spent status split length =>
    cases narrates with
    | unbegun idle => simp [status] at idle
    | stepping running => simp [status] at running
    | spawning status something told => exact h.narrates_spawning split length status something told
    | ended finished => simp [spent.unfinished] at finished
  | completing spent =>
    cases h with
    | completed =>
      cases narrates with
      | unbegun idle => exact absurd idle spent.begun
      | stepping _ plain => exact plain.elim
      | completing _ told => exact told ▸ .ended rfl (.completed rfl)
      | ended finished => simp [spent.unfinished] at finished
  -- the end has been announced when the execution got its last status, so the task only leaves
  | closing ended =>
    cases h with
    | closed => exact narrates.settled ended.finished
  | canceling running current =>
    cases h with
    | passedOver finished => exact absurd finished (by simp [running.unfinished])
    | acknowledged names_eq =>
      cases narrates with
      | unbegun idle => simp [running.status] at idle
      | stepping _ plain => exact plain.elim
      | canceling _ lapse told =>
        cases running.length
        exact told ▸ .ended rfl (.canceled rfl current lapse rfl)
      | ended finished => simp [running.unfinished] at finished
  | leaving canceled ended =>
    cases h with
    | left => exact narrates.settled ended.finished

/-- A cancellation that meets the task makes it announce nothing yet. -/
theorem Moved.narrates (h : Moved e x c eff) (stands : Stands e.settings.maxDepth c.execution c.scheduled c.life)
    (narrates : Narrates x c.execution c.scheduled c.life events) :
    Narrates x eff.execution eff.scheduled (Engine.lifeAfter eff.move) (events ++ eff.events) := by
  cases h with
  | advanced life advance =>
    rw [life] at stands narrates
    exact advance.narrates stands narrates
  | diverted life =>
    rw [life] at stands narrates
    cases stands with
    | unbegun unbegun =>
      rw [narrates.tale.of_idle unbegun.status_eq]
      exact .unbegun unbegun.status_eq
    | stillborn unbegun names_eq eq => exact narrates.settled (by rw [eq]; rfl)
    | holding running =>
      exact .quiet (.stepping running.status trivial (narrates.of_plain running.status trivial))
    | dispatched running =>
      refine .quiet (.canceling running.status .none ?_)
      rw [narrates.of_plain running.status (.inr rfl), List.append_nil]

end Narrates

end Stepflow
