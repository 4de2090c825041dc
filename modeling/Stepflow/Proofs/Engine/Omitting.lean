import Stepflow.Proofs.Engine.Alertness

/-!
# Stepflow.Proofs.Engine.Omitting — an engine without one of its shutdowns

* `TaskId.past`: how tasks are numbered without a shutdown.  `Engine.without`: an engine without it, without the place that
  its caller takes and without its wait; everything else is the same.
* `without_announce`, `without_submit`, `without_interrupt` and so on: what is done to an engine without it is what is done
  to the engine, without it.
* `without_move`: so it is with the moves of all other tasks.  `without_undergo`: so it is with the deeds of the host.
-/

namespace Stepflow

/-- How a task is numbered where shutdown number `gone` has not been called; the caller of that shutdown is not there. -/
def TaskId.past (gone : Nat) : TaskId → Option TaskId
  | .closer k => if k < gone then some (.closer k) else if k = gone then none else some (.closer (k - 1))
  | t => some t

namespace TaskId

variable {gone k : Nat} {s s' t : TaskId}

theorem past_self : (closer gone).past gone = none := by simp [past]

theorem past_of_gt (later : gone < k) : (closer k).past gone = some (closer (k - 1)) := by
  simp [past, Nat.not_lt.mpr (Nat.le_of_lt later), Nat.ne_of_gt later]

theorem past_of_lt (earlier : k < gone) : (closer k).past gone = some (closer k) := if_pos earlier

theorem past_eq_none (missing : t.past gone = none) : t = closer gone := by
  cases t with
  | closer k =>
    rcases Nat.lt_trichotomy k gone with earlier | rfl | later
    · rw [past_of_lt earlier] at missing
      cases missing
    · rfl
    · rw [past_of_gt later] at missing
      cases missing
  | course | delivery | caller | joiner => cases missing

/-- Tasks keep numbers of their own. -/
theorem past_inj (kept : s.past gone = some t) (kept' : s'.past gone = some t) : s = s' := by
  cases s <;> cases s' <;> simp only [past, Option.some.injEq] at kept kept' <;> grind

end TaskId

namespace Engine

/-- What a task waits for where shutdown number `gone` has not been called. -/
def waitPast (gone : Nat) (w : TaskId × Wait) : Option (TaskId × Wait) := (w.1.past gone).map (·, w.2)

/-- The engine without shutdown number `gone`. -/
def without (gone : Nat) (e : Engine) : Engine :=
  { e with
    closers := e.closers.eraseIdx gone
    current := e.current.bind (·.past gone)
    ready := e.ready.filterMap (·.past gone)
    waits := e.waits.filterMap (waitPast gone) }

/-- The same for an engine that comes with something else. -/
def withoutIn {α : Type} (gone : Nat) (r : Engine × α) : Engine × α := (r.1.without gone, r.2)

/-- No task waits for a shutdown that is numbered anew. -/
def Bypasses (gone : Nat) (e : Engine) : Prop :=
  ∀ w ∈ e.waits, ∀ ids due, w.2 = .tasks ids due → ∀ t ∈ ids, t.past gone = some t

variable {gone : Nat} {e : Engine} {t t' : TaskId}

/-! ## Views -/

section Views

/-- A shutdown that is called all the same is found under its new number. -/
theorem exists_past_closer {k : Nat} (kept : (TaskId.closer k).past gone = some t) :
    ∃ j, t = .closer j ∧ ∀ {α : Type} (l : List α), (l.eraseIdx gone)[j]? = l[k]? ∧
      ∀ f, (l.modify k f).eraseIdx gone = (l.eraseIdx gone).modify j f := by
  rcases Nat.lt_trichotomy k gone with earlier | rfl | later
  · rw [TaskId.past_of_lt earlier, Option.some.injEq] at kept
    refine ⟨k, kept.symm, fun l => ⟨List.getElem?_eraseIdx_of_lt earlier, fun f => List.ext_getElem? fun i => ?_⟩⟩
    simp only [List.getElem?_modify, List.getElem?_eraseIdx]
    split
    · rfl
    · have ne : k ≠ i + 1 := by omega
      have ne' : k ≠ i := by omega
      simp [ne, ne']
  · rw [TaskId.past_self] at kept
    cases kept
  · rw [TaskId.past_of_gt later, Option.some.injEq] at kept
    have back : k - 1 + 1 = k := by omega
    refine ⟨k - 1, kept.symm, fun l => ⟨?_, fun f => List.ext_getElem? fun i => ?_⟩⟩
    · rw [List.getElem?_eraseIdx_of_ge (by omega), back]
    · simp only [List.getElem?_modify, List.getElem?_eraseIdx]
      split
      · have ne : k ≠ i := by omega
        have ne' : k - 1 ≠ i := by omega
        simp [ne, ne']
      · have same : k = i + 1 ↔ k - 1 = i := by omega
        simp [same]

theorem isOver_without (kept : t.past gone = some t') : (e.without gone).isOver t' = e.isOver t := by
  cases t with
  | closer k =>
    obtain ⟨j, rfl, found⟩ := exists_past_closer kept
    simp only [isOver, without, (found e.closers).1]
  | course | delivery | caller | joiner =>
    cases kept
    rfl

theorem isDue_without {on : Wait} (bypasses : ∀ ids due, on = .tasks ids due → ∀ t ∈ ids, t.past gone = some t) :
    (e.without gone).isDue on = e.isDue on := by
  cases on with
  | tasks ids due =>
    have all : ids.all (e.without gone).isOver = ids.all e.isOver := by
      rw [Bool.eq_iff_iff, List.all_eq_true, List.all_eq_true]
      exact forall₂_congr fun t mem => by rw [isOver_without (bypasses ids due rfl t mem)]
    simp only [isDue, all]
    rfl
  | gate | bus | clock => rfl

theorem waitPast_beq (kept : t.past gone = some t') {w w' : TaskId × Wait} (kept' : waitPast gone w = some w') :
    (w'.1 == t') = (w.1 == t) := by
  obtain ⟨s, at_s, rfl⟩ := Option.map_eq_some_iff.mp kept'
  rw [Bool.eq_iff_iff, beq_iff_eq, beq_iff_eq]
  constructor
  · rintro rfl
    exact TaskId.past_inj at_s kept
  · rintro rfl
    exact Option.some.inj (at_s.symm.trans kept)

theorem ne_of_waitPast_eq_none (kept : t.past gone = some t') {w : TaskId × Wait} (missing : waitPast gone w = none) :
    (w.1 == t) = false := by
  have dropped : w.1.past gone = none := Option.map_eq_none_iff.mp missing
  rw [beq_eq_false_iff_ne]
  rintro rfl
  rw [kept] at dropped
  cases dropped

theorem any_waitPast (waits : List (TaskId × Wait)) (kept : t.past gone = some t') :
    (waits.filterMap (waitPast gone)).any (·.1 == t') = waits.any (·.1 == t) := by
  induction waits with
  | nil => rfl
  | cons w waits ih =>
    rw [List.any_cons, ← ih]
    cases at_w : waitPast gone w with
    | none => rw [List.filterMap_cons_none at_w, ne_of_waitPast_eq_none kept at_w, Bool.false_or]
    | some w' => rw [List.filterMap_cons_some at_w, List.any_cons, waitPast_beq kept at_w]

theorem filter_waitPast (waits : List (TaskId × Wait)) (kept : t.past gone = some t') :
    (waits.filterMap (waitPast gone)).filter (·.1 != t') = (waits.filter (·.1 != t)).filterMap (waitPast gone) := by
  induction waits with
  | nil => rfl
  | cons w waits ih =>
    cases at_w : waitPast gone w with
    | none =>
      have ne : (w.1 != t) = true := by rw [bne, ne_of_waitPast_eq_none kept at_w]; rfl
      rw [List.filterMap_cons_none at_w, List.filter_cons, if_pos ne, List.filterMap_cons_none at_w, ih]
    | some w' =>
      have same : (w'.1 != t') = (w.1 != t) := by rw [bne, bne, waitPast_beq kept at_w]
      rw [List.filterMap_cons_some at_w, List.filter_cons, List.filter_cons, same, ih]
      split
      · rw [List.filterMap_cons_some at_w]
      · rfl

theorem lookup_waitPast (waits : List (TaskId × Wait)) (kept : t.past gone = some t') :
    (waits.filterMap (waitPast gone)).lookup t' = waits.lookup t := by
  induction waits with
  | nil => rfl
  | cons w waits ih =>
    obtain ⟨s, on⟩ := w
    cases at_w : waitPast gone (s, on) with
    | none =>
      have ne : (t == s) = false := by rw [BEq.comm]; exact ne_of_waitPast_eq_none kept at_w
      rw [List.filterMap_cons_none at_w, List.lookup_cons, ne, ih]
    | some w' =>
      have same := waitPast_beq kept at_w
      obtain ⟨s', -, rfl⟩ := Option.map_eq_some_iff.mp at_w
      rw [List.filterMap_cons_some at_w, List.lookup_cons, List.lookup_cons, BEq.comm, same, BEq.comm, ih]

end Views

/-! ## Small changes -/

section Changes

@[simp] theorem without_clock : (e.without gone).clock = e.clock := rfl

@[simp] theorem without_report (level : Level) (message : String) :
    (e.without gone).report level message = (e.report level message).without gone := rfl

@[simp] theorem without_take (r : Remark) : (e.without gone).take r = (e.take r).without gone := by
  cases r <;> rfl

@[simp] theorem without_updateCourse (x : Nat) (f : Course → Course) :
    (e.without gone).updateCourse x f = (e.updateCourse x f).without gone := rfl

@[simp] theorem without_update (x : Nat) (f : Execution → Execution) :
    (e.without gone).update x f = (e.update x f).without gone := rfl

@[simp] theorem without_setReason (x : Nat) (reason : String) :
    (e.without gone).setReason x reason = (e.setReason x reason).without gone := rfl

@[simp] theorem without_giveReason (x : Nat) (reason : String) :
    (e.without gone).giveReason x reason = (e.giveReason x reason).without gone := rfl

@[simp] theorem without_announce (event : Lifecycle) :
    (e.without gone).announce event = withoutIn gone (e.announce event) := by
  have bus : (e.without gone).bus = e.bus := rfl
  unfold announce
  rw [bus]
  cases e.bus <;> rfl

@[simp] theorem without_submit (x : Execution) : (e.without gone).submit x = (e.submit x).without gone := by
  simp [submit, without, List.filterMap_append, TaskId.past]

theorem without_flag (kept : t.past gone = some t') : (e.without gone).flag t' = (e.flag t).without gone := by
  cases t with
  | closer k =>
    obtain ⟨j, rfl, found⟩ := exists_past_closer kept
    simp only [flag, without, (found e.closers).2]
  | course | delivery | caller | joiner =>
    cases kept
    rfl

theorem without_interrupt (kept : t.past gone = some t') :
    (e.without gone).interrupt t' = (e.interrupt t).without gone := by
  unfold interrupt
  rw [isOver_without kept, without_flag kept]
  split
  · rfl
  · have waiting : ((e.flag t).without gone).isWaiting t' = (e.flag t).isWaiting t := any_waitPast _ kept
    dsimp only
    rw [waiting]
    split
    · simp only [without, filter_waitPast _ kept, List.filterMap_append, List.filterMap_cons_some kept,
        List.filterMap_nil]
    · rfl

theorem without_interruptAll {ts : List TaskId} (kept : ∀ t ∈ ts, t.past gone = some t) :
    (e.without gone).interruptAll ts = (e.interruptAll ts).without gone := by
  unfold interruptAll
  induction ts generalizing e with
  | nil => rfl
  | cons t ts ih =>
    rw [List.foldl_cons, List.foldl_cons, without_interrupt (kept t List.mem_cons_self)]
    exact ih fun t mem => kept t (List.mem_cons_of_mem _ mem)

theorem without_wake (bypasses : e.Bypasses gone) : (e.without gone).wake = e.wake.without gone := by
  have due : ∀ w ∈ e.waits, (e.without gone).isDue w.2 = e.isDue w.2 := fun w mem => isDue_without (bypasses w mem)
  have same (p : Bool → Bool) : ((e.without gone).waits.filter fun w => p ((e.without gone).isDue w.2)) =
      (e.waits.filter fun w => p (e.isDue w.2)).filterMap (waitPast gone) := by
    have waits : (e.without gone).waits = e.waits.filterMap (waitPast gone) := rfl
    rw [waits, List.filter_filterMap, List.filterMap_filter]
    refine List.filterMap_congr fun w mem => ?_
    rw [← due w mem]
    cases at_w : waitPast gone w with
    | none => simp
    | some w' =>
      obtain ⟨t, -, rfl⟩ := Option.map_eq_some_iff.mp at_w
      exact Option.filter_some
  have woken := same id
  have left := same not
  simp only [id_eq] at woken
  have tasks (waits : List (TaskId × Wait)) :
      (waits.filterMap (waitPast gone)).map Prod.fst = (waits.map Prod.fst).filterMap (·.past gone) := by
    rw [List.map_filterMap, List.filterMap_map]
    refine List.filterMap_congr fun w _ => ?_
    simp [waitPast, Function.comp_def]
  unfold wake
  rw [woken, left, tasks]
  simp only [without, List.filterMap_append]

/-- A task hands the processor on. -/
theorem without_handOn {σ : Type} (kept : t.past gone = some t') (m : Move σ) (bypasses : e.Bypasses gone) :
    (e.without gone).handOn t' m = (e.handOn t m).without gone := by
  cases m with
  | go => rfl
  | yield => simp [handOn, without, List.filterMap_append, kept]
  | wait => simp [handOn, without, List.filterMap_append, waitPast, kept]
  | stop =>
    have free : (e.without gone).handOn t' (.stop ‹Ending› : Move σ) =
        (Engine.without gone { e with current := none }).wake := by
      simp [handOn, without]
    rw [free]
    exact without_wake bypasses

end Changes

/-! ## Moves of executions -/

section Courses

variable (x index : Nat) (a : Execution)

theorem without_fail (error : Failure) : (e.without gone).fail x a error = withoutIn gone (e.fail x a error) := by
  simp [fail, withoutIn]

theorem without_failStep (step : Step) (message : String) (cause : Failure) :
    (e.without gone).failStep x a index step message cause =
      withoutIn gone (e.failStep x a index step message cause) := by
  simp only [failStep, without_update, without_clock]
  cases a.failure false message (some index) (some step.stepType) (some cause) with
  | error f => rfl
  | ok error => exact without_fail x a error

theorem without_markCanceled (reason : String) :
    (e.without gone).markCanceled x a reason = withoutIn gone (e.markCanceled x a reason) := by
  unfold markCanceled
  cases a.place with
  | error f => rfl
  | ok place =>
    cases a.failure true ("canceled: " ++ reason) a.currentStep none none with
    | error f => rfl
    | ok error => simp [withoutIn]

theorem without_begin : (e.without gone).begin x a = withoutIn gone (e.begin x a) := by
  simp [begin, withoutIn]

theorem without_checkDepth : (e.without gone).checkDepth x a = withoutIn gone (e.checkDepth x a) := by
  have settings : (e.without gone).settings = e.settings := rfl
  unfold checkDepth
  rw [settings]
  split
  · split
    · exact without_fail x a _
    · rfl
  · rfl

theorem without_meetUnknown (step : Step) :
    (e.without gone).meetUnknown x a index step = withoutIn gone (e.meetUnknown x a index step) := by
  have settings : (e.without gone).settings = e.settings := rfl
  unfold meetUnknown
  dsimp only
  rw [settings]
  split
  · exact without_failStep x index a step _ _
  · cases a.place with
    | error f => rfl
    | ok place => simp [withoutIn]

theorem without_dispatch (step : Step) (handler : Handler) :
    (e.without gone).dispatch x index step handler = withoutIn gone (e.dispatch x index step handler) := by
  simp [dispatch, withoutIn, without, List.filterMap_append, TaskId.past]

theorem without_meet : (e.without gone).meet x a index = withoutIn gone (e.meet x a index) := by
  unfold meet
  cases a.workflow.steps[index]? with
  | none => rfl
  | some step =>
    simp only [without_update, without_clock]
    generalize e.update x (·.turnTo e.clock index) = turned
    have registry : (turned.without gone).registry = turned.registry := rfl
    rw [registry]
    cases turned.registry.find? step.stepType with
    | none => exact without_meetUnknown x index a step
    | some handler =>
      dsimp only
      split
      · exact without_dispatch x index step handler
      · rfl

theorem without_recover (stepType : String) (f : Failure) :
    (e.without gone).recover x a index stepType f = withoutIn gone (e.recover x a index stepType f) := by
  unfold recover
  cases a.place with
  | error g => rfl
  | ok place => simp [withoutIn]

theorem without_concludeCall (step : Step) (policy : Policy) (result : Except Raised (Option Value)) :
    (e.without gone).concludeCall x a index step policy result =
      withoutIn gone (e.concludeCall x a index step policy result) := by
  cases result with
  | ok output => rfl
  | error r =>
    cases r with
    | canceled => rfl
    | failure f =>
      cases policy with
      | propagate => exact without_failStep x index a step _ f
      | swallow =>
        simp only [concludeCall, without_recover]
        obtain ⟨e₁, told⟩ := e.recover x a index step.stepType f
        cases told with
        | error g => exact without_failStep x index a step _ g
        | ok told =>
          obtain ⟨event, reaction⟩ := told
          cases reaction with
          | reject => exact without_failStep x index a step _ _
          | accept | hold | holdReject => rfl

theorem without_play (slot : Nat) (script : Script) :
    (e.without gone).play x index slot script = withoutIn gone (e.play x index slot script) := by
  cases script with
  | answer | sleep => rfl
  | raise r => cases r <;> rfl
  | remark r next => simp [play, withoutIn]
  | gate next canceled =>
    have due : (e.without gone).isDue (.gate slot) = e.isDue (.gate slot) := rfl
    simp only [play, due]
    split <;> rfl

theorem without_attend (step : Step) (handler : Handler) (script : Script) :
    (e.without gone).attend x a index step handler script =
      withoutIn gone (e.attend x a index step handler script) := by
  unfold attend
  rw [without_play]
  obtain ⟨e₁, played⟩ := e.play x index handler.slot script
  cases played with
  | go | yield | wait => rfl
  | done result => exact without_concludeCall x index a step handler.resolver.policy result

theorem without_adopt (step : Step) (output : Option Value) (status : StepStatus) (error : Option String) :
    (e.without gone).adopt x a index step output status error =
      withoutIn gone (e.adopt x a index step output status error) := by
  have reason : (e.without gone).reason? x = e.reason? x := rfl
  have process : (e.without gone).process = e.process := rfl
  unfold adopt
  rw [reason, process]
  split
  · rfl
  · cases e.process a.state step output with
    | error r =>
      cases r with
      | canceled => rfl
      | failure f => exact without_failStep x index a step _ f
    | ok transition => rfl

theorem without_finish (scheduled : List Workflow) :
    (e.without gone).finish x scheduled = withoutIn gone (e.finish x scheduled) := by
  cases scheduled with
  | nil => rfl
  | cons workflow rest => simp [finish, withoutIn]

theorem without_spawn (position : Nat) (workflow : Workflow) (rest : List Workflow) :
    (e.without gone).spawn x a position workflow rest = withoutIn gone (e.spawn x a position workflow rest) := by
  unfold spawn
  dsimp only
  split
  · simp only [without_submit]
    rfl
  · cases a.place with
    | error f => rfl
    | ok place => simp [withoutIn]

theorem without_complete : (e.without gone).complete x a = withoutIn gone (e.complete x a) := by
  unfold complete
  cases a.place with
  | error f => rfl
  | ok place => simp [withoutIn]

theorem without_acknowledge : (e.without gone).acknowledge x a = withoutIn gone (e.acknowledge x a) := by
  have reason : (e.without gone).reason? x = e.reason? x := rfl
  unfold acknowledge
  dsimp only
  rw [reason]
  split
  · rfl
  · rw [without_markCanceled]
    obtain ⟨e₁, told⟩ := e.markCanceled x a _
    cases told <;> rfl

theorem without_withStep {f f' : Step → Engine × Move Stage} (same : ∀ step, f' step = withoutIn gone (f step)) :
    (e.without gone).withStep a index f' = withoutIn gone (e.withStep a index f) := by
  unfold withStep
  cases a.workflow.steps[index]? with
  | none => rfl
  | some step => exact same step

/-- **The move of an execution** is the same without the shutdown. -/
theorem without_moveCourse (c : Course) (stage : Stage) :
    (e.without gone).moveCourse x c stage = withoutIn gone (e.moveCourse x c stage) := by
  cases stage with
  | opening => exact without_begin x _
  | admitted => exact without_checkDepth x _
  | reaching index => exact without_meet x index _
  | calling index handler script =>
    exact without_withStep index _ fun step => without_attend x index _ step handler script
  | handled index output status error =>
    exact without_withStep index _ fun step => without_adopt x index _ step output status error
  | finishing => exact without_finish x _
  | spawning position rest =>
    cases rest with
    | nil => rfl
    | cons workflow rest => exact without_spawn x _ position workflow rest
  | completing => exact without_complete x _
  | canceling => exact without_acknowledge x _
  | unrecovered index event => exact without_withStep index _ fun step => without_failStep x index _ step _ _
  | holding | closing | leaving | refusing => rfl

end Courses

/-! ## Moves of detached calls and callers -/

section Callers

variable (k : Nat)

theorem without_concludeDelivery (d : Delivery) (a : Execution) (result : Except Raised (Option Value)) :
    (e.without gone).concludeDelivery d a result = withoutIn gone (e.concludeDelivery d a result) := by
  cases result with
  | ok output => rfl
  | error r =>
    cases r with
    | canceled => rfl
    | failure f =>
      unfold concludeDelivery
      cases d.handler.resolver.policy with
      | swallow =>
        dsimp only
        rw [without_recover]
        obtain ⟨e₁, told⟩ := e.recover d.execution a d.index d.step.stepType f
        cases told <;> rfl
      | propagate =>
        dsimp only
        cases a.place <;> rfl

theorem without_moveDelivery (d : Delivery) (a : Execution) (stage : DeliveryStage) :
    (e.without gone).moveDelivery d a stage = withoutIn gone (e.moveDelivery d a stage) := by
  cases stage with
  | calling script =>
    unfold moveDelivery
    dsimp only
    rw [without_play]
    obtain ⟨e₁, played⟩ := e.play d.execution d.index d.handler.slot script
    cases played with
    | go | yield | wait => rfl
    | done result => exact without_concludeDelivery d a result
  | entering | holding | closing | refusing => rfl

theorem without_moveCaller (stage : CallerStage) :
    (e.without gone).moveCaller k stage = withoutIn gone (e.moveCaller k stage) := by
  cases stage with
  | entering workflow initial =>
    unfold moveCaller
    dsimp only
    cases State.freeze initial with
    | error f => rfl
    | ok state =>
      simp only [without_submit]
      rfl
  | awaiting | surrendering => rfl

theorem without_cancelCaller (stage : CallerStage) :
    (e.without gone).cancelCaller stage = withoutIn gone (e.cancelCaller stage) := by
  cases stage with
  | awaiting x =>
    unfold cancelCaller
    dsimp only
    rw [isOver_without (t := .course x) rfl]
    split
    · rfl
    · rw [without_giveReason, without_interrupt (t := .course x) rfl]
      rfl
  | entering | surrendering => rfl

theorem without_moveJoiner (stage : JoinerStage) :
    (e.without gone).moveJoiner stage = withoutIn gone (e.moveJoiner stage) := by
  cases stage with
  | watching =>
    have running : (e.without gone).running = e.running := rfl
    unfold moveJoiner
    dsimp only
    rw [running]
    cases e.running <;> rfl

theorem past_of_pending (mem : t ∈ e.pending) : t.past gone = some t := by
  rcases List.mem_append.mp mem with course | delivery
  · obtain ⟨x, -, rfl⟩ := List.mem_map.mp course
    rfl
  · obtain ⟨j, -, rfl⟩ := List.mem_map.mp delivery
    rfl

theorem without_sweep : (e.without gone).sweep = withoutIn gone e.sweep := by
  -- the reasons are filled in one after the other, for any state on the way
  have given (e : Engine) (xs : List Nat) : xs.foldl (fun e x => e.giveReason x shutdownReason) (e.without gone) =
      (xs.foldl (fun e x => e.giveReason x shutdownReason) e).without gone := by
    induction xs generalizing e with
    | nil => rfl
    | cons x xs ih => exact ih (e.giveReason x shutdownReason)
  have pending : (e.without gone).pending = e.pending := rfl
  unfold sweep
  dsimp only
  rw [pending, without_report]
  have running (e : Engine) : (e.without gone).running = e.running := rfl
  rw [running, given, without_interruptAll fun t mem => past_of_pending mem]
  rfl

theorem without_moveCloser (stage : CloserStage) :
    (e.without gone).moveCloser stage = withoutIn gone (e.moveCloser stage) := by
  cases stage with
  | flushing deadline =>
    have pending : (e.without gone).pending = e.pending := rfl
    unfold moveCloser
    dsimp only
    rw [pending, without_clock]
    split
    · rfl
    · split
      · exact without_sweep
      · rfl
  | sweeping => rfl

end Callers

/-! ## Acts of tasks and of the host -/

section Acts

variable {e' : Engine}

theorem Bypasses.of_noneWaits (bypasses : e.Bypasses gone) (none : NoneWaits e e') : e'.Bypasses gone :=
  fun w mem => bypasses w (none mem)

theorem noneWaits_working (x : Nat) : Working x NoneWaits where
  refl _ := .of_eq rfl
  trans h h' := List.Subset.trans h' h
  report _ _ _ := .of_eq rfl
  take e r := by cases r <;> exact .of_eq rfl
  announce e event := by
    refine .of_eq ?_
    unfold announce
    split <;> rfl
  note _ _ _ := .of_eq rfl
  update _ _ _ := .of_eq rfl
  queue _ _ _ := .of_eq rfl
  submit _ _ _ _ _ := .of_eq rfl

theorem without_settleCourse (x : Nat) {r : Engine × Move Stage} (bypasses : r.1.Bypasses gone) :
    settleCourse x (withoutIn gone r) = (settleCourse x r).without gone := by
  unfold settleCourse withoutIn
  dsimp only
  rw [without_updateCourse]
  exact without_handOn rfl _ bypasses

theorem without_settleDelivery (k : Nat) {r : Engine × Move DeliveryStage} (bypasses : r.1.Bypasses gone) :
    settleDelivery k (withoutIn gone r) = (settleDelivery k r).without gone :=
  without_handOn (e := { r.1 with deliveries := r.1.deliveries.modify k ({ · with life := lifeAfter r.2 }) }) rfl r.2
    bypasses

theorem without_settleCaller (k : Nat) {r : Engine × Move CallerStage} (bypasses : r.1.Bypasses gone) :
    settleCaller k (withoutIn gone r) = (settleCaller k r).without gone :=
  without_handOn (e := { r.1 with callers := r.1.callers.modify k ({ · with life := lifeAfter r.2 }) }) rfl r.2 bypasses

theorem without_settleJoiner (k : Nat) {r : Engine × Move JoinerStage} (bypasses : r.1.Bypasses gone) :
    settleJoiner k (withoutIn gone r) = (settleJoiner k r).without gone :=
  without_handOn (e := { r.1 with joiners := r.1.joiners.modify k fun _ => lifeAfter r.2 }) rfl r.2 bypasses

theorem without_settleCloser {k j : Nat} (kept : (TaskId.closer k).past gone = some (.closer j))
    {r : Engine × Move CloserStage} (bypasses : r.1.Bypasses gone) :
    settleCloser j (withoutIn gone r) = (settleCloser k r).without gone := by
  obtain ⟨_, eq, found⟩ := exists_past_closer kept
  cases eq
  -- the closer is found under its new number, and written back there
  have same : { r.1.without gone with closers := (r.1.without gone).closers.modify j fun _ => lifeAfter r.2 } =
      without gone { r.1 with closers := r.1.closers.modify k fun _ => lifeAfter r.2 } := by
    simp only [without, (found r.1.closers).2]
  unfold settleCloser withoutIn
  dsimp only
  rw [same]
  exact without_handOn kept r.2 bypasses

theorem without_move_course (bypasses : e.Bypasses gone) (x : Nat) :
    (e.without gone).move (.course x) = (e.move (.course x)).without gone := by
  have courses : (e.without gone).courses = e.courses := rfl
  unfold move
  dsimp only
  rw [courses]
  cases at_x : e.courses[x]? with
  | none => rfl
  | some c =>
    dsimp only
    cases c.life with
    | live stage interrupted =>
      cases interrupted with
      | false =>
        dsimp only
        rw [without_moveCourse]
        exact without_settleCourse x (bypasses.of_noneWaits ((noneWaits_working x).moveCourse e at_x stage))
      | true => exact without_settleCourse (r := (e, cancelCourse stage)) x bypasses
    | ended ending => rfl

theorem without_move_delivery (bypasses : e.Bypasses gone) (k : Nat) :
    (e.without gone).move (.delivery k) = (e.move (.delivery k)).without gone := by
  have deliveries : (e.without gone).deliveries = e.deliveries := rfl
  have execution : (e.without gone).execution? = e.execution? := rfl
  unfold move
  dsimp only
  rw [deliveries, execution]
  cases e.deliveries[k]? with
  | none => rfl
  | some d =>
    dsimp only
    cases d.life with
    | live stage interrupted =>
      cases interrupted with
      | false =>
        cases e.execution? d.execution with
        | none => rfl
        | some a =>
          dsimp only
          rw [without_moveDelivery]
          exact without_settleDelivery k (bypasses.of_noneWaits ((noneWaits_working _).moveDelivery e a rfl stage))
      | true => exact without_settleDelivery (r := (e, cancelDelivery stage)) k bypasses
    | ended ending => rfl

theorem without_move_caller (bypasses : e.Bypasses gone) (k : Nat) :
    (e.without gone).move (.caller k) = (e.move (.caller k)).without gone := by
  have callers : (e.without gone).callers = e.callers := rfl
  unfold move
  dsimp only
  rw [callers]
  cases e.callers[k]? with
  | none => rfl
  | some c =>
    dsimp only
    cases c.life with
    | live stage interrupted =>
      cases interrupted with
      | false =>
        dsimp only
        rw [without_moveCaller]
        exact without_settleCaller k (bypasses.of_noneWaits (moveCaller_waitsFor e k stage).1)
      | true =>
        dsimp only
        rw [without_cancelCaller]
        exact without_settleCaller k (bypasses.of_noneWaits (noneWaits_nudging.cancelCaller e stage))
    | ended ending => rfl

theorem without_move_joiner (bypasses : e.Bypasses gone) (k : Nat) :
    (e.without gone).move (.joiner k) = (e.move (.joiner k)).without gone := by
  have joiners : (e.without gone).joiners = e.joiners := rfl
  unfold move
  dsimp only
  rw [joiners]
  cases e.joiners[k]? with
  | none => rfl
  | some life =>
    cases life with
    | live stage interrupted =>
      cases interrupted with
      | false =>
        dsimp only
        rw [without_moveJoiner]
        exact without_settleJoiner k (bypasses.of_noneWaits (noneWaits_nudging.moveJoiner e stage))
      | true => exact without_settleJoiner (r := (e, .stop .canceled)) k bypasses
    | ended ending => rfl

theorem without_move_closer (bypasses : e.Bypasses gone) {k : Nat} (kept : (TaskId.closer k).past gone = some t') :
    (e.without gone).move t' = (e.move (.closer k)).without gone := by
  obtain ⟨j, rfl, found⟩ := exists_past_closer kept
  have closers : (e.without gone).closers[j]? = e.closers[k]? := (found e.closers).1
  unfold move
  dsimp only
  rw [closers]
  cases e.closers[k]? with
  | none => rfl
  | some life =>
    cases life with
    | live stage interrupted =>
      cases interrupted with
      | false =>
        dsimp only
        rw [without_moveCloser]
        exact without_settleCloser kept (bypasses.of_noneWaits (noneWaits_nudging.moveCloser e stage))
      | true => exact without_settleCloser (r := (e, .stop .canceled)) kept bypasses
    | ended ending => rfl

/-- **The move of a task** other than its caller is the same without the shutdown. -/
theorem without_move (bypasses : e.Bypasses gone) (kept : t.past gone = some t') :
    (e.without gone).move t' = (e.move t).without gone := by
  -- the numbers of all other tasks stay; only a closer may have moved up
  cases t with
  | course x =>
    cases kept
    exact without_move_course bypasses x
  | delivery k =>
    cases kept
    exact without_move_delivery bypasses k
  | caller k =>
    cases kept
    exact without_move_caller bypasses k
  | joiner k =>
    cases kept
    exact without_move_joiner bypasses k
  | closer k => exact without_move_closer bypasses kept

theorem without_cancel (x : Option Nat) (id reason : String) :
    (e.without gone).cancel x id reason = withoutIn gone (e.cancel x id reason) := by
  have courses : (e.without gone).courses = e.courses := rfl
  unfold cancel
  rw [courses]
  cases x.bind fun x => (e.courses[x]?).map fun c => (x, c) with
  | none => rfl
  | some found =>
    obtain ⟨x, c⟩ := found
    have sent : (if (!c.life.isOver) = true then ((e.without gone).setReason x reason).interrupt (.course x)
        else e.without gone) =
        (if (!c.life.isOver) = true then (e.setReason x reason).interrupt (.course x) else e).without gone := by
      rw [without_setReason, without_interrupt (t := .course x) rfl]
      split <;> rfl
    dsimp only
    split
    · rfl
    · rw [sent]
      split
      · rw [without_markCanceled]
        generalize Engine.markCanceled _ x c.execution reason = marked
        obtain ⟨e₁, told⟩ := marked
        cases told with
        | error f => rfl
        | ok told =>
          obtain ⟨event, reaction⟩ := told
          cases reaction <;> rfl
      · rfl

theorem without_cancelJoin (bypasses : e.Bypasses gone) (k : Nat) :
    (e.without gone).cancelJoin k = (e.cancelJoin k).without gone := by
  have awaited : (e.without gone).awaited (.joiner k) = e.awaited (.joiner k) := by
    unfold Engine.awaited
    rw [show (e.without gone).waits = e.waits.filterMap (waitPast gone) from rfl, lookup_waitPast (t := .joiner k) _ rfl]
  have kept : ∀ t ∈ e.awaited (.joiner k), t.past gone = some t := by
    intro t mem
    unfold Engine.awaited at mem
    split at mem
    · next ids due found =>
      obtain ⟨before, after, waits, -⟩ := List.lookup_eq_some_iff.mp found
      exact bypasses (.joiner k, .tasks ids due) (by rw [waits]; simp) ids due rfl t mem
    · cases mem
  have live : ((e.without gone).awaited (.joiner k)).filter (fun t => !(e.without gone).isOver t) =
      (e.awaited (.joiner k)).filter fun t => !e.isOver t := by
    rw [awaited]
    exact List.filter_congr fun t mem => by rw [isOver_without (kept t mem)]
  unfold cancelJoin
  rw [live]
  split
  · exact without_interrupt rfl
  · rw [without_interruptAll fun t mem => kept t (List.mem_of_mem_filter mem), without_flag (t := .joiner k) rfl]

/-- Another shutdown that begins. -/
theorem without_beginShutdown (known : gone < e.closers.length) (timeout : Option Rat) :
    (e.without gone).beginShutdown timeout = (e.beginShutdown timeout).without gone := by
  have fewer : (e.closers.eraseIdx gone).length = e.closers.length - 1 := List.length_eraseIdx_of_lt known
  simp only [beginShutdown, without, List.eraseIdx_append_of_lt_length known, fewer, Option.bind_some,
    TaskId.past_of_gt known]

/-- **A deed of the host** is the same without the shutdown. -/
theorem without_undergo (bypasses : e.Bypasses gone) (known : gone < e.closers.length) (deed : Deed) :
    (e.without gone).undergo deed = (e.undergo deed).without gone := by
  cases deed with
  | start workflow initial =>
    dsimp only [undergo, start]
    cases State.freeze initial with
    | error f => rfl
    | ok state => exact without_submit _
  | run workflow initial => simp [undergo, run, without, List.filterMap_append, TaskId.past]
  | cancel x id reason => exact congrArg Prod.fst (without_cancel x id reason)
  | cancelRun k => exact without_interrupt rfl
  | join => simp [undergo, join, without, List.filterMap_append, TaskId.past]
  | cancelJoin k => exact without_cancelJoin bypasses k
  | shutdown timeout => exact without_beginShutdown known timeout
  | release slot => exact without_wake (e := { e with openGates := slot :: e.openGates }) bypasses
  | releaseBus => exact without_wake (e := { e with busOpen := true }) bypasses
  | register stepType offered =>
    have registry : (e.without gone).registry = e.registry := rfl
    dsimp only [undergo, register]
    rw [registry]
    cases e.registry.offer stepType offered <;> rfl
  | unregister stepType => rfl
  | pass time =>
    dsimp only [undergo]
    rw [without_clock]
    split
    · exact without_wake (e := { e with clock := time }) bypasses
    · rfl

end Acts

end Engine

end Stepflow
