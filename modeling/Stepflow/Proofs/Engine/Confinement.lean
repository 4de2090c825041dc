import Stepflow.Proofs.Engine.Threading

/-!
# Stepflow.Proofs.Engine.Confinement — what lies too deep does nothing

Nothing is assumed about the event bus or about names here, so the moves are opened once more where they matter.

* `Refuses`: how far the body of an execution that lies too deep has come, by where its task stands.  It announces its start,
  finds that it lies too deep, and fails; `Stunted`: it has no records, no children and the state it began with.
* `Engine.Confined`: an execution lies at most one deeper than the settings allow, is stunted there, and no resolver is
  called for it.
* `moveCourse_stunted`: what a move of an execution that lies too deep does.  `confined_working`: every other move keeps to
  what is confined, since a child lies one deeper than the execution that spawns it.
* `Reachable.confined`: so it is in every state that an engine can be in.
-/

namespace Stepflow

/-! ## Executions that lie too deep -/

/-- The execution was canceled, or failed since it lies too deep. -/
def Execution.Dismissed (a : Execution) (maxDepth : Int) : Prop := a.status = .canceled ∨ a.FailedAtDepth maxDepth

/-- How far the body of an execution that lies too deep has come, by where its task stands. -/
def Refuses (maxDepth : Int) (a : Execution) : Life Stage → Prop
  | .live .opening _ => a.status = .idle ∨ a.status = .canceled
  | .live .admitted _ => a.status = .running
  | .live (.refusing event last) _ =>
    a.status = .running ∧ event.name = "workflow.started" ∧ last = false ∨ a.Dismissed maxDepth
  | .live .canceling _ => a.status = .running ∨ a.Dismissed maxDepth
  | .live .closing _ | .live (.leaving _) _ => a.Dismissed maxDepth
  | .live _ _ => False
  | .over ending => a.status = .idle ∨ a.Dismissed maxDepth ∨
      a.status = .running ∧ (ending = .failed (.busRejected "workflow.started") ∨ ∃ f, a.names = .error f)

/-- An execution that lies too deep has got nowhere. -/
structure Stunted (maxDepth : Int) (c : Course) : Prop where
  history : c.execution.history = []
  children : c.execution.children = []
  state : c.execution.state = c.execution.initialState
  step : c.execution.currentStep = none
  refuses : Refuses maxDepth c.execution c.life

section Stunted

variable {maxDepth : Int} {a : Execution} {c c' : Course}

theorem Stunted.fresh (unbegun : a.Unbegun) : Stunted maxDepth (.fresh a) :=
  ⟨unbegun.history_eq, unbegun.children_eq, unbegun.state_eq, by rw [unbegun]; rfl, .inl unbegun.status_eq⟩

theorem Refuses.interrupt {life : Life Stage} (h : Refuses maxDepth a life) : Refuses maxDepth a life.interrupt := by
  cases life with
  | live stage interrupted => cases stage <;> exact h
  | ended ending => exact h

/-- A cancellation ends the task or comes through. -/
theorem Refuses.cancel {stage : Stage} {interrupted : Bool} (h : Refuses maxDepth a (.live stage interrupted)) :
    Refuses maxDepth a (Engine.lifeAfter (Engine.cancelCourse stage)) := by
  cases stage with
  | opening =>
    rcases h with idle | canceled
    · exact .inl idle
    · exact .inr (.inl (.inl canceled))
  | admitted => exact .inl h
  | refusing event last =>
    cases last with
    | false =>
      rcases h with ⟨running, -, -⟩ | dismissed
      · exact .inl running
      · exact .inr dismissed
    | true =>
      rcases h with ⟨-, -, last⟩ | dismissed
      · cases last
      · exact .inr (.inl dismissed)
  | canceling => exact h
  | closing => exact .inr h
  | leaving passOn => exact .inr (.inl h)
  | reaching | calling | holding | handled | finishing | spawning | completing | unrecovered => exact h.elim

/-- A task that has not begun, or is over, may find its execution marked as canceled. -/
theorem Refuses.marked {b : Execution} {life : Life Stage} (h : Refuses maxDepth a life)
    (outside : a.status = .idle ∨ life.isOver = true) (canceled : b.status = .canceled) : Refuses maxDepth b life := by
  cases life with
  | ended ending => exact .inr (.inl (.inl canceled))
  | live stage interrupted =>
    have idle : a.status = .idle := by simpa [Life.isOver] using outside
    have undismissed : ¬ a.Dismissed maxDepth := by
      rintro (status | ⟨status, -⟩) <;> simp [idle] at status
    cases stage with
    | opening => exact .inr canceled
    | admitted => exact absurd (idle.symm.trans h) (by decide)
    | refusing => exact absurd h (by simp [Refuses, idle, undismissed])
    | canceling => exact absurd h (by simp [Refuses, idle, undismissed])
    | closing | leaving => exact absurd h undismissed
    | reaching | calling | holding | handled | finishing | spawning | completing | unrecovered => exact h.elim

/-- Signals leave an execution that lies too deep as it is. -/
theorem Stunted.signaled (h : Stunted maxDepth c) (signaled : Signaled c c') : Stunted maxDepth c' := by
  obtain ⟨execution, -, life, -⟩ := signaled
  refine ⟨execution ▸ h.history, execution ▸ h.children, execution ▸ h.state, execution ▸ h.step, ?_⟩
  rw [execution]
  rcases life with eq | eq <;> rw [eq]
  · exact h.refuses
  · exact h.refuses.interrupt

end Stunted

namespace Engine

/-! ## What changes one execution -/

/-- From `e` to `e'` only execution number `x` is different, and no call is made. -/
structure Recasts (e : Engine) (x : Nat) (c : Course) (e' : Engine) : Prop where
  courses : e'.courses = e.courses.set x c
  calls : e'.calls = e.calls
  deliveries : e'.deliveries = e.deliveries
  settings : e'.settings = e.settings

section Recasts

variable {e e' : Engine} {x : Nat} {c d : Course}

theorem Recasts.refl (at_x : e.courses[x]? = some c) : e.Recasts x c e := ⟨(set_self at_x).symm, rfl, rfl, rfl⟩

theorem Recasts.updateCourse (h : e.Recasts x d e') (at_x : e.courses[x]? = some c) (f : Course → Course) :
    e.Recasts x (f d) (e'.updateCourse x f) := by
  refine ⟨?_, h.calls, h.deliveries, h.settings⟩
  have at_x' : e'.courses[x]? = some d := by rw [h.courses]; exact set_getElem? at_x
  rw [Engine.updateCourse, modify_eq_set at_x', h.courses, List.set_set]

theorem Recasts.update (h : e.Recasts x d e') (at_x : e.courses[x]? = some c) (f : Execution → Execution) :
    e.Recasts x { d with execution := f d.execution } (e'.update x f) :=
  h.updateCourse at_x fun c => { c with execution := f c.execution }

theorem Recasts.report (h : e.Recasts x d e') (level : Level) (message : String) :
    e.Recasts x d (e'.report level message) :=
  ⟨h.courses, h.calls, h.deliveries, h.settings⟩

theorem Recasts.announce (h : e.Recasts x d e') (event : Lifecycle) : e.Recasts x d (e'.announce event).1 := by
  unfold Engine.announce
  split
  · exact h
  · exact ⟨h.courses, h.calls, h.deliveries, h.settings⟩

theorem Recasts.handOn {σ : Type} (h : e.Recasts x d e') (t : TaskId) (m : Move σ) : e.Recasts x d (e'.handOn t m) := by
  exact ⟨(handOn_courses e' t m).trans h.courses, (handOn_calls e' t m).trans h.calls,
    (handOn_deliveries e' t m).trans h.deliveries, (handOn_settings e' t m).trans h.settings⟩

theorem Recasts.settle (h : e.Recasts x d e') (at_x : e.courses[x]? = some c) (m : Move Stage) :
    ∃ reason, e.Recasts x { d with life := lifeAfter m, reason := reason } (settleCourse x (e', m)) := by
  have settled : e.Recasts x _ (settleCourse x (e', m)) := (h.updateCourse at_x _).handOn (.course x) m
  exact ⟨_, settled⟩

theorem fail_recasts (at_x : e.courses[x]? = some c) (execution : Execution) (error : Failure) :
    e.Recasts x { c with execution := c.execution.endWith e.clock .failed error } (e.fail x execution error).1 :=
  (((Recasts.refl at_x).update at_x (·.endWith e.clock .failed error)).report _ _).announce _

/-- An execution is marked as canceled whether or not its path can be written. -/
theorem markCanceled_recasts (h : e.Recasts x d e') (at_x : e.courses[x]? = some c) (execution : Execution)
    (reason : String) : ∃ a, e.Recasts x { d with execution := a } (e'.markCanceled x execution reason).1 ∧
      a.origin = d.execution.origin ∧ a.status = .canceled ∧ a.history = d.execution.history ∧
      a.children = d.execution.children ∧ a.state = d.execution.state ∧ a.currentStep = d.execution.currentStep := by
  have marked := h.update at_x ({ · with status := .canceled })
  unfold markCanceled
  dsimp only
  split
  · rename_i place error _ _
    exact ⟨_, ((marked.update at_x (·.endWith e'.clock .canceled error)).report _ _).announce _, rfl, rfl, rfl, rfl, rfl, rfl⟩
  · exact ⟨_, marked, rfl, rfl, rfl, rfl, rfl, rfl⟩
  · exact ⟨_, marked, rfl, rfl, rfl, rfl, rfl, rfl⟩

end Recasts

/-! ## Moves of executions that lie too deep -/

section Deep

variable {e : Engine} {x : Nat} {c : Course} {stage : Stage}

/-- Where a task goes on after an announcement, an execution that is dismissed stays so. -/
theorem refuses_of_dismissed {maxDepth : Int} {a : Execution} (dismissed : a.Dismissed maxDepth) {next : Stage}
    (outer : next = .closing ∨ ∃ passOn, next = .leaving passOn) (event : Lifecycle) (last : Bool) (reaction : Reaction) :
    Refuses maxDepth a (lifeAfter (reaction.move event next (.refusing event last))) := by
  cases reaction with
  | accept | hold => obtain rfl | ⟨passOn, rfl⟩ := outer <;> exact dismissed
  | reject => exact .inr (.inl dismissed)
  | holdReject => exact .inr dismissed

theorem begin_stunted (at_x : e.courses[x]? = some c) (stunted : Stunted e.settings.maxDepth c) :
    ∃ a, e.Recasts x { c with execution := a } (e.begin x c.execution).1 ∧ a.origin = c.execution.origin ∧
      ∀ reason, Stunted e.settings.maxDepth ⟨a, c.scheduled, lifeAfter (e.begin x c.execution).2, reason⟩ := by
  have started := ((Recasts.refl at_x).update at_x ({ · with status := .running })).announce (.started x c.execution.path)
  refine ⟨_, started, rfl, fun reason => ⟨stunted.history, stunted.children, stunted.state, stunted.step, ?_⟩⟩
  unfold begin
  dsimp only
  cases (Engine.announce _ _).2 with
  | accept | hold => exact rfl
  | reject => exact .inr (.inr ⟨rfl, .inl rfl⟩)
  | holdReject => exact .inl ⟨rfl, rfl, rfl⟩

/-- An execution whose path can be written fails when it finds that it lies too deep. -/
theorem checkDepth_recasts (at_x : e.courses[x]? = some c) (deep : e.settings.maxDepth < c.execution.depth)
    {names : List String} (names_eq : c.execution.names = .ok names) : ∃ a,
      e.Recasts x { c with execution := a } (e.checkDepth x c.execution).1 ∧ a.origin = c.execution.origin ∧
      a.FailedAtDepth e.settings.maxDepth ∧ a.history = c.execution.history ∧ a.children = c.execution.children ∧
      a.state = c.execution.state ∧ a.currentStep = c.execution.currentStep := by
  let error := Execution.depthError e.settings.maxDepth names
  have failed : (c.execution.endWith e.clock .failed error).FailedAtDepth e.settings.maxDepth :=
    ⟨rfl, deep, names, path_of_pathTexts names_eq, rfl⟩
  unfold checkDepth
  rw [if_pos deep]
  simp only [Execution.failure, names_eq, Except.map, Option.map_none]
  exact ⟨_, fail_recasts at_x _ error, rfl, failed, rfl, rfl, rfl, rfl⟩

theorem checkDepth_stunted (at_x : e.courses[x]? = some c) (deep : e.settings.maxDepth < c.execution.depth)
    (stunted : Stunted e.settings.maxDepth c) (running : c.execution.status = .running) :
    ∃ a, e.Recasts x { c with execution := a } (e.checkDepth x c.execution).1 ∧ a.origin = c.execution.origin ∧
      ∀ reason, Stunted e.settings.maxDepth ⟨a, c.scheduled, lifeAfter (e.checkDepth x c.execution).2, reason⟩ := by
  cases names_eq : c.execution.names with
  | error f =>
    have stays : e.checkDepth x c.execution = (e, .stop (.failed f)) := by
      unfold checkDepth
      rw [if_pos deep]
      simp only [Execution.failure, names_eq, Except.map]
    rw [stays]
    refine ⟨c.execution, .refl at_x, rfl, fun reason => ?_⟩
    exact ⟨stunted.history, stunted.children, stunted.state, stunted.step, .inr (.inr ⟨running, .inr ⟨f, names_eq⟩⟩)⟩
  | ok names =>
    obtain ⟨a, recasts, origin, failed, history, children, state, step⟩ := checkDepth_recasts at_x deep names_eq
    refine ⟨a, recasts, origin, fun reason => ⟨history.trans stunted.history, children.trans stunted.children, ?_,
      step.trans stunted.step, ?_⟩⟩
    · rw [Execution.initialState_eq origin]
      exact state.trans stunted.state
    · unfold checkDepth
      rw [if_pos deep]
      simp only [Execution.failure, names_eq, Except.map]
      exact refuses_of_dismissed (.inr failed) (.inl rfl) _ _ _

theorem acknowledge_stunted (at_x : e.courses[x]? = some c) (stunted : Stunted e.settings.maxDepth c)
    (refuses : c.execution.status = .running ∨ c.execution.Dismissed e.settings.maxDepth) :
    ∃ a, e.Recasts x { c with execution := a } (e.acknowledge x c.execution).1 ∧ a.origin = c.execution.origin ∧
      ∀ reason, Stunted e.settings.maxDepth ⟨a, c.scheduled, lifeAfter (e.acknowledge x c.execution).2, reason⟩ := by
  unfold acknowledge
  dsimp only
  split
  · rename_i finished
    refine ⟨c.execution, .refl at_x, rfl, fun reason => ⟨stunted.history, stunted.children, stunted.state, stunted.step, ?_⟩⟩
    rcases refuses with running | dismissed
    · simp [Execution.isFinished, running, Status.isFinished] at finished
    · exact dismissed
  · obtain ⟨a, recasts, origin, status, history, children, state, step⟩ := markCanceled_recasts (.refl at_x) at_x c.execution
      (if ((e.reason? x).getD callerReason).isEmpty then callerReason else (e.reason? x).getD callerReason)
    have still (life : Life Stage) (reason : Option String) (refuses : Refuses e.settings.maxDepth a life) :
        Stunted e.settings.maxDepth ⟨a, c.scheduled, life, reason⟩ := by
      refine ⟨history.trans stunted.history, children.trans stunted.children, ?_, step.trans stunted.step, refuses⟩
      rw [Execution.initialState_eq origin]
      exact state.trans stunted.state
    split <;> rename_i eq <;> rw [eq] at recasts
    · exact ⟨a, recasts, origin, fun reason => still _ _ (.inr (.inl (.inl status)))⟩
    · exact ⟨a, recasts, origin, fun reason => still _ _ (refuses_of_dismissed (.inl status) (.inr ⟨_, rfl⟩) _ _ _)⟩

/-- **A move of an execution that lies too deep** changes nothing but its status and its error. -/
theorem moveCourse_stunted (at_x : e.courses[x]? = some c) (deep : e.settings.maxDepth < c.execution.depth)
    (stunted : Stunted e.settings.maxDepth c) (life : c.life = .live stage false) :
    ∃ a, e.Recasts x { c with execution := a } (e.moveCourse x c stage).1 ∧ a.origin = c.execution.origin ∧
      ∀ reason, Stunted e.settings.maxDepth ⟨a, c.scheduled, lifeAfter (e.moveCourse x c stage).2, reason⟩ := by
  have refuses := stunted.refuses
  rw [life] at refuses
  have stops (ending : Ending) (refuses : Refuses e.settings.maxDepth c.execution (.over ending)) (reason : Option String) :
      Stunted e.settings.maxDepth ⟨c.execution, c.scheduled, .over ending, reason⟩ :=
    ⟨stunted.history, stunted.children, stunted.state, stunted.step, refuses⟩
  cases stage with
  | opening => exact begin_stunted at_x stunted
  | admitted => exact checkDepth_stunted at_x deep stunted refuses
  | canceling => exact acknowledge_stunted at_x stunted refuses
  | closing => exact ⟨c.execution, .refl at_x, rfl, stops _ (.inr (.inl refuses))⟩
  | leaving passOn => exact ⟨c.execution, .refl at_x, rfl, stops _ (.inr (.inl refuses))⟩
  | refusing event last =>
    refine ⟨c.execution, .refl at_x, rfl, stops _ ?_⟩
    rcases refuses with ⟨running, name, -⟩ | dismissed
    · exact .inr (.inr ⟨running, .inl (by rw [name])⟩)
    · exact .inr (.inl dismissed)
  | reaching | calling | holding | handled | finishing | spawning | completing | unrecovered => exact refuses.elim

end Deep

/-! ## Engines -/

/-- An execution lies no deeper than the settings allow. -/
def Shallow (e : Engine) (x : Nat) : Prop :=
  ∃ c, e.courses[x]? = some c ∧ (c.execution.depth : Int) ≤ e.settings.maxDepth

/-- No execution lies deeper than one below the greatest depth; those that lie there are stunted, and no resolver is called
for them. -/
structure Confined (e : Engine) : Prop where
  depth : ∀ c ∈ e.courses, (c.execution.depth : Int) ≤ max 0 (e.settings.maxDepth + 1)
  stunted : ∀ c ∈ e.courses, e.settings.maxDepth < c.execution.depth → Stunted e.settings.maxDepth c
  calls : ∀ n ∈ e.calls, e.Shallow n.execution
  deliveries : ∀ d ∈ e.deliveries, e.Shallow d.execution

section Confined

variable {e e' : Engine} {x : Nat} {c c' : Course}

theorem Shallow.mono (h : e.Shallow x) (settings : e'.settings = e.settings)
    (courses : ∀ c, e.courses[x]? = some c → ∃ c', e'.courses[x]? = some c' ∧ c'.execution.depth = c.execution.depth) :
    e'.Shallow x := by
  obtain ⟨c, at_x, shallow⟩ := h
  obtain ⟨c', at_x', depth⟩ := courses c at_x
  exact ⟨c', at_x', by rw [depth, settings]; exact shallow⟩

theorem Confined.signals (h : e.Confined) (signals : Signals e e') : e'.Confined := by
  have back (c' : Course) (mem : c' ∈ e'.courses) : ∃ c ∈ e.courses, Signaled c c' := by
    obtain ⟨y, at_y'⟩ := List.mem_iff_getElem?.mp mem
    have lt : y < e.courses.length := by
      rw [← signals.courses.1]
      exact (List.getElem?_eq_some_iff.mp at_y').1
    obtain ⟨d, at_y, signaled⟩ := signals.courses.2 y _ (List.getElem?_eq_getElem lt)
    obtain rfl : d = c' := Option.some.inj (at_y.symm.trans at_y')
    exact ⟨_, List.getElem_mem lt, signaled⟩
  have shallow (y : Nat) (h : e.Shallow y) : e'.Shallow y := by
    refine h.mono signals.settings fun c at_y => ?_
    obtain ⟨c', at_y', signaled⟩ := signals.courses.2 y c at_y
    exact ⟨c', at_y', by rw [signaled.execution]⟩
  refine ⟨fun c' mem => ?_, fun c' mem deep => ?_, fun n mem => ?_, fun d' mem => ?_⟩
  · obtain ⟨c, mem, signaled⟩ := back c' mem
    rw [signaled.execution, signals.settings]
    exact h.depth c mem
  · obtain ⟨c, mem, signaled⟩ := back c' mem
    rw [signaled.execution, signals.settings] at deep
    rw [signals.settings]
    exact (h.stunted c mem deep).signaled signaled
  · rw [signals.calls] at mem
    exact shallow _ (h.calls n mem)
  · obtain ⟨k, at_k'⟩ := List.mem_iff_getElem?.mp mem
    have lt : k < e.deliveries.length := by
      rw [← signals.deliveries.1]
      exact (List.getElem?_eq_some_iff.mp at_k').1
    obtain ⟨d, at_k, signaled⟩ := signals.deliveries.2 k _ (List.getElem?_eq_getElem lt)
    obtain rfl : d = d' := Option.some.inj (at_k.symm.trans at_k')
    have for_y := h.deliveries _ (List.getElem_mem lt)
    rcases signaled with rfl | rfl <;> exact shallow _ for_y

theorem Confined.of_eq (h : e.Confined) (courses : e'.courses = e.courses) (calls : e'.calls = e.calls)
    (deliveries : e'.deliveries = e.deliveries) (settings : e'.settings = e.settings) : e'.Confined := by
  have shallow (y : Nat) (h : e.Shallow y) : e'.Shallow y :=
    h.mono settings fun c at_y => ⟨c, by rw [courses]; exact at_y, rfl⟩
  constructor
  · rw [courses, settings]
    exact h.depth
  · rw [courses, settings]
    exact h.stunted
  · rw [calls]
    exact fun n mem => shallow _ (h.calls n mem)
  · rw [deliveries]
    exact fun d mem => shallow _ (h.deliveries d mem)

/-- An execution may change as long as it stays stunted where it lies too deep. -/
theorem Confined.recasts (h : e.Confined) (at_x : e.courses[x]? = some c) (recasts : e.Recasts x c' e')
    (origin : c'.execution.origin = c.execution.origin)
    (stunted : e.settings.maxDepth < c.execution.depth → Stunted e.settings.maxDepth c') : e'.Confined := by
  obtain ⟨courses, calls, deliveries, settings⟩ := recasts
  have depth := Execution.depth_eq origin
  -- only execution number `x` is another one than before
  have old (d : Course) (mem : d ∈ e'.courses) : d = c' ∨ d ∈ e.courses := by
    rw [courses] at mem
    exact (List.mem_or_eq_of_mem_set mem).symm
  have shallow (y : Nat) (h : e.Shallow y) : e'.Shallow y := by
    refine h.mono settings fun d at_y => ?_
    rw [courses]
    by_cases same : x = y
    · subst same
      obtain rfl : c = d := Option.some.inj (at_x.symm.trans at_y)
      exact ⟨c', set_getElem? at_x, depth⟩
    · exact ⟨d, by rw [List.getElem?_set_ne same]; exact at_y, rfl⟩
  refine ⟨fun d mem => ?_, fun d mem deep => ?_, fun n mem => ?_, fun d mem => ?_⟩
  · rw [settings]
    rcases old d mem with rfl | mem
    · rw [depth]
      exact h.depth c (List.mem_of_getElem? at_x)
    · exact h.depth d mem
  · rw [settings] at deep ⊢
    rcases old d mem with rfl | mem
    · rw [depth] at deep
      exact stunted deep
    · exact h.stunted d mem deep
  · rw [calls] at mem
    exact shallow _ (h.calls n mem)
  · rw [deliveries] at mem
    exact shallow _ (h.deliveries d mem)

theorem submit_shallow (a : Execution) (h : e.Shallow x) : (e.submit a).Shallow x :=
  h.mono rfl fun c at_x => ⟨c, (List.getElem?_append_left (List.getElem?_eq_some_iff.mp at_x).1).trans at_x, rfl⟩

theorem Confined.submit (h : e.Confined) {a : Execution} (unbegun : a.Unbegun)
    (depth : (a.depth : Int) ≤ max 0 (e.settings.maxDepth + 1)) : (e.submit a).Confined := by
  have old (d : Course) (mem : d ∈ (e.submit a).courses) : d = .fresh a ∨ d ∈ e.courses := by
    rcases List.mem_append.mp mem with mem | mem
    · exact .inr mem
    · exact .inl (List.mem_singleton.mp mem)
  refine ⟨fun d mem => ?_, fun d mem deep => ?_, fun n mem => submit_shallow a (h.calls n mem),
    fun d mem => submit_shallow a (h.deliveries d mem)⟩
  · rcases old d mem with rfl | mem
    · exact depth
    · exact h.depth d mem
  · rcases old d mem with rfl | mem
    · exact .fresh unbegun
    · exact h.stunted d mem deep

/-- What keeps to the settings and to what executions are of the same depth keeps an execution shallow. -/
theorem updateCourse_shallow {f : Course → Course} (hf : ∀ c, (f c).execution.origin = c.execution.origin) {y : Nat}
    (h : e.Shallow y) : (e.updateCourse x f).Shallow y := by
  refine h.mono rfl fun c at_y => ?_
  simp only [updateCourse, List.getElem?_modify, at_y]
  by_cases same : x = y
  · exact ⟨f c, by simp [same], Execution.depth_eq (hf c)⟩
  · exact ⟨c, by simp [same], rfl⟩

/-- **Moves of executions that do not lie too deep** keep to what is confined. -/
theorem confined_working (x : Nat) :
    Working x fun e e' => e.Confined ∧ e.Shallow x → e'.Confined ∧ e'.Shallow x where
  refl _ := id
  trans h h' := h' ∘ h
  report _ _ _ h := ⟨h.1.of_eq rfl rfl rfl rfl, h.2⟩
  take e r h := by cases r <;> exact ⟨h.1.of_eq rfl rfl rfl rfl, h.2⟩
  announce e event h := by
    unfold announce
    split
    · exact h
    · exact ⟨h.1.of_eq rfl rfl rfl rfl, h.2⟩
  note e n about h := by
    refine ⟨⟨h.1.depth, h.1.stunted, fun m mem => ?_, h.1.deliveries⟩, h.2⟩
    rcases List.mem_append.mp mem with mem | mem
    · exact h.1.calls m mem
    · rw [List.mem_singleton.mp mem, about]
      exact h.2
  -- an execution that is not too deep may change in any way, since nothing is asked of it
  update e f hf h := by
    obtain ⟨confined, c, at_x, shallow⟩ := h
    have recasts := (Recasts.refl at_x).updateCourse at_x f
    exact ⟨confined.recasts at_x recasts (hf c) fun deep => absurd deep (by omega),
      updateCourse_shallow hf ⟨c, at_x, shallow⟩⟩
  queue e d for_x h := by
    refine ⟨⟨h.1.depth, h.1.stunted, h.1.calls, fun d' mem => ?_⟩, h.2⟩
    rcases List.mem_append.mp mem with mem | mem
    · exact h.1.deliveries d' mem
    · rw [List.mem_singleton.mp mem, for_x]
      exact h.2
  submit e c workflow position at_x h := by
    obtain ⟨confined, d, at_x', shallow⟩ := h
    obtain rfl : c = d := Option.some.inj (at_x.symm.trans at_x')
    refine ⟨confined.submit rfl ?_, submit_shallow _ ⟨c, at_x, shallow⟩⟩
    have deeper : (c.execution.child e.clock x workflow position).depth = c.execution.depth + 1 := rfl
    omega

/-! ## Acts -/

theorem handOn_confined {σ : Type} (h : e.Confined) (t : TaskId) (m : Move σ) : (e.handOn t m).Confined :=
  h.of_eq (handOn_courses e t m) (handOn_calls e t m) (handOn_deliveries e t m) (handOn_settings e t m)

theorem settleDelivery_confined (h : e.Confined) (k : Nat) (m : Move DeliveryStage) :
    (settleDelivery k (e, m)).Confined := by
  have modified : ({ e with deliveries := e.deliveries.modify k ({ · with life := lifeAfter m }) } : Engine).Confined := by
    refine ⟨h.depth, h.stunted, h.calls, fun d mem => ?_⟩
    obtain ⟨j, at_j⟩ := List.mem_iff_getElem?.mp mem
    rw [List.getElem?_modify] at at_j
    cases before : e.deliveries[j]? with
    | none => simp [before] at at_j
    | some d₀ =>
      have for_y := h.deliveries d₀ (List.mem_of_getElem? before)
      by_cases same : k = j <;> simp [before, same] at at_j <;> subst at_j <;> exact for_y
  exact handOn_confined modified (.delivery k) m

theorem moveCaller_confined (h : e.Confined) (k : Nat) (stage : CallerStage) : (e.moveCaller k stage).1.Confined := by
  cases stage with
  | entering workflow initial =>
    dsimp only [moveCaller]
    split
    · exact h
    · rename_i state _
      exact (h.submit (a := .root e.clock workflow state) rfl (Int.le_max_left 0 _)).of_eq rfl rfl rfl rfl
  | awaiting | surrendering => exact h

theorem settleCaller_confined {r : Engine × Move CallerStage} (h : r.1.Confined) (k : Nat) :
    (settleCaller k r).Confined := by
  unfold settleCaller
  refine handOn_confined ?_ _ _
  exact h.of_eq rfl rfl rfl rfl

theorem settleJoiner_confined {r : Engine × Move JoinerStage} (h : r.1.Confined) (k : Nat) :
    (settleJoiner k r).Confined := by
  unfold settleJoiner
  refine handOn_confined ?_ _ _
  exact h.of_eq rfl rfl rfl rfl

theorem settleCloser_confined {r : Engine × Move CloserStage} (h : r.1.Confined) (k : Nat) :
    (settleCloser k r).Confined := by
  unfold settleCloser
  refine handOn_confined ?_ _ _
  exact h.of_eq rfl rfl rfl rfl

/-- The task of an execution moves, whether it lies too deep or not. -/
theorem Confined.moveCourse (h : e.Confined) (at_x : e.courses[x]? = some c) {stage : Stage}
    (life : c.life = .live stage false) : (settleCourse x (e.moveCourse x c stage)).Confined := by
  by_cases deep : e.settings.maxDepth < c.execution.depth
  · have stunted := h.stunted c (List.mem_of_getElem? at_x) deep
    obtain ⟨a, recasts, origin, after⟩ := moveCourse_stunted at_x deep stunted life
    obtain ⟨reason, settled⟩ := recasts.settle at_x (e.moveCourse x c stage).2
    exact h.recasts at_x settled origin fun _ => after reason
  · obtain ⟨confined, shallow⟩ := (confined_working x).moveCourse e at_x stage ⟨h, c, at_x, by omega⟩
    refine handOn_confined ((confined_working x).update _ _ ?_ ⟨confined, shallow⟩).1 _ _
    exact fun _ => rfl

/-- A cancellation that has reached a task leads where its stage says. -/
theorem Confined.cancelCourse (h : e.Confined) (at_x : e.courses[x]? = some c) {stage : Stage} {interrupted : Bool}
    (life : c.life = .live stage interrupted) : (settleCourse x (e, Engine.cancelCourse stage)).Confined := by
  obtain ⟨reason, settled⟩ := (Recasts.refl at_x).settle at_x (Engine.cancelCourse stage)
  refine h.recasts at_x settled rfl fun deep => ?_
  obtain ⟨history, children, state, step, refuses⟩ := h.stunted c (List.mem_of_getElem? at_x) deep
  rw [life] at refuses
  exact ⟨history, children, state, step, refuses.cancel⟩

theorem Confined.moveDelivery (h : e.Confined) {k : Nat} {d : Delivery} (at_k : e.deliveries[k]? = some d)
    (execution : Execution) (stage : DeliveryStage) : (settleDelivery k (e.moveDelivery d execution stage)).Confined := by
  have shallow := h.deliveries d (List.mem_of_getElem? at_k)
  obtain ⟨confined, -⟩ := (confined_working d.execution).moveDelivery e execution rfl stage ⟨h, shallow⟩
  exact settleDelivery_confined confined k _

/-- Whoever has its turn. -/
theorem Confined.move (h : e.Confined) (t : TaskId) : (e.move t).Confined := by
  have idle : ({ e with current := none } : Engine).Confined := h.of_eq rfl rfl rfl rfl
  cases t with
  | course x =>
    dsimp only [Engine.move]
    split
    · rename_i at_x
      split
      · rename_i life
        exact h.moveCourse at_x life
      · rename_i life
        exact h.cancelCourse at_x life
      · exact idle
    · exact idle
  | delivery k =>
    dsimp only [Engine.move]
    split
    · rename_i at_k
      split
      · exact h.moveDelivery at_k _ _
      · exact settleDelivery_confined h k _
      · exact idle
    · exact idle
  | caller k =>
    dsimp only [Engine.move]
    split
    · split
      · exact settleCaller_confined (moveCaller_confined h k _) k
      · exact settleCaller_confined (h.signals (signals_nudging.cancelCaller e _)) k
      · exact idle
    · exact idle
  | joiner k =>
    dsimp only [Engine.move]
    split
    · exact settleJoiner_confined (h.signals (signals_nudging.moveJoiner e _)) k
    · exact settleJoiner_confined h k
    · exact idle
  | closer k =>
    dsimp only [Engine.move]
    split
    · exact settleCloser_confined (h.signals (signals_nudging.moveCloser e _)) k
    · exact settleCloser_confined h k
    · exact idle

/-- Canceling marks only what has not begun and what is over. -/
theorem Confined.cancel (h : e.Confined) (x : Option Nat) (id reason : String) : (e.cancel x id reason).1.Confined := by
  cases x with
  | none => exact h
  | some y =>
    cases at_y : e.courses[y]? with
    | none => simpa [Engine.cancel, at_y] using h
    | some c =>
      by_cases finished : c.execution.isFinished = true
      · simpa [Engine.cancel, at_y, finished] using h
      · have unfinished : c.execution.isFinished = false := by simpa using finished
        -- the signal changes no execution, and what is marked had not begun or is over
        have sent := h.signals (sendCancel_signals e y c reason)
        rw [cancel_eq at_y unfinished]
        split
        · rename_i outside
          obtain ⟨d, at_y', execution, -, life, -⟩ := (sendCancel_signals e y c reason).courses.2 y c at_y
          obtain ⟨a, recasts, origin, canceled, history, children, state, step⟩ :=
            markCanceled_recasts (.refl at_y') at_y' c.execution reason
          refine sent.recasts at_y' recasts origin fun deep => ?_
          have stunted := sent.stunted d (List.mem_of_getElem? at_y') deep
          refine ⟨history.trans stunted.history, children.trans stunted.children, ?_, step.trans stunted.step, ?_⟩
          · rw [Execution.initialState_eq (a := a) origin]
            exact state.trans stunted.state
          · refine stunted.refuses.marked ?_ canceled
            rw [execution]
            refine outside.imp_right fun ceased => ?_
            rcases life with eq | eq <;> rw [eq]
            · exact ceased
            · rw [Life.isOver_interrupt]
              exact ceased
        · exact sent

theorem Confined.undergo (h : e.Confined) (deed : Deed) : (e.undergo deed).Confined := by
  cases deed with
  | start workflow initial =>
    dsimp only [Engine.undergo, start]
    cases State.freeze initial with
    | error f => exact h
    | ok state => exact h.submit rfl (Int.le_max_left 0 _)
  | cancel x id reason => exact h.cancel x id reason
  | cancelRun k => exact h.signals (interrupt_signals e _)
  | cancelJoin k => exact h.signals (signals_nudging.cancelJoin e k)
  | register stepType offered =>
    dsimp only [Engine.undergo, register]
    split <;> exact h.of_eq rfl rfl rfl rfl
  | pass time =>
    dsimp only [Engine.undergo]
    split
    · exact h.of_eq rfl rfl rfl rfl
    · exact h
  | run | join | shutdown | release | releaseBus | unregister => exact h.of_eq rfl rfl rfl rfl

theorem Confined.act (h : e.Confined) (a : Act) : (e.act a).Confined := by
  cases a with
  | turn place =>
    dsimp only [Engine.act, turnAt]
    split
    · exact h.move _
    · split
      · exact h.of_eq rfl rfl rfl rfl
      · exact h
  | host deed =>
    dsimp only [Engine.act]
    split
    · exact h.undergo deed
    · exact h

/-- **Confinement**: in every state that an engine can be in what lies too deep is stunted. -/
theorem Reachable.confined (reachable : e.Reachable) : e.Confined := by
  obtain ⟨settings, process, bus, registry, run⟩ := reachable
  induction run with
  | refl => constructor <;> simp [Engine.fresh]
  | step _ _ confined => exact confined.act _

end Confined

end Engine

end Stepflow
