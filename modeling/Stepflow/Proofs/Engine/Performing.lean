import Stepflow.Proofs.Engine.Calling
import Stepflow.Proofs.Engine.Confluence

/-!
# Stepflow.Proofs.Engine.Performing — the calls that an execution makes

* `performedIn`: the calls of resolvers for the steps of an execution, in their order, with the resolver and the payload.
* `Conduct.callsFrom`: the calls that the interpreter makes for steps; `Conduct.callsDue`: those that it makes for an
  execution.  `Conduct.callsLeft`: those that are still to come, by the stage of the task.
* `Advance.callsLeft`: what a move performs, or leaves to a detached call, was the next of the calls to come.
* `Performs`: what has been performed and what is to come is what is due.  `Performing.act`: peaceful acts keep this as long
  as the queue is served in order, so that detached calls begin before their executions move on.
* `Paced.performed`: an execution that has ended has made the calls that the interpreter makes.
-/

namespace Stepflow

/-- A call of a resolver for a step. -/
structure Performed where
  index : Nat
  slot : Nat
  payload : Value

/-- The calls for the steps of execution number `x`, in the order in which they began. -/
def performedIn (calls : List CallNote) (x : Nat) : List Performed :=
  calls.filterMap fun
    | .begun y index slot payload => if y = x then some ⟨index, slot, payload⟩ else none
    | .ended .. => none

/-- The call that a detached call is. -/
def Delivery.performed (d : Delivery) : Performed := ⟨d.index, d.handler.slot, d.step.payload⟩

section Performed

variable {calls more : List CallNote} {x : Nat}

theorem performedIn_append (calls more : List CallNote) (x : Nat) :
    performedIn (calls ++ more) x = performedIn calls x ++ performedIn more x :=
  List.filterMap_append

theorem begunIn_eq_map (calls : List CallNote) (x : Nat) :
    begunIn calls x = (performedIn calls x).map Performed.index := by
  unfold begunIn performedIn
  rw [List.map_filterMap]
  refine List.filterMap_congr fun n _ => ?_
  cases n with
  | begun y => by_cases about : y = x <;> simp [about]
  | ended => rfl

theorem performedIn_eq_nil (h : begunIn calls x = []) : performedIn calls x = [] := by
  rw [begunIn_eq_map] at h
  exact List.map_eq_nil_iff.mp h

theorem performedIn_begun (x index slot : Nat) (payload : Value) :
    performedIn [.begun x index slot payload] x = [⟨index, slot, payload⟩] := by
  simp [performedIn]

/-- What is noted about another execution is no call for this one. -/
theorem performedIn_of_ne {y : Nat} (about : ∀ n ∈ calls, n.execution = y) (ne : y ≠ x) : performedIn calls x = [] := by
  refine performedIn_eq_nil (begunIn_eq_nil fun index slot payload mem => ne ?_)
  exact (about _ mem).symm

end Performed

/-! ## The calls that the interpreter makes -/

namespace Conduct

/-- The call for a step, if its type is bound. -/
def callFor (k : Conduct) (index : Nat) (step : Step) : List Performed :=
  match k.registry.find? step.stepType with
  | none => []
  | some handler => [⟨index, handler.slot, step.payload⟩]

/-- The state after a step, unless the step ends the workflow. -/
def follow (k : Conduct) (step : Step) (state : State) : Option State :=
  match k.resolve step with
  | .skipped _ => some state
  | .failed _ _ | .canceled => none
  | .given output _ _ => (k.process state step output).toOption.map Transition.newState

/-- The calls for the steps from `index` on. -/
def callsFrom (k : Conduct) : Nat → List Step → State → List Performed
  | _, [], _ => []
  | index, step :: rest, state =>
    k.callFor index step ++ ((k.follow step state).map fun next => k.callsFrom (index + 1) rest next).getD []

/-- The calls for the steps of an execution, unless it lies too deep. -/
def callsDue (k : Conduct) (a : Execution) : List Performed :=
  if k.settings.maxDepth < a.depth then [] else k.callsFrom 0 a.workflow.steps a.initialState

/-- The calls for the step at an index and those after it. -/
def callsAt (k : Conduct) (a : Execution) (index : Nat) : List Performed :=
  k.callsFrom index (a.workflow.steps.drop index) a.state

/-- The calls for the steps after a step. -/
def callsPast (k : Conduct) (a : Execution) (index : Nat) (step : Step) : List Performed :=
  ((k.follow step a.state).map fun next => k.callsFrom (index + 1) (a.workflow.steps.drop (index + 1)) next).getD []

/-- The calls that are still to come once the call at a stage, if there is one, has begun. -/
def callsLeft (k : Conduct) (a : Execution) : Life Stage → List Performed
  | .live .opening _ | .live .admitted _ => k.callsDue a
  | .live (.reaching index) _ => k.callsAt a index
  | .live (.calling index _ _) _ | .live (.holding index _ _ _) _ | .live (.handled index _ _ _) _ =>
    (a.workflow.steps[index]?.map (k.callsPast a index)).getD []
  | _ => []

section Calls

variable {k : Conduct} {a b : Execution} {index : Nat} {step : Step} {state : State}

theorem callsDue_congr (h : b.origin = a.origin) : k.callsDue b = k.callsDue a := by
  unfold callsDue
  rw [Execution.workflow_eq h, Execution.depth_eq h, Execution.initialState_eq h]

theorem callsAt_past (past : a.workflow.steps[index]? = none) : k.callsAt a index = [] := by
  unfold callsAt
  rw [List.drop_eq_nil_of_le (List.getElem?_eq_none_iff.mp past)]
  rfl

theorem callsAt_step (at_step : a.workflow.steps[index]? = some step) :
    k.callsAt a index = k.callFor index step ++ k.callsPast a index step := by
  unfold callsAt
  rw [drop_of_step at_step]
  rfl

theorem callFor_bound {handler : Handler} (bound : k.registry.find? step.stepType = some handler) :
    k.callFor index step = [⟨index, handler.slot, step.payload⟩] := by
  unfold callFor
  rw [bound]

theorem callFor_unbound (unbound : k.registry.find? step.stepType = none) : k.callFor index step = [] := by
  unfold callFor
  rw [unbound]

theorem callsPast_of_follow {next : State} (follow : k.follow step a.state = some next) :
    k.callsPast a index step = k.callsFrom (index + 1) (a.workflow.steps.drop (index + 1)) next := by
  unfold callsPast
  rw [follow]
  rfl

theorem callsPast_of_end (follow : k.follow step a.state = none) : k.callsPast a index step = [] := by
  unfold callsPast
  rw [follow]
  rfl

theorem follow_skipped {error : String} (resolved : k.resolve step = .skipped error) :
    k.follow step state = some state := by
  unfold follow
  rw [resolved]

theorem follow_failed {message : String} {cause : Failure} (resolved : k.resolve step = .failed message cause) :
    k.follow step state = none := by
  unfold follow
  rw [resolved]

theorem follow_canceled (resolved : k.resolve step = .canceled) : k.follow step state = none := by
  unfold follow
  rw [resolved]

theorem follow_given {output : Option Value} {status : StepStatus} {error : Option String}
    (resolved : k.resolve step = .given output status error) (state : State) :
    k.follow step state = (k.process state step output).toOption.map Transition.newState := by
  unfold follow
  rw [resolved]

end Calls

end Conduct

/-! ## Moves -/

section Moves

variable {e : Engine} {x : Nat} {c : Course} {eff : Effect} {answer : String → Value → Except Raised (Option Value)}

/-- At the stage of a step the calls for the steps after it are to come. -/
theorem Conduct.callsLeft_step {k : Conduct} {a : Execution} {index : Nat} {step : Step}
    (at_step : a.workflow.steps[index]? = some step) :
    (a.workflow.steps[index]?.map (k.callsPast a index)).getD [] = k.callsPast a index step := by
  rw [at_step]
  rfl

/-- The next step is turned to: a call begins, or is left to a detached call. -/
theorem Advance.callsLeft_reaching {index : Nat} (h : Advance e x c (.reaching index) eff) :
    performedIn eff.notes x ++ (eff.dispatched.map Delivery.performed).toList ++
      (e.conduct answer).callsLeft eff.execution (Engine.lifeAfter eff.move) =
        (e.conduct answer).callsAt c.execution index := by
  cases h with
  | exhausted past => exact (Conduct.callsAt_past past).symm
  | @unknown _ step names names_eq at_step unbound strict =>
    have resolved : (e.conduct answer).resolve step = .failed "unknown step type" (.unknownStepType step.stepType) := by
      simp [Conduct.resolve, Engine.conduct, unbound, strict]
    rw [Conduct.callsAt_step at_step, Conduct.callFor_unbound unbound,
      Conduct.callsPast_of_end (Conduct.follow_failed resolved)]
    rfl
  | @skipped _ step at_step unbound lenient =>
    have resolved : (e.conduct answer).resolve step = .skipped (Failure.unknownStepType step.stepType).message := by
      simp [Conduct.resolve, Engine.conduct, unbound, lenient]
    rw [Conduct.callsAt_step at_step, Conduct.callFor_unbound unbound,
      Conduct.callsPast_of_follow (Conduct.follow_skipped resolved)]
    rfl
  | dispatched at_step bound =>
    rw [Conduct.callsAt_step at_step, Conduct.callFor_bound bound]
    have left := Conduct.callsLeft_step (k := e.conduct answer) at_step
    exact congrArg (_ :: ·) left
  | called at_step bound =>
    rw [Conduct.callsAt_step at_step, Conduct.callFor_bound bound, performedIn_begun]
    have left := Conduct.callsLeft_step (k := e.conduct answer) at_step
    exact congrArg (_ :: ·) left

/-- In a call no other is made, and its end decides about the calls to come as it does for the interpreter. -/
theorem Advance.callsLeft_calling {index : Nat} {handler : Handler} {script : Script}
    (h : Advance e x c (.calling index handler script) eff)
    (tracks : Tracks (e.conduct answer) c.execution c.scheduled (.live (.calling index handler script) false)) :
    performedIn eff.notes x ++ (eff.dispatched.map Delivery.performed).toList ++
      (e.conduct answer).callsLeft eff.execution (Engine.lifeAfter eff.move) =
        (e.conduct answer).callsLeft c.execution (.live (.calling index handler script) false) := by
  cases tracks with
  | @calling _ step _ _ due at_step bound attached answer_eq =>
    have resolved := Conduct.resolve_attached bound attached
    rw [← answer_eq] at resolved
    have left := Conduct.callsLeft_step (k := e.conduct answer) at_step
    cases h with
    | remarked | passed | slept | gaveWay | barred | answered | recovered => rfl
    | yielded => exact (left.trans (Conduct.callsPast_of_end (Conduct.follow_canceled resolved))).symm
    | unresolved names_eq here propagate =>
      rw [propagate] at resolved
      exact (left.trans (Conduct.callsPast_of_end (Conduct.follow_failed resolved))).symm

/-- The processing decides whether the calls for the steps after a step are made. -/
theorem Advance.callsLeft_handled {index : Nat} {output : Option Value} {status : StepStatus} {error : Option String}
    (h : Advance e x c (.handled index output status error) eff) (still : c.reason = none)
    (tracks : Tracks (e.conduct answer) c.execution c.scheduled (.live (.handled index output status error) false)) :
    performedIn eff.notes x ++ (eff.dispatched.map Delivery.performed).toList ++
      (e.conduct answer).callsLeft eff.execution (Engine.lifeAfter eff.move) =
        (e.conduct answer).callsLeft c.execution (.live (.handled index output status error) false) := by
  cases tracks with
  | @handled _ step _ _ _ due at_step resolved =>
    have left := Conduct.callsLeft_step (k := e.conduct answer) at_step
    have follow := Conduct.follow_given resolved c.execution.state
    cases h with
    | preempted reason => simp [still] at reason
    | abandoned no_reason here processed =>
      obtain rfl := Option.some.inj (here.symm.trans at_step)
      have ends : (e.conduct answer).follow _ c.execution.state = none :=
        follow.trans (by simp [Engine.conduct, processed, Except.toOption])
      exact (left.trans (Conduct.callsPast_of_end ends)).symm
    | unprocessed names_eq no_reason here processed =>
      obtain rfl := Option.some.inj (here.symm.trans at_step)
      have ends : (e.conduct answer).follow _ c.execution.state = none :=
        follow.trans (by simp [Engine.conduct, processed, Except.toOption])
      exact (left.trans (Conduct.callsPast_of_end ends)).symm
    | @adopted _ _ _ _ _ transition no_reason here processed =>
      obtain rfl := Option.some.inj (here.symm.trans at_step)
      have goes_on : (e.conduct answer).follow _ c.execution.state = some transition.newState :=
        follow.trans (by simp [Engine.conduct, processed, Except.toOption])
      exact (left.trans (Conduct.callsPast_of_follow goes_on)).symm

/-- **The calls to come**: what a move of a task that nobody cancels performs, or leaves to a detached call, was the next of
them. -/
theorem Advance.callsLeft {stage : Stage} (h : Advance e x c stage eff) (still : c.reason = none)
    (tracks : Tracks (e.conduct answer) c.execution c.scheduled (.live stage false)) :
    performedIn eff.notes x ++ (eff.dispatched.map Delivery.performed).toList ++
      (e.conduct answer).callsLeft eff.execution (Engine.lifeAfter eff.move) =
        (e.conduct answer).callsLeft c.execution (.live stage false) := by
  cases tracks with
  | opening =>
    cases h with
    | begun => rfl
  | admitted state history =>
    cases h with
    | tooDeep names_eq deep => exact (if_pos deep).symm
    | shallow shallow =>
      have due : (e.conduct answer).callsDue c.execution =
          (e.conduct answer).callsFrom 0 c.execution.workflow.steps c.execution.initialState := if_neg shallow
      rw [← state] at due
      exact due.symm
  | reaching => exact h.callsLeft_reaching
  | calling due at_step bound attached answer_eq => exact h.callsLeft_calling (.calling due at_step bound attached answer_eq)
  | holding =>
    cases h with
    | resumed => rfl
  | handled due at_step resolved => exact h.callsLeft_handled still (.handled due at_step resolved)
  | finishing => cases h <;> rfl
  | spawning => cases h <;> rfl
  | completing => cases h; rfl
  | closing => cases h; rfl
  | canceling => cases h <;> rfl
  | leaving => cases h; rfl

end Moves

namespace Engine

/-! ## Executions that keep pace -/

/-- What execution number `x` has performed and what is to come is what is due; a detached call for it that has not begun is
the next. -/
structure Performs (e : Engine) (k : Conduct) (x : Nat) (c : Course) : Prop where
  settled : ¬ e.Detaches x → performedIn e.calls x ++ k.callsLeft c.execution c.life = k.callsDue c.execution
  detached : ∀ j d b, e.Enters j d b → d.execution = x →
    performedIn e.calls x ++ d.performed :: k.callsLeft c.execution c.life = k.callsDue c.execution

/-- Every execution below number `x` performs what is due. -/
def Performing (k : Conduct) (x : Nat) (e : Engine) : Prop :=
  ∀ y c, e.Below x y → e.courses[y]? = some c → e.Performs k y c

section Performs

variable {e e' : Engine} {k : Conduct} {x y j : Nat} {c c' d : Course} {f : Delivery} {a : Act}

/-- Nothing is called for the execution, and its detached calls stay. -/
theorem Performs.aside (h : e.Performs k x c) (calls : performedIn e'.calls x = performedIn e.calls x)
    (detaches : e'.Detaches x ↔ e.Detaches x)
    (enters : ∀ j d' b', e'.Enters j d' b' → d'.execution = x → ∃ d b, e.Enters j d b ∧ d.execution = x ∧
      d.performed = d'.performed) : e'.Performs k x c where
  settled quiet := by
    rw [calls]
    exact h.settled fun detached => quiet (detaches.mpr detached)
  detached j d' b' entered for_x := by
    obtain ⟨d, b, before, for_x, same⟩ := enters j d' b' entered for_x
    rw [calls, ← same]
    exact h.detached j d b before for_x

/-- An execution that is new has performed nothing. -/
theorem Performs.fresh {a : Execution} (nothing : performedIn e.calls x = []) (quiet : ¬ e.Detaches x) :
    e.Performs k x (.fresh a) where
  settled _ := by
    rw [nothing]
    rfl
  detached j d b entered for_x := absurd (detaches_iff.mpr ⟨j, d, b, entered, for_x⟩) quiet

/-- The execution itself moves: what it performs, or leaves to a detached call, was to come. -/
theorem Performs.moved {answer : String → Value → Except Raised (Option Value)} {eff : Effect} {stage : Stage}
    (h : e.Performs (e.conduct answer) x c) (away : ¬ e.Detaches x) (life : c.life = .live stage false)
    (advance : Advance e x c stage eff) (still : c.reason = none)
    (tracks : Tracks (e.conduct answer) c.execution c.scheduled (.live stage false))
    (calls : e'.calls = e.calls ++ eff.notes) (deliveries : e'.deliveries = e.deliveries ++ eff.dispatched.toList) :
    e'.Performs (e.conduct answer) x (eff.course c) := by
  -- what was to come before the move is what the move performs or queues, and what is to come after it
  have left := advance.callsLeft still tracks
  have before := h.settled away
  rw [life, ← left] at before
  rw [← Conduct.callsDue_congr (b := eff.execution) advance.origin_eq] at before
  have moved : Moved e x c eff := .advanced life advance
  have detaches := detaches_append (x := x) deliveries fun d' dispatched => by
    obtain ⟨index, step, handler, rfl, -⟩ := moved.dispatched_eq dispatched
    rfl
  refine ⟨fun quiet => ?_, fun j d' b' entered for_x => ?_⟩
  · have none : eff.dispatched = none := by
      cases dispatched : eff.dispatched with
      | none => rfl
      | some d' =>
        obtain ⟨index, step, handler, rfl, -⟩ := moved.dispatched_eq dispatched
        exact absurd (detaches.mpr (.inr ⟨_, dispatched, rfl⟩)) quiet
    rw [none] at before
    rw [calls, performedIn_append]
    simpa [Effect.course] using before
  · have queued : eff.dispatched = some d' := by
      obtain ⟨at_j, entering⟩ := entered
      have mem : d' ∈ e.deliveries ++ eff.dispatched.toList := deliveries ▸ List.mem_of_getElem? at_j
      rcases List.mem_append.mp mem with old | new
      · exact absurd ⟨d', old, for_x, b', entering⟩ away
      · simpa using new
    rw [queued] at before
    rw [calls, performedIn_append]
    simpa [Effect.course] using before

/-- A detached call moves: it begins if it has not begun and no cancellation is on its way to the execution. -/
theorem Performs.delivered {eff : DeliveryEffect} (h : e.Performs k x c) (entering : e.Entering)
    (at_x : e.courses[x]? = some c) (unflagged : ∀ stage, c.life ≠ .live stage true) (at_j : e.deliveries[j]? = some f)
    (moved : MovedDelivery e f eff) (calls : e'.calls = e.calls ++ eff.notes)
    (deliveries : e'.deliveries = e.deliveries.set j { f with life := lifeAfter eff.move }) : e'.Performs k x c := by
  have detaches := entering.detaches_set (x := x) at_j moved deliveries
  have others : ∀ i d' b', e'.Enters i d' b' → i ≠ j ∧ e.Enters i d' b' := by
    rintro i d' b' ⟨at_i, life⟩
    by_cases same : i = j
    · subst same
      rw [deliveries, set_getElem? at_j] at at_i
      obtain rfl := Option.some.inj at_i
      exact absurd life (moved.not_entering b')
    · rw [deliveries, List.getElem?_set_ne (Ne.symm same)] at at_i
      exact ⟨same, at_i, life⟩
  -- a call that begins for `x` makes what was queued performed; any other move leaves `x` alone
  by_cases ours : f.execution = x ∧ ∃ b, f.life = .live .entering b
  · obtain ⟨rfl, b, life⟩ := ours
    obtain ⟨c₀, canceled, at_x', stage, canceled_of⟩ := entering.stands j f b ⟨at_j, life⟩
    obtain rfl : c = c₀ := Option.some.inj (at_x.symm.trans at_x')
    have unheard : b = false := by
      by_contra flagged
      rw [canceled_of (by simpa using flagged)] at stage
      exact unflagged _ stage
    subst unheard
    have due := h.detached j f false ⟨at_j, life⟩ rfl
    have begun : performedIn eff.notes f.execution = [f.performed] := by
      cases moved with
      | diverted other => cases life.symm.trans other
      | delivered other delivers =>
        obtain rfl : DeliveryStage.entering = _ := by
          have eq := life.symm.trans other
          injection eq
        cases delivers with
        | begun => exact performedIn_begun _ _ _ _
    refine ⟨fun _ => ?_, fun i d' b' entered for_x => ?_⟩
    · rw [calls, performedIn_append, begun]
      simpa using due
    · obtain ⟨ne, before⟩ := others i d' b' entered
      exact absurd (entering.single i j d' f b' false before ⟨at_j, life⟩ for_x) ne
  · have silent : performedIn eff.notes x = [] := by
      refine performedIn_eq_nil ?_
      rcases moved.begunIn_eq with ⟨entered, -⟩ | ⟨-, silent⟩
      · refine begunIn_eq_nil fun i slot payload mem => ours ⟨?_, false, entered⟩
        exact (moved.notes_about _ mem).1.symm
      · exact silent x
    refine h.aside ?_ ?_ fun i d' b' entered for_x => ⟨d', b', (others i d' b' entered).2, for_x, rfl⟩
    · rw [calls, performedIn_append, silent, List.append_nil]
    · rw [detaches]
      exact and_iff_left ours

/-- Another execution moves. -/
theorem Performs.beside {z : Nat} {eff : Effect} (h : e.Performs k x c) (other : z ≠ x) (moved : Moved e z d eff)
    (calls : e'.calls = e.calls ++ eff.notes) (deliveries : e'.deliveries = e.deliveries ++ eff.dispatched.toList) :
    e'.Performs k x c := by
  have for_other : ∀ f, eff.dispatched = some f → f.execution = z ∧ f.life = .live .entering false := by
    intro f dispatched
    obtain ⟨index, step, handler, rfl, -⟩ := moved.dispatched_eq dispatched
    exact ⟨rfl, rfl⟩
  have detaches := detaches_append (x := x) deliveries fun f dispatched => (for_other f dispatched).2
  refine h.aside ?_ ?_ ?_
  · rw [calls, performedIn_append, performedIn_of_ne moved.notes_execution other, List.append_nil]
  · rw [detaches, or_iff_left]
    rintro ⟨f, dispatched, for_x⟩
    exact other ((for_other f dispatched).1.symm.trans for_x)
  · rintro j f b ⟨at_j, life⟩ for_x
    rw [deliveries] at at_j
    rcases Nat.lt_or_ge j e.deliveries.length with lt | new
    · rw [List.getElem?_append_left lt] at at_j
      exact ⟨f, b, ⟨at_j, life⟩, for_x, rfl⟩
    · rw [List.getElem?_append_right new] at at_j
      have dispatched : eff.dispatched = some f := by simpa using List.mem_of_getElem? at_j
      exact absurd ((for_other f dispatched).1.symm.trans for_x) other

/-- Cancellations are sent to detached calls. -/
theorem Performs.signaled (h : e.Performs k x c) (calls : e'.calls = e.calls)
    (deliveries : Pointwise SignaledDelivery e.deliveries e'.deliveries) : e'.Performs k x c := by
  refine h.aside (by rw [calls]) (detaches_signaled deliveries) ?_
  rintro j d' b' ⟨at_j', life⟩ for_x
  have lt : j < e.deliveries.length := deliveries.1 ▸ (List.getElem?_eq_some_iff.mp at_j').1
  have before := List.getElem?_eq_getElem lt
  obtain ⟨d₀, at_j₀, signaled⟩ := deliveries.2 j _ before
  obtain rfl : d' = d₀ := Option.some.inj (at_j'.symm.trans at_j₀)
  rcases signaled with eq | eq
  · exact ⟨_, b', ⟨before, eq ▸ life⟩, eq ▸ for_x, by rw [eq]⟩
  · rw [eq] at life for_x
    cases was : e.deliveries[j].life with
    | ended ending => simp [was, Life.interrupt] at life
    | live stage b =>
      simp only [was, Life.interrupt, Life.live.injEq] at life
      exact ⟨_, b, ⟨before, by rw [was, life.1]⟩, for_x, by rw [eq]; rfl⟩

/-- What a peaceful act does to the calls of an execution that keeps step with the interpreter. -/
theorem Paced.performs (paced : Paced k x e) (entering : e.Entering) (sound : e.Sound) (peaceful : Peaceful x e a)
    (below : e.Below x y) (at_y : e.courses[y]? = some c) (at_y' : (e.act a).courses[y]? = some c')
    (performs : e.Performs k y c) : (e.act a).Performs k y c' := by
  obtain ⟨still, tracks⟩ := paced.tracks y c below at_y
  have unflagged : ∀ stage, c.life ≠ .live stage true := by
    intro stage flagged
    rw [flagged] at tracks
    cases tracks
  have alone := (sound.happens a).alone (peaceful.2 y below) at_y
  have outline := sound.outline a
  -- the state after the act only matters by what the outline says of it
  revert at_y' alone outline
  generalize e.act a = e'
  intro at_y' alone outline
  have same (away : e.current ≠ some (.course y)) : c' = c := by
    rcases alone with eq | ⟨eff, current, -⟩
    · exact Option.some.inj (at_y'.symm.trans eq)
    · exact absurd current away
  cases outline with
  | still =>
    obtain rfl : c = c' := Option.some.inj (at_y.symm.trans at_y')
    exact performs
  | @course z d eff journal log current at_z moved =>
    by_cases own : z = y
    · subst own
      obtain rfl : d = c := Option.some.inj (at_z.symm.trans at_y)
      have after : c' = eff.course d := by
        rw [handOn_courses, realize, List.getElem?_append_left (by simpa using (List.getElem?_eq_some_iff.mp at_z).1),
          set_getElem? at_z] at at_y'
        exact (Option.some.inj at_y').symm
      have away : ¬ e.Detaches z := by
        rw [detaches_iff]
        rintro ⟨j, f, b, enters, rfl⟩
        exact entering.away enters current
      rw [after]
      cases moved with
      | diverted life => exact absurd life (unflagged _)
      | advanced life advance =>
        rw [life] at tracks
        rw [← paced.conduct] at tracks performs ⊢
        exact performs.moved away life advance still tracks (handOn_calls _ _ _) (handOn_deliveries _ _ _)
    · obtain rfl : c' = c := same fun has => own (by simpa [current] using has)
      exact performs.beside own moved (handOn_calls _ _ _) (handOn_deliveries _ _ _)
  | @delivery j f eff journal log current at_j moved =>
    obtain rfl : c' = c := same (by simp [current])
    exact performs.delivered entering at_y unflagged at_j moved (handOn_calls _ _ _) (handOn_deliveries _ _ _)
  | other unmoved elsewhere =>
    have over_y := fun current => unmoved y c current at_y
    obtain rfl : c' = c := by
      rcases alone with eq | ⟨eff, current, moved, -⟩
      · exact Option.some.inj (at_y'.symm.trans eq)
      · have stopped := over_y current
        cases moved with
        | diverted life | advanced life => simp [life, Life.isOver] at stopped
    exact performs.signaled elsewhere.calls elsewhere.deliveries

/-- An execution that comes to be has performed nothing. -/
theorem performs_newborn (reachable : e.ReachableBy inOrder) (served : a.InOrder) (sound : e.Sound)
    (sound' : (e.act a).Sound) (at_y : e.courses[y]? = none) (at_y' : (e.act a).courses[y]? = some c') :
    (e.act a).Performs k y c' := by
  have outline := sound.outline a
  have reachable' : (e.act a).ReachableBy inOrder := reachable.trans (.single served)
  obtain ⟨-, execution, rfl, -⟩ := outline.newborn at_y' at_y
  have unborn := outline.unbegun sound.orderly (reachable.calls sound) (List.getElem?_eq_none_iff.mp at_y)
  refine .fresh (performedIn_eq_nil unborn) fun detaches => ?_
  obtain ⟨j, d, b, enters, rfl⟩ := detaches_iff.mp detaches
  obtain ⟨c, canceled, at_y'', life, -⟩ := (reachable'.entering sound').stands j d b enters
  obtain rfl := Option.some.inj (at_y'.symm.trans at_y'')
  cases life

/-- **Peaceful acts perform what is due** as long as the queue is served in order. -/
theorem Performing.act (h : Performing k x e) (paced : Paced k x e) (reachable : e.ReachableBy inOrder) (sound : e.Sound)
    (sound' : (e.act a).Sound) (peaceful : Peaceful x e a) (served : a.InOrder) : Performing k x (e.act a) := by
  have outline := sound.outline a
  intro y c' below' at_y'
  cases at_y : e.courses[y]? with
  | some c =>
    have below := outline.below below' (List.getElem?_eq_some_iff.mp at_y).1
    exact paced.performs (reachable.entering sound) sound peaceful below at_y at_y' (h y c below at_y)
  | none => exact performs_newborn reachable served sound sound' at_y at_y'

/-- An execution that has ended has made the calls that the interpreter makes. -/
theorem Paced.performed (paced : Paced k x e) (performing : Performing k x e) (reachable : e.ReachableBy inOrder)
    (sound : e.Sound) (below : e.Below x y) (at_y : e.courses[y]? = some c) (finished : c.execution.isFinished = true) :
    performedIn e.calls y = k.callsDue c.execution := by
  have tracks := (paced.tracks y c below at_y).2
  have concluded := tracks.concluded (sound.standing.stands y c at_y) finished
  have stands := sound.standing.stands y c at_y
  have quiet : ¬ e.Detaches y := by
    intro detaches
    obtain ⟨j, d, b, enters, rfl⟩ := detaches_iff.mp detaches
    obtain ⟨c₀, canceled, at_y', life, -⟩ := (reachable.entering sound).stands j d b enters
    obtain rfl := Option.some.inj (at_y.symm.trans at_y')
    rw [life] at stands
    cases stands with
    | handled running | dispatched running => simp [running.unfinished] at finished
  have done := (performing y c below at_y).settled quiet
  have nothing : k.callsLeft c.execution c.life = [] := by
    have running {index : Nat} : ¬ c.execution.Running index := fun running => by simp [running.unfinished] at finished
    revert tracks stands
    generalize c.life = life
    intro tracks stands
    cases tracks with
    | opening unbegun => simp [Execution.isFinished, unbegun.status_eq, Status.isFinished] at finished
    | admitted | reaching | calling | holding | handled =>
      cases stands
      all_goals exact absurd ‹_› running
    | finishing | spawning | completing | closing | canceling | leaving | settled => rfl
  rw [nothing, List.append_nil] at done
  exact done

end Performs

end Engine

end Stepflow
