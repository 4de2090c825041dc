import Stepflow.Proofs.Engine.Fairness
import Stepflow.Proofs.Engine.Recovering

/-!
# Stepflow.Proofs.Engine.Isolation — swallowed failures change nothing else

* `Agree`: the same comes of something in two engines that are the same but for some recoveries.  `Eased.moveDelivery`,
  `Eased.moveCaller`, `Eased.moveCloser` and so on: so it is for the moves of detached calls and of those who wait.
* `Eased.turnAt`, `Eased.undergo`, `Eased.act`: an act leaves the engines the same but for some recoveries.
* `swallowed_unseen`: so it is all through a run.
-/

namespace Stepflow.Engine.Eased

variable {recoveries : List Recovery} {e e' : Engine} {x index : Nat}

/-! ## Moves of detached calls -/

/-- The same comes of something that is done to both engines. -/
def Agree {β : Type} (recoveries : List Recovery) (r r' : Engine × β) : Prop := Eased recoveries r.1 r'.1 ∧ r'.2 = r.2

theorem announceRecovery (h : Eased recoveries e e') (a : Execution) (texts : Nat → Option String) (index : Nat)
    (stepType : String) (f : Failure) :
    Agree recoveries (e.recover x a index stepType f) (e'.recover x (a.ease texts) index stepType f) := by
  have place : (a.ease texts).place = a.place := rfl
  unfold Engine.recover
  rw [place]
  cases a.place with
  | error g => exact ⟨h, rfl⟩
  | ok place =>
    obtain ⟨engines, same⟩ := (h.report .warning (recoveredText place index stepType f)).announce
      (.stepRecovered x index stepType f.message)
    exact ⟨engines, congrArg (fun reaction => Except.ok (Lifecycle.stepRecovered x index stepType f.message, reaction)) same⟩

/-- The same script is played on in both engines. -/
theorem play (h : Eased recoveries e e') (unmarked : textAt recoveries x index = none) (slot : Nat) (script : Script) :
    Agree recoveries (e.play x index slot script) (e'.play x index slot script) := by
  cases script with
  | answer output => exact ⟨h.note (CallNote.ease_of_unmarked unmarked _), rfl⟩
  | raise r => exact ⟨h.note (CallNote.ease_of_unmarked unmarked _), rfl⟩
  | remark r next => exact ⟨h.take r, rfl⟩
  | sleep seconds next canceled =>
    dsimp only [Engine.play]
    rw [h.clock_eq]
    exact ⟨h, rfl⟩
  | gate next canceled =>
    dsimp only [Engine.play]
    rw [h.isDue_eq]
    split <;> exact ⟨h, rfl⟩

theorem concludeDelivery (h : Eased recoveries e e') (d : Delivery) (a : Execution) (texts : Nat → Option String)
    (result : Except Raised (Option Value)) :
    Agree recoveries (e.concludeDelivery d a result) (e'.concludeDelivery d (a.ease texts) result) := by
  have place : (a.ease texts).place = a.place := rfl
  cases result with
  | ok output => exact ⟨h, rfl⟩
  | error raised =>
    cases raised with
    | canceled => exact ⟨h, rfl⟩
    | failure f =>
      dsimp only [Engine.concludeDelivery]
      cases d.handler.resolver.policy with
      | swallow =>
        have recovered := h.announceRecovery (x := d.execution) a texts d.index d.step.stepType f
        generalize e.recover d.execution a d.index d.step.stepType f = r at recovered ⊢
        generalize e'.recover d.execution (a.ease texts) d.index d.step.stepType f = r' at recovered ⊢
        obtain ⟨e₁, told⟩ := r
        obtain ⟨e₁', told'⟩ := r'
        obtain ⟨engines, same⟩ := recovered
        dsimp only at engines same
        subst same
        rcases told' with g | ⟨event, reaction⟩ <;> exact ⟨engines, rfl⟩
      | propagate =>
        dsimp only
        rw [place]
        cases a.place with
        | error g => exact ⟨h, rfl⟩
        | ok place => exact ⟨h.report _ _, rfl⟩

/-- **A move of a detached call** leaves the engines the same but for the recoveries so far. -/
theorem moveDelivery (h : Eased recoveries e e') {d : Delivery} (a : Execution) (texts : Nat → Option String)
    (unmarked : textAt recoveries d.execution d.index = none) (stage : DeliveryStage) :
    Agree recoveries (e.moveDelivery d a stage) (e'.moveDelivery d (a.ease texts) stage) := by
  cases stage with
  | entering =>
    dsimp only [Engine.moveDelivery, beginCall]
    rw [h.callCount_eq]
    exact ⟨h.note rfl, rfl⟩
  | calling script =>
    have played := h.play unmarked d.handler.slot script
    dsimp only [Engine.moveDelivery]
    generalize e.play d.execution d.index d.handler.slot script = r at played ⊢
    generalize e'.play d.execution d.index d.handler.slot script = r' at played ⊢
    obtain ⟨e₁, next⟩ := r
    obtain ⟨e₁', next'⟩ := r'
    obtain ⟨engines, same⟩ := played
    dsimp only at engines same
    subst same
    cases next' with
    | go | yield | wait => exact ⟨engines, rfl⟩
    | done result => exact engines.concludeDelivery d a texts result
  | holding | closing | refusing => exact ⟨h, rfl⟩

/-- A move that is settled alike in both engines. -/
theorem settle {σ : Type} {r r' : Engine × Move σ} (both : Agree recoveries r r') (t : TaskId)
    {f : Move σ → Engine → Engine} (keeps : ∀ m e e', Eased recoveries e e' → Eased recoveries (f m e) (f m e')) :
    Eased recoveries ((f r.2 r.1).handOn t r.2) ((f r'.2 r'.1).handOn t r'.2) := by
  obtain ⟨engines, same⟩ := both
  rw [same]
  exact (keeps _ _ _ engines).handOn t (.refl _)

theorem settleDelivery (k : Nat) {r r' : Engine × Move DeliveryStage} (both : Agree recoveries r r') :
    Eased recoveries (Engine.settleDelivery k r) (Engine.settleDelivery k r') := by
  refine settle both (.delivery k)
    (f := fun m e => { e with deliveries := e.deliveries.modify k ({ · with life := lifeAfter m }) }) fun m e e' h => ?_
  cases h with
  | mk registered abreast noted attached announced logged =>
    refine .mk registered abreast noted (fun s mem d mem_d => ?_) announced logged
    rcases mem_or_of_mem_modify mem_d with old | ⟨d₀, old, rfl⟩
    · exact attached s mem d old
    · exact attached s mem d₀ old

/-! ## Those who wait for executions -/

theorem outcome_eq (h : Eased recoveries e e') (x : Nat) : e'.outcome x = e.outcome x := by
  unfold Engine.outcome
  cases at_x : e.courses[x]? with
  | none => rw [h.unknown at_x]
  | some c =>
    obtain ⟨c', at_x', eases⟩ := h.counterpart at_x
    rw [at_x']
    obtain ⟨a, scheduled, life, reason⟩ := c
    obtain ⟨a', scheduled', life', reason'⟩ := c'
    obtain ⟨execution, -, lives, -⟩ := eases
    dsimp only at execution lives
    subst execution
    cases lives with
    | live => rfl
    | ended ending => cases ending <;> rfl

theorem moveCaller (h : Eased recoveries e e') (k : Nat) (stage : CallerStage) :
    Agree recoveries (e.moveCaller k stage) (e'.moveCaller k stage) := by
  cases stage with
  | entering workflow initial =>
    dsimp only [Engine.moveCaller]
    cases State.freeze initial with
    | error f => exact ⟨h, rfl⟩
    | ok state =>
      have submitted := h.submit (a := .root e.clock workflow state) rfl
      dsimp only
      rw [h.length_eq, h.clock_eq]
      refine ⟨?_, rfl⟩
      generalize e.submit (.root e.clock workflow state) = e₁, e'.submit (.root e.clock workflow state) = e₁' at submitted
      cases submitted with
      | mk registered abreast noted attached announced logged =>
        exact .mk registered abreast noted attached announced logged
  | awaiting x => exact ⟨h, congrArg Move.stop (h.outcome_eq x)⟩
  | surrendering x => exact ⟨h, rfl⟩

theorem cancelCaller (h : Eased recoveries e e') (stage : CallerStage) :
    Agree recoveries (e.cancelCaller stage) (e'.cancelCaller stage) := by
  cases stage with
  | awaiting x =>
    dsimp only [Engine.cancelCaller]
    rw [h.isOver_eq]
    split
    · exact ⟨h, rfl⟩
    · exact ⟨(h.giveReason x callerReason).interrupt _, rfl⟩
  | entering | surrendering => exact ⟨h, rfl⟩

theorem moveJoiner (h : Eased recoveries e e') (stage : JoinerStage) :
    Agree recoveries (e.moveJoiner stage) (e'.moveJoiner stage) := by
  cases stage with
  | watching =>
    dsimp only [Engine.moveJoiner]
    rw [h.running_eq]
    split <;> exact ⟨h, rfl⟩

theorem sweep (h : Eased recoveries e e') : Agree recoveries e.sweep e'.sweep := by
  have told := h.report .warning
    ("Shutdown timed out with " ++ toString e.pending.length ++ " pending task(s); canceling")
  unfold Engine.sweep
  rw [h.pending_eq]
  dsimp only
  rw [told.running_eq]
  refine ⟨interruptAll ?_ _, rfl⟩
  generalize (e.report _ _).running = xs
  revert told
  generalize e.report _ _ = e₁, e'.report _ _ = e₁'
  intro told
  induction xs generalizing e₁ e₁' with
  | nil => exact told
  | cons x xs ih => exact ih _ _ (told.giveReason x shutdownReason)

theorem moveCloser (h : Eased recoveries e e') (stage : CloserStage) :
    Agree recoveries (e.moveCloser stage) (e'.moveCloser stage) := by
  cases stage with
  | flushing deadline =>
    dsimp only [Engine.moveCloser]
    rw [h.pending_eq, h.clock_eq]
    split
    · exact ⟨h, rfl⟩
    · split
      · exact h.sweep
      · exact ⟨h, rfl⟩
  | sweeping => exact ⟨h, rfl⟩

theorem settleCaller (k : Nat) {r r' : Engine × Move CallerStage} (both : Agree recoveries r r') :
    Eased recoveries (Engine.settleCaller k r) (Engine.settleCaller k r') := by
  refine settle both (.caller k)
    (f := fun m e => { e with callers := e.callers.modify k ({ · with life := lifeAfter m }) }) fun m e e' h => ?_
  cases h with
  | mk registered abreast noted attached announced logged =>
    exact .mk registered abreast noted attached announced logged

theorem settleJoiner (k : Nat) {r r' : Engine × Move JoinerStage} (both : Agree recoveries r r') :
    Eased recoveries (Engine.settleJoiner k r) (Engine.settleJoiner k r') := by
  refine settle both (.joiner k)
    (f := fun m e => { e with joiners := e.joiners.modify k (fun _ => lifeAfter m) }) fun m e e' h => ?_
  cases h with
  | mk registered abreast noted attached announced logged =>
    exact .mk registered abreast noted attached announced logged

theorem settleCloser (k : Nat) {r r' : Engine × Move CloserStage} (both : Agree recoveries r r') :
    Eased recoveries (Engine.settleCloser k r) (Engine.settleCloser k r') := by
  refine settle both (.closer k)
    (f := fun m e => { e with closers := e.closers.modify k (fun _ => lifeAfter m) }) fun m e e' h => ?_
  cases h with
  | mk registered abreast noted attached announced logged =>
    exact .mk registered abreast noted attached announced logged

/-! ## Turns -/

/-- No recovery is added. -/
theorem noMore (h : Eased recoveries e e') : ∃ more, Eased (recoveries ++ more) e e' :=
  ⟨[], by rw [List.append_nil]; exact h⟩

/-- Whoever gives the processor away without moving does so in both engines. -/
theorem giveAway (h : Eased recoveries e e') : Eased recoveries { e with current := none } { e' with current := none } := by
  cases h with
  | mk registered abreast noted attached announced logged =>
    exact .mk registered abreast noted attached announced logged

/-- The step of a detached call is no recovery. -/
theorem unmarked_of_mem (h : Eased recoveries e e') {d : Delivery} (mem : d ∈ e.deliveries) :
    textAt recoveries d.execution d.index = none := by
  cases h with
  | mk registered abreast noted attached =>
    unfold textAt
    rw [Option.map_eq_none_iff, List.find?_eq_none]
    intro r mem_r here
    simp only [decide_eq_true_eq] at here
    exact attached r mem_r d mem here.1.symm here.2.symm

theorem move_course (h : Eased recoveries e e') (sound : e.Sound) (x : Nat) :
    ∃ more, Eased (recoveries ++ more) (e.move (.course x)) (e'.move (.course x)) := by
  dsimp only [Engine.move]
  cases at_x : e.courses[x]? with
  | none =>
    rw [h.unknown at_x]
    exact h.giveAway.noMore
  | some c =>
    obtain ⟨c', at_x', eases⟩ := h.counterpart at_x
    rw [at_x']
    dsimp only
    have lives := eases.life
    generalize life : c.life = before, life' : c'.life = after at lives
    cases lives with
    | ended => exact h.giveAway.noMore
    | live interrupted stages =>
      cases interrupted with
      | true => exact noMore (settleCourse ⟨h, cancelCourse stages⟩)
      | false =>
        obtain ⟨more, both⟩ := h.moveCourse sound at_x eases life stages
        exact ⟨more, settleCourse both⟩

theorem move_delivery (h : Eased recoveries e e') (k : Nat) :
    Eased recoveries (e.move (.delivery k)) (e'.move (.delivery k)) := by
  have known : e'.deliveries[k]? = e.deliveries[k]? := (congrArg (·.deliveries[k]?) h.rest).trans rfl
  dsimp only [Engine.move]
  rw [known]
  cases at_k : e.deliveries[k]? with
  | none => exact h.giveAway
  | some d =>
    have unmarked := h.unmarked_of_mem (List.mem_of_getElem? at_k)
    dsimp only
    rw [h.execution_eq]
    cases d.life with
    | ended => exact h.giveAway
    | live stage interrupted =>
      cases interrupted with
      | true => exact settleDelivery k ⟨h, rfl⟩
      | false =>
        cases e.execution? d.execution with
        | none => exact h.giveAway
        | some a => exact settleDelivery k (h.moveDelivery a _ unmarked stage)

theorem move_caller (h : Eased recoveries e e') (k : Nat) :
    Eased recoveries (e.move (.caller k)) (e'.move (.caller k)) := by
  have known : e'.callers[k]? = e.callers[k]? := (congrArg (·.callers[k]?) h.rest).trans rfl
  dsimp only [Engine.move]
  rw [known]
  split
  · split
    · exact settleCaller k (h.moveCaller k _)
    · exact settleCaller k (h.cancelCaller _)
    · exact h.giveAway
  · exact h.giveAway

theorem move_joiner (h : Eased recoveries e e') (k : Nat) :
    Eased recoveries (e.move (.joiner k)) (e'.move (.joiner k)) := by
  have known : e'.joiners[k]? = e.joiners[k]? := (congrArg (·.joiners[k]?) h.rest).trans rfl
  dsimp only [Engine.move]
  rw [known]
  split
  · exact settleJoiner k (h.moveJoiner _)
  · exact settleJoiner k ⟨h, rfl⟩
  · exact h.giveAway

theorem move_closer (h : Eased recoveries e e') (k : Nat) :
    Eased recoveries (e.move (.closer k)) (e'.move (.closer k)) := by
  have known : e'.closers[k]? = e.closers[k]? := (congrArg (·.closers[k]?) h.rest).trans rfl
  dsimp only [Engine.move]
  rw [known]
  split
  · exact settleCloser k (h.moveCloser _)
  · exact settleCloser k ⟨h, rfl⟩
  · exact h.giveAway

theorem turnAt (h : Eased recoveries e e') (sound : e.Sound) (place : Nat) :
    ∃ more, Eased (recoveries ++ more) (e.turnAt place) (e'.turnAt place) := by
  have current : e'.current = e.current := (congrArg Engine.current h.rest).trans rfl
  have ready : e'.ready = e.ready := (congrArg Engine.ready h.rest).trans rfl
  unfold Engine.turnAt
  rw [current, ready]
  cases e.current with
  | some t =>
    cases t with
    | course x => exact h.move_course sound x
    | delivery k => exact (h.move_delivery k).noMore
    | caller k => exact (h.move_caller k).noMore
    | joiner k => exact (h.move_joiner k).noMore
    | closer k => exact (h.move_closer k).noMore
  | none =>
    cases e.ready[place]? with
    | none => exact h.noMore
    | some t =>
      refine noMore ?_
      cases h with
      | mk registered abreast noted attached announced logged =>
        exact .mk registered abreast noted attached announced logged

/-! ## What the host does -/

theorem sendCancel (h : Eased recoveries e e') {c c' : Course} (eases : Course.Eases (textAt recoveries x) c c')
    (reason : String) : Eased recoveries (e.sendCancel x c reason) (e'.sendCancel x c' reason) := by
  unfold Engine.sendCancel
  rw [eases.isOver_eq]
  split
  · exact h
  · exact (h.setReason x reason).interrupt _

theorem cancel (h : Eased recoveries e e') (x : Option Nat) (id reason : String) :
    Eased recoveries (e.cancel x id reason).1 (e'.cancel x id reason).1 := by
  cases x with
  | none => exact h
  | some x =>
    cases at_x : e.courses[x]? with
    | none =>
      have at_x' := h.unknown at_x
      simpa [Engine.cancel, at_x, at_x'] using h
    | some c =>
      obtain ⟨c', at_x', eases⟩ := h.counterpart at_x
      have sent := h.sendCancel eases reason
      have marked := (sent.markCanceled (x := x) c.execution reason).1
      have finished : c'.execution.isFinished = c.execution.isFinished := by rw [eases.execution]; rfl
      have status : c'.execution.status = c.execution.status := by rw [eases.execution]; rfl
      cases ends : c.execution.isFinished with
      | true =>
        rw [ends] at finished
        simpa [Engine.cancel, at_x, at_x', ends, finished] using h
      | false =>
        rw [cancel_eq at_x ends, cancel_eq at_x' (finished.trans ends), status, eases.isOver_eq]
        split
        · rw [eases.execution]
          exact marked
        · exact sent

theorem cancelJoin (h : Eased recoveries e e') (k : Nat) : Eased recoveries (e.cancelJoin k) (e'.cancelJoin k) := by
  have awaited : e'.awaited (.joiner k) = e.awaited (.joiner k) := (congrArg (Engine.awaited · _) h.rest).trans rfl
  have live : (fun t => !e'.isOver t) = fun t => !e.isOver t := funext fun t => by rw [h.isOver_eq]
  unfold Engine.cancelJoin
  rw [awaited, live]
  split
  · exact h.interrupt _
  · exact (h.interruptAll _).flag _

/-- The handler of the second engine that is offered may return nothing where that of the first raises. -/
theorem register {handler handler' : Handler} (h : Eased recoveries e e') (stepType : String)
    (handlers : handler.Eases handler') :
    Eased recoveries (e.register stepType (.resolver handler)).1 (e'.register stepType (.resolver handler')).1 := by
  cases h with
  | mk registered abreast noted attached announced logged =>
    have same := registered.has_eq stepType
    unfold Engine.register Registry.offer Registry.registerLog
    dsimp only
    rw [same]
    exact .mk (registered.register stepType handlers) abreast noted attached announced (logged.keepAll _)

/-- A deed of the host leaves the engines the same but for the recoveries so far. -/
theorem undergo (h : Eased recoveries e e') (deed : Deed) : Eased recoveries (e.undergo deed) (e'.undergo deed) := by
  cases deed with
  | start workflow initial =>
    dsimp only [Engine.undergo, Engine.start]
    cases State.freeze initial with
    | error f => exact h
    | ok state =>
      dsimp only
      rw [h.clock_eq]
      exact h.submit rfl
  -- what the host can do looks neither at records nor at what resolvers return
  | cancel x id reason => exact h.cancel x id reason
  | cancelRun k => exact h.interrupt _
  | cancelJoin k => exact h.cancelJoin k
  | register stepType offered =>
    cases offered with
    | resolver handler => exact h.register stepType .same
    | other => exact h
  | unregister stepType =>
    cases h with
    | mk registered abreast noted attached announced logged =>
      exact .mk (registered.unregister stepType) abreast noted attached announced logged
  | release slot =>
    refine wake ?_
    cases h with
    | mk registered abreast noted attached announced logged =>
      exact .mk registered abreast noted attached announced logged
  | releaseBus =>
    refine wake ?_
    cases h with
    | mk registered abreast noted attached announced logged =>
      exact .mk registered abreast noted attached announced logged
  | pass time =>
    dsimp only [Engine.undergo]
    rw [h.clock_eq]
    split
    · refine wake ?_
      cases h with
      | mk registered abreast noted attached announced logged =>
        exact .mk registered abreast noted attached announced logged
    · exact h
  | run | join | shutdown =>
    cases h with
    | mk registered abreast noted attached announced logged =>
      exact .mk registered abreast noted attached announced logged

end Stepflow.Engine.Eased

namespace Stepflow

/-- The same act, but that a resolver which is offered to the second engine may return nothing where the other raises. -/
inductive Act.Eases : Act → Act → Prop
  | same (a : Act) : Eases a a
  | register {stepType : String} {h h' : Handler} (handlers : h.Eases h') :
      Eases (.host (.register stepType (.resolver h))) (.host (.register stepType (.resolver h')))

namespace Engine

section Runs

variable {recoveries : List Recovery} {e e' : Engine} {a a' : Act}

/-- **The same act** leaves engines the same but for some recoveries. -/
theorem Eased.act (h : Eased recoveries e e') (sound : e.Sound) (acts : a.Eases a') :
    ∃ more, Eased (recoveries ++ more) (e.act a) (e'.act a') := by
  have current : e'.current = e.current := (congrArg Engine.current h.rest).trans rfl
  -- a turn may add a recovery, a deed of the host adds none
  cases acts with
  | same =>
    cases a with
    | turn place => exact h.turnAt sound place
    | host deed =>
      dsimp only [Engine.act]
      rw [current]
      split
      · exact (h.undergo deed).noMore
      · exact h.noMore
  | register handlers =>
    dsimp only [Engine.act]
    rw [current]
    split
    · exact (h.register _ handlers).noMore
    · exact h.noMore

/-- Engines that have done nothing are the same but for their resolvers. -/
theorem Eased.fresh {settings : Settings} {process : State → Step → Option Value → Except Raised Transition}
    {bus : Option (Lifecycle → Reaction)} {registry registry' : Registry Handler} (resolvers : registry.Eases registry') :
    Eased [] (fresh settings process bus registry) (fresh settings process bus registry') := by
  refine .mk resolvers ⟨rfl, fun x c c' at_x => by cases at_x⟩ (by simp) (by simp) ?_ .nil
  cases bus <;> exact .nil

/-- **A swallowed failure changes nothing else.**  If calls of attached resolvers whose failures are swallowed return nothing
instead of raising, in a registry and in what is registered later, then whatever happens the engine is at every time the
same, but that the records of those steps read succeeded without an error, and that nothing tells of their recoveries. -/
theorem swallowed_unseen {settings : Settings} {process : State → Step → Option Value → Except Raised Transition}
    {bus : Option (Lifecycle → Reaction)} {registry registry' : Registry Handler} {acts acts' : Nat → Act}
    (calm : (fresh settings process bus registry).Calm)
    (named : ∀ n, ((fresh settings process bus registry).after acts n).WellNamed) (resolvers : registry.Eases registry')
    (same : ∀ n, (acts n).Eases (acts' n)) (n : Nat) :
    ∃ recoveries, Eased recoveries ((fresh settings process bus registry).after acts n)
      ((fresh settings process bus registry').after acts' n) := by
  have sound := sound_after (Reaches.of_fresh .refl) calm named
  induction n with
  | zero => exact ⟨[], .fresh resolvers⟩
  | succ n ih =>
    obtain ⟨recoveries, both⟩ := ih
    obtain ⟨more, both⟩ := both.act (sound n) (same n)
    exact ⟨recoveries ++ more, both⟩

/-! ### A resolver that fails once -/

/-- A resolver whose failures are swallowed, and which answers nothing but for its first call. -/
def mender (first : Script) : Handler :=
  ⟨0, "Plain", "heal", .swallow, false, fun count _ => if count = 0 then first else .answer none⟩

/-- A workflow of two steps of that resolver. -/
def mending : Workflow :=
  ⟨[⟨"heal", .null, .empty, by decide⟩, ⟨"heal", .null, .empty, by decide⟩], .text "mending", none, .empty, .empty⟩

/-- The workflow is started, and the tasks have their turns. -/
def mend : Nat → Act
  | 0 => .host (.start mending .null)
  | _ + 1 => .turn 0

/-- The run of that workflow on an engine with an event bus, each of whose steps schedules a workflow without steps. -/
def mendingRun (first : Script) (n : Nat) : Engine :=
  (fresh ⟨false, 3, 5⟩ (fun state _ _ => .ok ⟨state, [⟨[], .null, none, .empty, .empty⟩]⟩) (some fun _ => .accept)
    (Registry.empty.register "heal" (mender first))).after mend n

theorem mendingRun_unseen :
    (mendingRun (.raise (.failure (.resolver "stuck"))) 40).courses.map
        (fun c => (c.execution.status, c.execution.history.map (·.status))) =
      [(.completed, [.recovered, .succeeded]), (.completed, []), (.completed, [])] ∧
    (mendingRun (.answer none) 40).courses.map (fun c => (c.execution.status, c.execution.history.map (·.status))) =
      [(.completed, [.succeeded, .succeeded]), (.completed, []), (.completed, [])] ∧
    ∃ recoveries, Eased recoveries (mendingRun (.raise (.failure (.resolver "stuck"))) 40)
      (mendingRun (.answer none) 40) := by
  refine ⟨by decide +kernel, by decide +kernel, ?_⟩
  have quiet : (mendingRun (.raise (.failure (.resolver "stuck"))) 40).isQuiet = true := by decide +kernel
  have turns : ∀ n, 40 ≤ n → mend n = .turn 0
    | n + 1, _ => rfl
  refine swallowed_unseen ?_ (forall_after_of_quiet (P := WellNamed) quiet turns ?_) ?_ (fun n => .same _) 40
  · rintro react accepts event
    obtain rfl := Option.some.inj accepts
    rfl
  · change ∀ n ≤ 40, (mendingRun (.raise (.failure (.resolver "stuck"))) n).WellNamed
    decide +kernel
  · refine Registry.Eases.register (fun _ => .none) "heal" (.eased rfl rfl fun count payload => ?_)
    by_cases first : count = 0
    · simpa only [first, mender, if_true] using .eased _
    · simpa only [first, mender, if_false] using .same _

end Runs

end Engine

end Stepflow
