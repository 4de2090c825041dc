import Stepflow.Proofs.Engine.Outline

/-!
# Stepflow.Proofs.Engine.Happens — one act, told in full

* `Happens`: who moves, and what comes of it.  `act_happens`: every act on an orderly calm engine is one of these.
* `act_outline`: seen from executions and detached calls, an act is one that `Outline` lists.
-/

namespace Stepflow.Engine

/-- What an act makes of an engine. -/
inductive Happens (e : Engine) : Act → Engine → Prop
  /-- No task is ready, or the host has to wait. -/
  | still {a : Act} (idle : ∀ place, a = .turn place → e.current = none) : Happens e a e
  | chosen {place : Nat} {t : TaskId} (free : e.current = none) (at_place : e.ready[place]? = some t) :
      Happens e (.turn place) { e with current := some t, ready := e.ready.eraseIdx place }
  /-- The task that has the processor is over. -/
  | vacant {place : Nat} {t : TaskId} (current : e.current = some t) (stopped : e.isOver t = true) :
      Happens e (.turn place) { e with current := none }
  | course {place x : Nat} {c : Course} {eff : Effect} {journal : List Note} {log : List LogEntry}
      (current : e.current = some (.course x)) (at_x : e.courses[x]? = some c) (moved : Moved e x c eff) :
      Happens e (.turn place) ((e.realize x (eff.course c) eff journal log).handOn (.course x) eff.move)
  | delivery {place k : Nat} {d : Delivery} {eff : DeliveryEffect} {journal : List Note} {log : List LogEntry}
      (current : e.current = some (.delivery k)) (at_k : e.deliveries[k]? = some d) (moved : MovedDelivery e d eff) :
      Happens e (.turn place) ((e.realizeDelivery k { d with life := lifeAfter eff.move } eff journal log).handOn
        (.delivery k) eff.move)
  | caller {place k : Nat} {c : Caller} {stage : CallerStage} (current : e.current = some (.caller k))
      (at_k : e.callers[k]? = some c) (life : c.life = .live stage false) :
      Happens e (.turn place) (settleCaller k (e.moveCaller k stage))
  | callerCanceled {place k : Nat} {c : Caller} {stage : CallerStage} (current : e.current = some (.caller k))
      (at_k : e.callers[k]? = some c) (life : c.life = .live stage true) :
      Happens e (.turn place) (settleCaller k (e.cancelCaller stage))
  | joiner {place k : Nat} {stage : JoinerStage} (current : e.current = some (.joiner k))
      (life : e.joiners[k]? = some (.live stage false)) :
      Happens e (.turn place) (settleJoiner k (e.moveJoiner stage))
  | joinerCanceled {place k : Nat} {stage : JoinerStage} (current : e.current = some (.joiner k))
      (life : e.joiners[k]? = some (.live stage true)) :
      Happens e (.turn place) (settleJoiner k (e, .stop .canceled))
  | closer {place k : Nat} {stage : CloserStage} (current : e.current = some (.closer k))
      (life : e.closers[k]? = some (.live stage false)) :
      Happens e (.turn place) (settleCloser k (e.moveCloser stage))
  | closerCanceled {place k : Nat} {stage : CloserStage} (current : e.current = some (.closer k))
      (life : e.closers[k]? = some (.live stage true)) :
      Happens e (.turn place) (settleCloser k (e, .stop .canceled))
  | host {deed : Deed} (free : e.current = none) : Happens e (.host deed) (e.undergo deed)

section Acts

variable {e e' : Engine}

theorem moveCourse_happens (calm : e.Calm) (orderly : e.Orderly) (place : Nat) {x : Nat}
    (current : e.current = some (.course x)) : Happens e (.turn place) (e.move (.course x)) := by
  unfold move
  dsimp only
  cases hx : e.courses[x]? with
  | none =>
    exact .vacant current (by simp [isOver, hx])
  | some c =>
    dsimp only
    cases life : c.life with
    | live stage interrupted =>
      cases interrupted with
      | false =>
        obtain ⟨names, names_eq⟩ := orderly.names hx
        obtain ⟨eff, advance, move_eq, result⟩ := moveCourse_advances calm hx names_eq stage
          (orderly.fits c (List.mem_of_getElem? hx) stage false life)
        dsimp only
        rw [← Prod.eta (e.moveCourse x c stage), move_eq, result, settleCourse_realize _ _ _ hx]
        exact .course current hx (.advanced life advance)
      | true =>
        have h := settleCourse_realize (.quiet c.execution c.scheduled (cancelCourse stage)) e.journal e.log hx
        rw [realize_quiet hx] at h
        dsimp only at h ⊢
        rw [h]
        exact .course current hx (.diverted life)
    | ended ending =>
      exact .vacant current (by simp [isOver, hx, life, Life.isOver])

theorem moveDelivery_happens (calm : e.Calm) (orderly : e.Orderly) (place : Nat) {k : Nat}
    (current : e.current = some (.delivery k)) : Happens e (.turn place) (e.move (.delivery k)) := by
  unfold move
  dsimp only
  cases hk : e.deliveries[k]? with
  | none => exact .vacant current (by simp [isOver, hk])
  | some d =>
    have mem := List.mem_of_getElem? hk
    obtain ⟨c, hc⟩ : ∃ c, e.courses[d.execution]? = some c :=
      ⟨_, List.getElem?_eq_getElem (orderly.delivery_for d mem)⟩
    have execution_eq : e.execution? d.execution = some c.execution := by simp [execution?, hc]
    dsimp only
    rw [execution_eq]
    cases life : d.life with
    | live stage interrupted =>
      cases interrupted with
      | false =>
        obtain ⟨names, names_eq⟩ := orderly.names hc
        obtain ⟨eff, delivers, move_eq, result⟩ := moveDelivery_delivers (d := d) calm names_eq stage
          (orderly.delivery_fits d mem stage false life)
        dsimp only
        rw [← Prod.eta (e.moveDelivery d _ stage), move_eq, result]
        simp only [settleDelivery, modify_eq_set hk]
        exact .delivery current hk (.delivered life delivers)
      | true =>
        -- a move that notes and announces nothing writes nothing to the journal either
        have moved := fun journal log => @Happens.delivery e place k d _ journal log current hk (.diverted life)
        simp only [realizeDelivery, List.append_nil, ite_self] at moved
        simp only [settleDelivery, modify_eq_set hk]
        exact moved e.journal e.log
    | ended ending => exact .vacant current (by simp [isOver, hk, life, Life.isOver])

theorem move_happens (calm : e.Calm) (orderly : e.Orderly) (place : Nat) {t : TaskId} (current : e.current = some t) :
    Happens e (.turn place) (e.move t) := by
  cases t with
  | course x => exact moveCourse_happens calm orderly place current
  | delivery k => exact moveDelivery_happens calm orderly place current
  | caller k =>
    unfold move
    dsimp only
    cases hk : e.callers[k]? with
    | none => exact .vacant current (by simp [isOver, hk])
    | some c =>
      dsimp only
      cases life : c.life with
      | live stage interrupted =>
        cases interrupted with
        | false => exact .caller current hk life
        | true => exact .callerCanceled current hk life
      | ended ending => exact .vacant current (by simp [isOver, hk, life, Life.isOver])
  | joiner k =>
    unfold move
    dsimp only
    cases life : e.joiners[k]? with
    | none => exact .vacant current (by simp [isOver, life])
    | some standing =>
      cases standing with
      | live stage interrupted =>
        cases interrupted with
        | false => exact .joiner current life
        | true => exact .joinerCanceled current life
      | ended ending => exact .vacant current (by simp [isOver, life, Life.isOver])
  | closer k =>
    unfold move
    dsimp only
    cases life : e.closers[k]? with
    | none => exact .vacant current (by simp [isOver, life])
    | some standing =>
      cases standing with
      | live stage interrupted =>
        cases interrupted with
        | false => exact .closer current life
        | true => exact .closerCanceled current life
      | ended ending => exact .vacant current (by simp [isOver, life, Life.isOver])

/-- **What happens in an act** on an orderly calm engine. -/
theorem act_happens (calm : e.Calm) (orderly : e.Orderly) (a : Act) : Happens e a (e.act a) := by
  cases a with
  | turn place =>
    unfold act turnAt
    dsimp only
    cases current : e.current with
    | some t => exact move_happens calm orderly place current
    | none =>
      dsimp only
      cases at_place : e.ready[place]? with
      | some t => exact .chosen current at_place
      | none => exact .still fun _ _ => current
  | host deed =>
    unfold act
    dsimp only
    split
    case isTrue free => exact .host free
    case isFalse => exact .still fun _ turn => by cases turn

/-- What happens moves the task of one execution, or one detached call, or neither. -/
theorem Happens.outline {a : Act} (h : Happens e a e') (calm : e.Calm) (orderly : e.Orderly) : Outline e e' := by
  have other : (∀ x, e.current ≠ some (.course x)) → Elsewhere e e' → Outline e e' :=
    fun ne elsewhere => .other (fun x _ current _ => absurd current (ne x)) elsewhere
  have same : Elsewhere e e := (Signals.refl e).elsewhere
  cases h with
  | still => exact .still
  | chosen free => exact other (by simp [free]) (same.congr rfl rfl rfl rfl rfl rfl)
  | vacant current stopped =>
    refine .other (fun x c hx hc => ?_) (same.congr rfl rfl rfl rfl rfl rfl)
    rw [current] at hx
    simpa [isOver, Option.some.inj hx, hc] using stopped
  | course current at_x moved => exact .course current at_x moved
  | delivery current at_k moved => exact .delivery current at_k moved
  | caller current => exact other (by simp [current]) (settleCaller_elsewhere _ (moveCaller_elsewhere e _ _))
  | callerCanceled current =>
    exact other (by simp [current]) (settleCaller_elsewhere _ (signals_nudging.cancelCaller e _).elsewhere)
  | joiner current =>
    exact other (by simp [current]) (settleJoiner_elsewhere _ (signals_nudging.moveJoiner e _).elsewhere)
  | joinerCanceled current => exact other (by simp [current]) (settleJoiner_elsewhere _ same)
  | closer current =>
    exact other (by simp [current]) (settleCloser_elsewhere _ (signals_nudging.moveCloser e _).elsewhere)
  | closerCanceled current => exact other (by simp [current]) (settleCloser_elsewhere _ same)
  | host free => exact other (by simp [free]) (undergo_elsewhere calm orderly _)

/-- **What an act can do** to executions and detached calls. -/
theorem act_outline (calm : e.Calm) (orderly : e.Orderly) (a : Act) : Outline e (e.act a) :=
  (act_happens calm orderly a).outline calm orderly

end Acts

end Stepflow.Engine
