import Stepflow.Proofs.Engine.Moves
import Stepflow.Proofs.Engine.Nudging

/-!
# Stepflow.Proofs.Engine.Outline — what one act can do to executions and calls

Three things can happen in an act (`Outline`), if anything does: the task of an execution moves (`Moved`), a detached
call moves (`MovedDelivery`), or neither, and then executions are only signaled, marked as canceled or accepted by the
host (`Elsewhere`).  A property of executions or calls is kept by an act once it is kept in the three cases.  Here are the
parts of the engine that stay elsewhere: signals to tasks, the moves of those who wait, the deeds of the host.
-/

namespace Stepflow

/-! ## Signals -/

/-- Two lists of one length whose entries are related place by place. -/
def Pointwise {α : Type} (R : α → α → Prop) (l l' : List α) : Prop :=
  l'.length = l.length ∧ ∀ (i : Nat) (a : α), l[i]? = some a → ∃ b, l'[i]? = some b ∧ R a b

namespace Pointwise

variable {α : Type} {R : α → α → Prop} {l l' l'' : List α}

theorem refl (hR : ∀ a, R a a) (l : List α) : Pointwise R l l := ⟨rfl, fun _ a h => ⟨a, h, hR a⟩⟩

theorem trans (hR : ∀ a b c, R a b → R b c → R a c) (h : Pointwise R l l') (h' : Pointwise R l' l'') :
    Pointwise R l l'' := by
  refine ⟨h'.1.trans h.1, fun i a ha => ?_⟩
  obtain ⟨b, hb, hab⟩ := h.2 i a ha
  obtain ⟨c, hc, hbc⟩ := h'.2 i b hb
  exact ⟨c, hc, hR a b c hab hbc⟩

theorem mono {S : α → α → Prop} (hRS : ∀ a b, R a b → S a b) (h : Pointwise R l l') : Pointwise S l l' := by
  refine ⟨h.1, fun i a ha => ?_⟩
  obtain ⟨b, hb, hab⟩ := h.2 i a ha
  exact ⟨b, hb, hRS a b hab⟩

theorem modify (hR : ∀ a, R a a) (l : List α) (i : Nat) (f : α → α) (hf : ∀ a, R a (f a)) :
    Pointwise R l (l.modify i f) := by
  refine ⟨List.length_modify f l i, fun j a ha => ?_⟩
  rw [List.getElem?_modify, ha]
  by_cases hij : i = j
  · exact ⟨f a, by simp [hij], hf a⟩
  · exact ⟨a, by simp [hij], hR a⟩

theorem set (hR : ∀ a, R a a) {i : Nat} {a b : α} (ha : l[i]? = some a) (hab : R a b) :
    Pointwise R l (l.set i b) := by
  refine ⟨List.length_set, fun j d hd => ?_⟩
  by_cases hij : i = j
  · subst hij
    obtain rfl : a = d := by simpa [ha] using hd
    exact ⟨b, Engine.set_getElem? ha, hab⟩
  · exact ⟨d, by rw [List.getElem?_set_ne hij]; exact hd, hR d⟩

end Pointwise

theorem Life.interrupt_interrupt {σ : Type} (life : Life σ) : life.interrupt.interrupt = life.interrupt := by
  cases life <;> rfl

theorem Life.isOver_interrupt {σ : Type} (life : Life σ) : life.interrupt.isOver = life.isOver := by
  cases life <;> rfl

/-- An execution is as it was; its task may have been sent a cancellation, and a reason for it. -/
structure Signaled (c c' : Course) : Prop where
  execution : c'.execution = c.execution
  scheduled : c'.scheduled = c.scheduled
  life : c'.life = c.life ∨ c'.life = c.life.interrupt
  reason : c'.reason = c.reason ∨ c'.reason.isSome = true

theorem Signaled.refl (c : Course) : Signaled c c := ⟨rfl, rfl, .inl rfl, .inl rfl⟩

theorem Signaled.trans {c c' c'' : Course} (h : Signaled c c') (h' : Signaled c' c'') : Signaled c c'' := by
  refine ⟨h'.execution.trans h.execution, h'.scheduled.trans h.scheduled, ?_, ?_⟩
  · rcases h'.life with hl | hl <;> rcases h.life with hk | hk <;>
      simp [hl, hk, Life.interrupt_interrupt]
  · rcases h'.reason with hr | hr
    · rcases h.reason with hs | hs
      · exact .inl (hr.trans hs)
      · exact .inr (by rw [hr]; exact hs)
    · exact .inr hr

/-- A detached call is as it was; its task may have been sent a cancellation. -/
def SignaledDelivery (d d' : Delivery) : Prop := d' = d ∨ d' = { d with life := d.life.interrupt }

theorem SignaledDelivery.trans {d d' d'' : Delivery} (h : SignaledDelivery d d') (h' : SignaledDelivery d' d'') :
    SignaledDelivery d d'' := by
  rcases h with rfl | rfl <;> rcases h' with rfl | rfl <;> simp [SignaledDelivery, Life.interrupt_interrupt]

/-- An execution that has not ended is marked as canceled at a time: one that has not begun, whose task is sent the
cancellation too, or one whose task is over. -/
inductive Marked (now : Rat) (c : Course) : Course → Prop
  | waiting {stage : Stage} {interrupted : Bool} {names : List String} {reason : String}
      (names_eq : c.execution.names = .ok names) (idle : c.execution.status = .idle)
      (life : c.life = .live stage interrupted) :
      Marked now c ⟨c.execution.canceledFor now names reason, c.scheduled, .live stage true, some reason⟩
  | stranded {ending : Ending} {names : List String} {reason : String}
      (names_eq : c.execution.names = .ok names) (unfinished : c.execution.isFinished = false)
      (life : c.life = .over ending) :
      Marked now c ⟨c.execution.canceledFor now names reason, c.scheduled, .over ending, c.reason⟩

/-- What happens to an execution while its own task stands still. -/
def Touched (now : Rat) (c c' : Course) : Prop := Signaled c c' ∨ Marked now c c'

theorem Touched.refl (now : Rat) (c : Course) : Touched now c c := .inl (.refl c)

/-! ## The three cases -/

/-- A move of the task of an execution, or where a cancellation leads that meets it. -/
inductive Moved (e : Engine) (x : Nat) (c : Course) : Effect → Prop
  | advanced {stage : Stage} {eff : Effect} (life : c.life = .live stage false) (advance : Advance e x c stage eff) :
      Moved e x c eff
  | diverted {stage : Stage} (life : c.life = .live stage true) :
      Moved e x c (.quiet c.execution c.scheduled (Engine.cancelCourse stage))

/-- A move of a detached call, or where a cancellation leads that meets it. -/
inductive MovedDelivery (e : Engine) (d : Delivery) : DeliveryEffect → Prop
  | delivered {stage : DeliveryStage} {eff : DeliveryEffect} (life : d.life = .live stage false)
      (delivers : Delivers e d stage eff) : MovedDelivery e d eff
  | diverted {stage : DeliveryStage} (life : d.life = .live stage true) :
      MovedDelivery e d ⟨Engine.cancelDelivery stage, [], []⟩

namespace Engine

/-- Executions are touched from outside, and the host may have one accepted; no call is made. -/
structure Elsewhere (e e' : Engine) : Prop where
  courses : ∃ touched : List Course, ∃ born : Option Execution,
    e'.courses = touched ++ (born.map Course.fresh).toList ∧ Pointwise (Touched e.clock) e.courses touched ∧
      ∀ x, born = some x → ∃ workflow state, x = .root e.clock workflow state
  deliveries : Pointwise SignaledDelivery e.deliveries e'.deliveries
  calls : e'.calls = e.calls
  settings : e'.settings = e.settings
  process : e'.process = e.process
  bus : e'.bus = e.bus

/-- What one act can do. -/
inductive Outline (e : Engine) : Engine → Prop
  | still : Outline e e
  | course {x : Nat} {c : Course} {eff : Effect} {journal : List Note} {log : List LogEntry}
      (current : e.current = some (.course x)) (at_x : e.courses[x]? = some c) (moved : Moved e x c eff) :
      Outline e ((e.realize x (eff.course c) eff journal log).handOn (.course x) eff.move)
  | delivery {k : Nat} {d : Delivery} {eff : DeliveryEffect} {journal : List Note} {log : List LogEntry}
      (current : e.current = some (.delivery k)) (at_k : e.deliveries[k]? = some d) (moved : MovedDelivery e d eff) :
      Outline e ((e.realizeDelivery k { d with life := lifeAfter eff.move } eff journal log).handOn (.delivery k)
        eff.move)
  | other {e' : Engine} (unmoved : ∀ x c, e.current = some (.course x) → e.courses[x]? = some c →
      c.life.isOver = true) (elsewhere : Elsewhere e e') : Outline e e'

/-- Paths are made of texts, no task stands where the bus would have to fail, and detached calls are for executions
that exist. -/
structure Orderly (e : Engine) : Prop where
  texts : ∀ c ∈ e.courses, ∃ names : List String, c.execution.path = names.map .text
  fits : ∀ c ∈ e.courses, ∀ stage interrupted, c.life = .live stage interrupted →
    stage.Fits c.execution.workflow.steps
  delivery_fits : ∀ d ∈ e.deliveries, ∀ stage interrupted, d.life = .live stage interrupted → stage.Fits
  delivery_for : ∀ d ∈ e.deliveries, d.execution < e.courses.length

/-! ## Signals to tasks -/

section Signals

variable {e e' e'' : Engine}

/-- Tasks may have been sent cancellations and reasons; nothing else about executions and calls is different. -/
structure Signals (e e' : Engine) : Prop where
  courses : Pointwise Signaled e.courses e'.courses
  deliveries : Pointwise SignaledDelivery e.deliveries e'.deliveries
  calls : e'.calls = e.calls
  settings : e'.settings = e.settings
  process : e'.process = e.process
  bus : e'.bus = e.bus

theorem Signals.of_eq (courses : e'.courses = e.courses) (deliveries : e'.deliveries = e.deliveries)
    (calls : e'.calls = e.calls) (settings : e'.settings = e.settings) (process : e'.process = e.process)
    (bus : e'.bus = e.bus) : Signals e e' := by
  refine ⟨?_, ?_, calls, settings, process, bus⟩
  · rw [courses]; exact .refl .refl _
  · rw [deliveries]; exact .refl (fun d => .inl rfl) _

theorem Signals.refl (e : Engine) : Signals e e := .of_eq rfl rfl rfl rfl rfl rfl

theorem Signals.trans (h : Signals e e') (h' : Signals e' e'') : Signals e e'' where
  courses := h.courses.trans (fun _ _ _ => Signaled.trans) h'.courses
  deliveries := h.deliveries.trans (fun _ _ _ => SignaledDelivery.trans) h'.deliveries
  calls := h'.calls.trans h.calls
  settings := h'.settings.trans h.settings
  process := h'.process.trans h.process
  bus := h'.bus.trans h.bus

theorem updateCourse_signals (x : Nat) (f : Course → Course) (hf : ∀ c, Signaled c (f c)) :
    Signals e (e.updateCourse x f) :=
  ⟨.modify .refl _ x f hf, .refl (fun _ => .inl rfl) _, rfl, rfl, rfl, rfl⟩

theorem giveReason_signals (e : Engine) (x : Nat) (reason : String) : Signals e (e.giveReason x reason) := by
  refine updateCourse_signals x _ fun c => ⟨rfl, rfl, .inl rfl, .inr ?_⟩
  cases c.reason <;> rfl

theorem setReason_signals (e : Engine) (x : Nat) (reason : String) : Signals e (e.setReason x reason) :=
  updateCourse_signals x _ fun _ => ⟨rfl, rfl, .inl rfl, .inr rfl⟩

theorem flag_signals (e : Engine) (t : TaskId) : Signals e (e.flag t) := by
  cases t with
  | course x => exact updateCourse_signals x _ fun _ => ⟨rfl, rfl, .inr rfl, .inl rfl⟩
  | delivery k =>
    exact ⟨.refl .refl _, .modify (fun _ => .inl rfl) _ k _ fun _ => .inr rfl, rfl, rfl, rfl, rfl⟩
  | caller k | joiner k | closer k => exact .of_eq rfl rfl rfl rfl rfl rfl

theorem interrupt_signals (e : Engine) (t : TaskId) : Signals e (e.interrupt t) := by
  unfold interrupt
  split
  · exact .refl e
  · refine (flag_signals e t).trans ?_
    dsimp only
    split
    · exact .of_eq rfl rfl rfl rfl rfl rfl
    · exact .refl _

theorem signals_nudging : Nudging Signals where
  refl := .refl
  trans := .trans
  report _ _ _ := .of_eq rfl rfl rfl rfl rfl rfl
  give := giveReason_signals
  send := interrupt_signals
  flag e k := flag_signals e (.joiner k)

end Signals

/-! ## Acts that move neither executions nor detached calls -/

section Elsewhere

variable {e e' : Engine}

theorem Signals.elsewhere (h : Signals e e') : Elsewhere e e' where
  courses := ⟨e'.courses, none, by simp, h.courses.mono fun _ _ => .inl, by simp⟩
  deliveries := h.deliveries
  calls := h.calls
  settings := h.settings
  process := h.process
  bus := h.bus

/-- What the processor, the queue, the waits and the observers do is of no concern to executions and calls. -/
theorem Elsewhere.congr {e'' : Engine} (h : Elsewhere e e') (courses : e''.courses = e'.courses)
    (deliveries : e''.deliveries = e'.deliveries) (calls : e''.calls = e'.calls)
    (settings : e''.settings = e'.settings) (process : e''.process = e'.process) (bus : e''.bus = e'.bus) :
    Elsewhere e e'' where
  courses := by rw [courses]; exact h.courses
  deliveries := by rw [deliveries]; exact h.deliveries
  calls := calls.trans h.calls
  settings := settings.trans h.settings
  process := process.trans h.process
  bus := bus.trans h.bus

theorem submit_elsewhere (e : Engine) (workflow : Workflow) (state : State) :
    Elsewhere e (e.submit (.root e.clock workflow state)) where
  courses := ⟨e.courses, some (.root e.clock workflow state), by simp [submit, Course.fresh], .refl (.refl _) _, by
    rintro _ ⟨rfl⟩
    exact ⟨workflow, state, rfl⟩⟩
  deliveries := .refl (fun _ => .inl rfl) _
  calls := rfl
  settings := rfl
  process := rfl
  bus := rfl

section HandOn

variable {σ : Type} (e : Engine) (t : TaskId) (m : Move σ)

@[simp] theorem handOn_courses : (e.handOn t m).courses = e.courses := by cases m <;> rfl

@[simp] theorem handOn_deliveries : (e.handOn t m).deliveries = e.deliveries := by cases m <;> rfl

@[simp] theorem handOn_calls : (e.handOn t m).calls = e.calls := by cases m <;> rfl

@[simp] theorem handOn_settings : (e.handOn t m).settings = e.settings := by cases m <;> rfl

@[simp] theorem handOn_process : (e.handOn t m).process = e.process := by cases m <;> rfl

@[simp] theorem handOn_bus : (e.handOn t m).bus = e.bus := by cases m <;> rfl

@[simp] theorem handOn_registry : (e.handOn t m).registry = e.registry := by cases m <;> rfl

end HandOn

theorem Elsewhere.handOn {σ : Type} (h : Elsewhere e e') (t : TaskId) (m : Move σ) : Elsewhere e (e'.handOn t m) :=
  h.congr (handOn_courses _ _ _) (handOn_deliveries _ _ _) (handOn_calls _ _ _) (handOn_settings _ _ _)
    (handOn_process _ _ _) (handOn_bus _ _ _)

theorem settleCaller_elsewhere {r : Engine × Move CallerStage} (k : Nat) (h : Elsewhere e r.1) :
    Elsewhere e (settleCaller k r) := by
  refine Elsewhere.handOn ?_ (.caller k) r.2
  exact h.congr rfl rfl rfl rfl rfl rfl

theorem settleJoiner_elsewhere {r : Engine × Move JoinerStage} (k : Nat) (h : Elsewhere e r.1) :
    Elsewhere e (settleJoiner k r) := by
  refine Elsewhere.handOn ?_ (.joiner k) r.2
  exact h.congr rfl rfl rfl rfl rfl rfl

theorem settleCloser_elsewhere {r : Engine × Move CloserStage} (k : Nat) (h : Elsewhere e r.1) :
    Elsewhere e (settleCloser k r) := by
  refine Elsewhere.handOn ?_ (.closer k) r.2
  exact h.congr rfl rfl rfl rfl rfl rfl

theorem moveCaller_elsewhere (e : Engine) (k : Nat) (stage : CallerStage) :
    Elsewhere e (e.moveCaller k stage).1 := by
  cases stage with
  | entering workflow initial =>
    simp only [moveCaller]
    cases State.freeze initial with
    | error f => exact (Signals.refl e).elsewhere
    | ok state => exact (submit_elsewhere e workflow state).congr rfl rfl rfl rfl rfl rfl
  | awaiting x | surrendering x => exact (Signals.refl e).elsewhere

theorem start_elsewhere (e : Engine) (workflow : Workflow) (initial : Datum) :
    Elsewhere e (e.undergo (.start workflow initial)) := by
  simp only [undergo, start]
  cases State.freeze initial with
  | error f => exact (Signals.refl e).elsewhere
  | ok state => exact submit_elsewhere e workflow state

theorem tick_elsewhere (e : Engine) (time : Rat) : Elsewhere e (e.undergo (.pass time)) := by
  simp only [undergo]
  split
  · exact (Signals.refl e).elsewhere.congr rfl rfl rfl rfl rfl rfl
  · exact (Signals.refl e).elsewhere

theorem register_elsewhere (e : Engine) (stepType : String) (offered : Offer Handler) :
    Elsewhere e (e.undergo (.register stepType offered)) := by
  simp only [undergo, register]
  split <;> exact (Signals.refl e).elsewhere.congr rfl rfl rfl rfl rfl rfl

theorem announce_frame (e : Engine) (event : Lifecycle) :
    (e.announce event).1.deliveries = e.deliveries ∧ (e.announce event).1.calls = e.calls ∧
      (e.announce event).1.settings = e.settings ∧ (e.announce event).1.process = e.process ∧
      (e.announce event).1.bus = e.bus := by
  unfold announce
  cases h : e.bus <;> simp [h]

theorem markCanceled_frame (e : Engine) (x : Nat) (execution : Execution) (reason : String) :
    (e.markCanceled x execution reason).1.deliveries = e.deliveries ∧
      (e.markCanceled x execution reason).1.calls = e.calls ∧
      (e.markCanceled x execution reason).1.settings = e.settings ∧
      (e.markCanceled x execution reason).1.process = e.process ∧
      (e.markCanceled x execution reason).1.bus = e.bus := by
  simp only [markCanceled]
  split
  · exact announce_frame _ _
  · exact ⟨rfl, rfl, rfl, rfl, rfl⟩
  · exact ⟨rfl, rfl, rfl, rfl, rfl⟩

/-- What is told about a cancellation does not matter for the engine. -/
theorem told_fst (r : Engine × Except Failure (Lifecycle × Reaction)) :
    (match r with
      | (e', .error f) => ((e', .error f) : Engine × Except Failure Unit)
      | (e', .ok (event, .reject)) => (e', .error (.busRejected event.name))
      | (e', .ok _) => (e', .ok ())).1 = r.1 := by
  obtain ⟨e', result⟩ := r
  cases result with
  | error f => rfl
  | ok p =>
    obtain ⟨event, reaction⟩ := p
    cases reaction <;> rfl

theorem interrupt_courses (e : Engine) (x : Nat) : (e.interrupt (.course x)).courses =
    e.courses.modify x (fun c => { c with life := c.life.interrupt }) := by
  unfold interrupt
  split
  case isTrue stopped =>
    refine List.ext_getElem? fun y => ?_
    rw [List.getElem?_modify]
    by_cases hxy : x = y
    · subst hxy
      cases hc : e.courses[x]? with
      | none => rfl
      | some c =>
        obtain ⟨execution, scheduled, life, reason⟩ := c
        cases life with
        | live stage interrupted => simp [isOver, hc, Life.isOver] at stopped
        | ended ending => simp [Life.interrupt]
    · simp [hxy]
  case isFalse =>
    dsimp only
    split <;> rfl

theorem interrupt_clock (e : Engine) (t : TaskId) : (e.interrupt t).clock = e.clock := by
  have flagged : (e.flag t).clock = e.clock := by cases t <;> rfl
  unfold interrupt
  split
  · rfl
  · dsimp only
    split <;> exact flagged

/-- The engine once the task of an execution, if it is live, has been sent a cancellation with its reason. -/
def sendCancel (e : Engine) (x : Nat) (c : Course) (reason : String) : Engine :=
  if c.life.isOver = true then e else (e.setReason x reason).interrupt (.course x)

theorem sendCancel_signals (e : Engine) (x : Nat) (c : Course) (reason : String) :
    Signals e (e.sendCancel x c reason) := by
  unfold sendCancel
  split
  · exact .refl e
  · exact (setReason_signals e x reason).trans (interrupt_signals _ (.course x))

theorem sendCancel_clock (e : Engine) (x : Nat) (c : Course) (reason : String) :
    (e.sendCancel x c reason).clock = e.clock := by
  unfold sendCancel
  split
  · rfl
  · exact interrupt_clock _ _

theorem cancel_eq {e : Engine} {x : Nat} {c : Course} (hx : e.courses[x]? = some c)
    (unfinished : c.execution.isFinished = false) (id reason : String) : (e.cancel (some x) id reason).1 =
      if c.execution.status = .idle ∨ c.life.isOver = true then
        ((e.sendCancel x c reason).markCanceled x c.execution reason).1
      else e.sendCancel x c reason := by
  simp only [cancel, Option.bind_some, hx, Option.map_some, unfinished, sendCancel]
  cases c.life.isOver with
  | true =>
    simp only [Bool.not_true, or_true, if_true, Bool.false_eq_true, if_false]
    exact told_fst _
  | false =>
    simp only [Bool.not_false, if_true, Bool.true_eq_false, or_false, Bool.false_eq_true, if_false]
    split
    · exact told_fst _
    · rfl

/-- Canceling does nothing, or sends a cancellation, or marks the execution as well. -/
theorem cancel_cases (e : Engine) (x : Option Nat) (id reason : String) : (e.cancel x id reason).1 = e ∨
    ∃ y c, x = some y ∧ e.courses[y]? = some c ∧ ((e.cancel x id reason).1 = e.sendCancel y c reason ∨
      (e.cancel x id reason).1 = ((e.sendCancel y c reason).markCanceled y c.execution reason).1) := by
  cases x with
  | none => exact .inl rfl
  | some y =>
    cases hy : e.courses[y]? with
    | none => exact .inl (by simp [cancel, hy])
    | some c =>
      by_cases finished : c.execution.isFinished = true
      · exact .inl (by simp [cancel, hy, finished])
      · refine .inr ⟨y, c, rfl, hy, ?_⟩
        rw [cancel_eq hy (by simpa using finished)]
        split
        · exact .inr rfl
        · exact .inl rfl

/-- Canceling an execution that has not ended: its task is sent the cancellation with its reason, and if it has not
begun, or its task is over, it is marked. -/
theorem cancel_touched {e : Engine} {x : Nat} {c : Course} {names : List String} (calm : e.Calm)
    (hx : e.courses[x]? = some c) (names_eq : c.execution.names = .ok names)
    (unfinished : c.execution.isFinished = false) (id reason : String) :
    ∃ c', (Signaled c c' ∧ c.execution.status ≠ .idle ∨ Marked e.clock c c') ∧
      (e.cancel (some x) id reason).1.courses = e.courses.set x c' ∧
      c'.life = c.life.interrupt ∧ (c.life.isOver = false → c'.reason = some reason) := by
  rw [cancel_eq hx unfinished]
  have after : ((e.setReason x reason).interrupt (.course x)).courses =
      e.courses.set x { c with reason := some reason, life := c.life.interrupt } := by
    rw [interrupt_courses, setReason, updateCourse, List.modify_modify_eq, modify_eq_set hx]
    rfl
  obtain ⟨execution, scheduled, life, old⟩ := c
  -- a live task gets the reason; if it is over, the old reason stays and the execution is marked
  cases life with
  | live stage interrupted =>
    have signals := (setReason_signals e x reason).trans (interrupt_signals _ (.course x))
    simp only [sendCancel, Life.isOver, Bool.false_eq_true, if_false, or_false]
    by_cases idle : execution.status = .idle
    · rw [if_pos idle]
      refine ⟨⟨execution.canceledFor e.clock names reason, scheduled, .live stage true, some reason⟩,
        .inr (.waiting names_eq idle rfl), ?_, rfl, fun _ => rfl⟩
      have at_x : ((e.setReason x reason).interrupt (.course x)).courses[x]? = some
          ⟨execution, scheduled, .live stage true, some reason⟩ := by
        rw [after]; exact set_getElem? hx
      rw [markCanceled_calm (fun react hr => calm react (signals.bus ▸ hr)) at_x names_eq]
      simp only [after, List.set_set, interrupt_clock]
      rfl
    · rw [if_neg idle]
      exact ⟨⟨execution, scheduled, .live stage true, some reason⟩,
        .inl ⟨⟨rfl, rfl, .inr rfl, .inr rfl⟩, idle⟩, after, rfl, fun _ => rfl⟩
  | ended ending =>
    simp only [sendCancel, Life.isOver, or_true, if_true]
    refine ⟨⟨execution.canceledFor e.clock names reason, scheduled, .over ending, old⟩,
      .inr (.stranded names_eq unfinished rfl), ?_, rfl, fun h => absurd h (by simp)⟩
    rw [markCanceled_calm calm hx names_eq]

theorem cancel_elsewhere {e : Engine} (calm : e.Calm)
    (named : ∀ c ∈ e.courses, ∃ names, c.execution.names = .ok names) (x : Option Nat) (id reason : String) :
    Elsewhere e (e.cancel x id reason).1 := by
  cases x with
  | none => exact (Signals.refl e).elsewhere
  | some x =>
    cases hx : e.courses[x]? with
    | none => simpa [cancel, hx] using (Signals.refl e).elsewhere
    | some c =>
      by_cases finished : c.execution.isFinished = true
      · simpa [cancel, hx, finished] using (Signals.refl e).elsewhere
      · obtain ⟨names, names_eq⟩ := named c (List.mem_of_getElem? hx)
        have unfinished : c.execution.isFinished = false := by simpa using finished
        obtain ⟨c', touched, courses, -⟩ := cancel_touched calm hx names_eq unfinished id reason
        have touched : Touched e.clock c c' := touched.imp And.left fun h => h
        have signals := sendCancel_signals e x c reason
        obtain ⟨h1, h2, h3, h4, h5⟩ := markCanceled_frame (e.sendCancel x c reason) x c.execution reason
        refine ⟨⟨_, none, by simpa using courses, .set (.refl _) hx touched, by simp⟩, ?_, ?_, ?_, ?_, ?_⟩ <;>
          rw [cancel_eq hx unfinished] <;> split
        · rw [h1]; exact signals.deliveries
        · exact signals.deliveries
        · rw [h2]; exact signals.calls
        · exact signals.calls
        · rw [h3]; exact signals.settings
        · exact signals.settings
        · rw [h4]; exact signals.process
        · exact signals.process
        · rw [h5]; exact signals.bus
        · exact signals.bus

end Elsewhere

/-! ## Orderly engines -/

section Orderly

variable {e : Engine}

theorem pathTexts_map_text (i : Nat) (names : List String) : Execution.pathTexts i (names.map .text) = .ok names := by
  induction names generalizing i with
  | nil => rfl
  | cons name names ih => simp [Execution.pathTexts, ih, Except.map]

theorem path_of_pathTexts {i : Nat} {path : List Datum} {names : List String}
    (h : Execution.pathTexts i path = .ok names) : path = names.map .text := by
  induction path generalizing i names with
  | nil =>
    obtain rfl : [] = names := by simpa [Execution.pathTexts] using h
    rfl
  | cons d path ih =>
    cases d with
    | text s =>
      cases rest : Execution.pathTexts (i + 1) path with
      | error f => simp [Execution.pathTexts, rest, Except.map] at h
      | ok more =>
        obtain rfl : s :: more = names := by simpa [Execution.pathTexts, rest, Except.map] using h
        rw [ih rest, List.map_cons]
    | _ => simp [Execution.pathTexts] at h

theorem names_of_path {x : Execution} {names : List String} (h : x.path = names.map .text) : x.names = .ok names := by
  rw [Execution.names, h, pathTexts_map_text]

theorem Orderly.names (h : e.Orderly) {x : Nat} {c : Course} (hx : e.courses[x]? = some c) :
    ∃ names, c.execution.names = .ok names := by
  obtain ⟨names, hn⟩ := h.texts c (List.mem_of_getElem? hx)
  exact ⟨names, names_of_path hn⟩

theorem undergo_elsewhere (calm : e.Calm) (orderly : e.Orderly) (deed : Deed) : Elsewhere e (e.undergo deed) := by
  have same : Elsewhere e e := (Signals.refl e).elsewhere
  cases deed with
  | start workflow initial => exact start_elsewhere e workflow initial
  | cancel x id reason =>
    refine cancel_elsewhere calm (fun c hc => ?_) x id reason
    obtain ⟨names, hn⟩ := orderly.texts c hc
    exact ⟨names, names_of_path hn⟩
  | cancelRun k => exact (interrupt_signals e _).elsewhere
  | cancelJoin k => exact (signals_nudging.cancelJoin e k).elsewhere
  | register stepType offered => exact register_elsewhere e stepType offered
  | pass time => exact tick_elsewhere e time
  | run workflow initial => exact same.congr rfl rfl rfl rfl rfl rfl
  | join => exact same.congr rfl rfl rfl rfl rfl rfl
  | shutdown timeout => exact same.congr rfl rfl rfl rfl rfl rfl
  | release slot => exact same.congr rfl rfl rfl rfl rfl rfl
  | releaseBus => exact same.congr rfl rfl rfl rfl rfl rfl
  | unregister stepType => exact same.congr rfl rfl rfl rfl rfl rfl

end Orderly

end Engine

end Stepflow
