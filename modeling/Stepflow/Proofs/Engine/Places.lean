import Mathlib.Data.List.Perm.Basic
import Stepflow.Proofs.Engine.Fate

/-!
# Stepflow.Proofs.Engine.Places — every task is in one place

A task has the processor, is ready or waits.  `Placed`: no task is in two places, and a task that does not exist is in
none.  `Shuffles`: from one state to another no task takes a second place and the queue only grows at its end; this is
what every act does but the choice of the next task (`Happens.shuffles`).  `Sound.placed` follows.
-/

namespace Stepflow

/-- A move does not both spawn and dispatch. -/
theorem Moved.born_or_dispatched {e : Engine} {x : Nat} {c : Course} {eff : Effect} (h : Moved e x c eff) :
    eff.born = none ∨ eff.dispatched = none := by
  cases h with
  | diverted => exact .inl rfl
  | advanced _ advance =>
    cases advance <;> simp

namespace Engine

/-- In how many places a task is. -/
def presence (e : Engine) (t : TaskId) : Nat :=
  e.current.toList.count t + e.ready.count t + (e.waits.map Prod.fst).count t

/-- The task exists. -/
def Has (e : Engine) : TaskId → Prop
  | .course x => x < e.courses.length
  | .delivery k => k < e.deliveries.length
  | .caller k => k < e.callers.length
  | .joiner k => k < e.joiners.length
  | .closer k => k < e.closers.length

/-- No task is in two places, and one that does not exist is in none. -/
structure Placed (e : Engine) : Prop where
  once : ∀ t, e.presence t ≤ 1
  known : ∀ t, ¬ e.Has t → e.presence t = 0

/-- No task takes a second place, a task that is new at most one, and the queue grows at its end. -/
structure Shuffles (e e' : Engine) : Prop where
  presence : ∀ t, e'.presence t ≤ e.presence t ∨ ¬ e.Has t ∧ e'.Has t ∧ e'.presence t ≤ e.presence t + 1
  has : ∀ t, e.Has t → e'.Has t
  ready : e.ready <+: e'.ready

section Shuffles

variable {e e' e'' : Engine} {t : TaskId}

theorem Shuffles.placed (h : Shuffles e e') (placed : e.Placed) : e'.Placed where
  once t := by
    rcases h.presence t with le | ⟨new, -, le⟩
    · exact Nat.le_trans le (placed.once t)
    · rw [placed.known t new] at le
      exact le
  known t missing := by
    have before := placed.known t fun has => missing (h.has t has)
    rcases h.presence t with le | ⟨-, has, -⟩
    · omega
    · exact absurd has missing

/-- Whoever has the processor is in no other place. -/
theorem Placed.away (placed : e.Placed) (current : e.current = some t) : t ∉ e.ready ∧ t ∉ e.waits.map Prod.fst := by
  have once := placed.once t
  simp only [presence, current, Option.toList_some, List.count_singleton, beq_self_eq_true, if_true] at once
  exact ⟨List.count_eq_zero.mp (by omega), List.count_eq_zero.mp (by omega)⟩

theorem Shuffles.refl (e : Engine) : Shuffles e e :=
  ⟨fun _ => .inl (Nat.le_refl _), fun _ => id, List.prefix_refl _⟩

theorem Shuffles.trans (h : Shuffles e e') (h' : Shuffles e' e'') : Shuffles e e'' where
  presence t := by
    rcases h.presence t with le | ⟨new, has, le⟩ <;> rcases h'.presence t with le' | ⟨new', has', le'⟩
    · exact .inl (Nat.le_trans le' le)
    · exact .inr ⟨fun old => new' (h.has t old), has', by omega⟩
    · exact .inr ⟨new, h'.has t has, by omega⟩
    · exact absurd has new'
  has t old := h'.has t (h.has t old)
  ready := h.ready.trans h'.ready

/-- Lengths of the lists of tasks. -/
theorem has_of_lengths (courses : e.courses.length ≤ e'.courses.length)
    (deliveries : e.deliveries.length ≤ e'.deliveries.length) (callers : e.callers.length ≤ e'.callers.length)
    (joiners : e.joiners.length ≤ e'.joiners.length) (closers : e.closers.length ≤ e'.closers.length) :
    ∀ t, e.Has t → e'.Has t := by
  intro t has
  cases t <;> exact Nat.lt_of_lt_of_le has (by assumption)

theorem Shuffles.of_eq (current : e'.current = e.current) (ready : e'.ready = e.ready) (waits : e'.waits = e.waits)
    (has : ∀ t, e.Has t → e'.Has t) : Shuffles e e' where
  presence t := by
    simp only [Engine.presence, current, ready, waits]
    exact .inl (Nat.le_refl _)
  has := has
  ready := ⟨[], by rw [ready, List.append_nil]⟩

/-- A task arrives. -/
theorem Shuffles.arrival (missing : ¬ e.Has t) (there : e'.Has t) (has : ∀ s, e.Has s → e'.Has s)
    (presence : ∀ s, e'.presence s = e.presence s + [t].count s) (ready : e.ready <+: e'.ready) : Shuffles e e' where
  presence s := by
    rw [presence, List.count_singleton]
    by_cases eq : t = s
    · subst eq
      exact .inr ⟨missing, there, by simp⟩
    · have ne : (t == s) = false := by simpa using eq
      exact .inl (by simp [ne])
  has := has
  ready := ready

/-! ## Small changes -/

theorem count_filter_add {α β : Type} [BEq β] (p : α → Bool) (f : α → β) (b : β) (l : List α) :
    ((l.filter p).map f).count b + ((l.filter (fun a => !p a)).map f).count b = (l.map f).count b := by
  induction l with
  | nil => rfl
  | cons a l ih =>
    cases hp : p a <;> simp only [List.filter_cons, hp, List.map_cons, List.count_cons, Bool.not_true, Bool.not_false,
      Bool.false_eq_true, if_true, if_false] <;> omega

/-- The choice of the next task takes it out of the queue. -/
theorem choose_presence {place : Nat} (free : e.current = none) (at_place : e.ready[place]? = some t) (s : TaskId) :
    Engine.presence { e with current := some t, ready := e.ready.eraseIdx place } s = e.presence s := by
  obtain ⟨lt, rfl⟩ := List.getElem?_eq_some_iff.mp at_place
  have perm := (List.getElem_cons_eraseIdx_perm lt).count_eq s
  rw [List.count_cons] at perm
  simp only [Engine.presence, free, Option.toList_some, Option.toList_none, List.count_nil, List.count_singleton]
  omega

theorem Placed.choose {place : Nat} (placed : e.Placed) (free : e.current = none)
    (at_place : e.ready[place]? = some t) :
    Placed { e with current := some t, ready := e.ready.eraseIdx place } :=
  ⟨fun s => by rw [choose_presence free at_place]; exact placed.once s, fun s missing => by
    rw [choose_presence free at_place]
    exact placed.known s missing⟩

theorem wake_shuffles (e : Engine) : Shuffles e e.wake where
  presence t := by
    have split := count_filter_add (fun w => e.isDue w.2) Prod.fst t e.waits
    simp only [Engine.presence, wake, List.count_append]
    omega
  has := fun _ => id
  ready := List.prefix_append _ _

theorem updateCourse_shuffles (e : Engine) (x : Nat) (f : Course → Course) : Shuffles e (e.updateCourse x f) :=
  .of_eq rfl rfl rfl (has_of_lengths (by simp [updateCourse]) (Nat.le_refl _) (Nat.le_refl _) (Nat.le_refl _)
    (Nat.le_refl _))

theorem flag_shuffles (e : Engine) (t : TaskId) : Shuffles e (e.flag t) := by
  cases t with
  | course x => exact updateCourse_shuffles e x _
  | delivery | caller | joiner | closer =>
    refine .of_eq rfl rfl rfl (has_of_lengths ?_ ?_ ?_ ?_ ?_) <;> simp [flag]

theorem flag_places (e : Engine) (t : TaskId) :
    (e.flag t).current = e.current ∧ (e.flag t).ready = e.ready ∧ (e.flag t).waits = e.waits := by
  cases t <;> exact ⟨rfl, rfl, rfl⟩

/-- A task that waits is canceled where it waits: it takes its place in the queue instead. -/
theorem interrupt_shuffles (e : Engine) (t : TaskId) : Shuffles e (e.interrupt t) := by
  unfold interrupt
  split
  · exact .refl e
  · have flagged := flag_shuffles e t
    obtain ⟨current, ready, waits⟩ := flag_places e t
    dsimp only
    split
    case isFalse => exact flagged
    case isTrue waiting =>
      have waited : 0 < (e.waits.map Prod.fst).count t := by
        rw [isWaiting, waits, List.any_eq_true] at waiting
        obtain ⟨w, hw, eq⟩ := waiting
        exact List.count_pos_iff.mpr (List.mem_map.mpr ⟨w, hw, by simpa using eq⟩)
      refine ⟨fun s => .inl ?_, flagged.has, ?_⟩
      -- the wait that is dropped and the place in the queue that is taken balance
      · have split := count_filter_add (fun w => w.1 == t) Prod.fst s e.waits
        simp only [Engine.presence, current, ready, waits, List.count_append, List.count_singleton]
        by_cases eq : t = s
        · subst eq
          have gone : ((e.waits.filter fun w => w.1 != t).map Prod.fst).count t = 0 := by
            refine List.count_eq_zero.mpr fun mem => ?_
            obtain ⟨w, hw, rfl⟩ := List.mem_map.mp mem
            simp at hw
          simp only [bne] at gone ⊢
          simp only [beq_self_eq_true, if_true]
          omega
        · have ne : (t == s) = false := by simpa using eq
          simp only [bne, ne, Bool.false_eq_true, if_false]
          omega
      · rw [ready]
        exact List.prefix_append _ _

theorem shuffles_nudging : Nudging Shuffles where
  refl := .refl
  trans := .trans
  report _ _ _ := .of_eq rfl rfl rfl fun _ => id
  give e x _ := updateCourse_shuffles e x _
  send := interrupt_shuffles
  flag e k := flag_shuffles e (.joiner k)

theorem submit_shuffles (e : Engine) (x : Execution) : Shuffles e (e.submit x) := by
  refine .arrival (t := .course e.courses.length) (Nat.lt_irrefl _) (by simp [Has, submit])
    (has_of_lengths ?_ ?_ ?_ ?_ ?_) (fun s => ?count) (List.prefix_append _ _)
  case count =>
    simp only [Engine.presence, submit, List.count_append]
    omega
  all_goals simp [submit]

theorem handOn_shuffles {σ : Type} (current : e.current = some t) (m : Move σ) : Shuffles e (e.handOn t m) := by
  have leave : ∀ s, List.count s [t] + e.ready.count s + (e.waits.map Prod.fst).count s = e.presence s := by
    intro s
    simp [Engine.presence, current]
  cases m with
  | go => exact .refl e
  | yield =>
    refine ⟨fun s => .inl ?_, fun _ => id, List.prefix_append _ _⟩
    rw [← leave s]
    simp only [Engine.presence, handOn, Option.toList_none, List.count_nil, List.count_append]
    omega
  | wait stage on =>
    refine ⟨fun s => .inl ?_, fun _ => id, List.prefix_refl _⟩
    rw [← leave s]
    simp only [Engine.presence, handOn, Option.toList_none, List.count_nil, List.count_append, List.map_append,
      List.map_cons, List.map_nil]
    omega
  | stop =>
    have gone : Shuffles e { e with current := none } := by
      refine ⟨fun s => .inl ?_, fun _ => id, List.prefix_refl _⟩
      rw [← leave s]
      simp only [Engine.presence, Option.toList_none, List.count_nil]
      omega
    exact gone.trans (wake_shuffles _)

/-! ## Moves -/

theorem realize_shuffles (x : Nat) (c : Course) (eff : Effect) (journal : List Note) (log : List LogEntry)
    (one : eff.born = none ∨ eff.dispatched = none) : Shuffles e (e.realize x c eff journal log) := by
  have has : ∀ t, e.Has t → (e.realize x c eff journal log).Has t :=
    has_of_lengths (by simp [realize]) (by simp [realize]) (Nat.le_refl _) (Nat.le_refl _) (Nat.le_refl _)
  have arrives : ∀ new : TaskId, ¬ e.Has new → (e.realize x c eff journal log).Has new →
      (e.realize x c eff journal log).ready = e.ready ++ [new] → Shuffles e (e.realize x c eff journal log) := by
    intro new missing there ready
    refine .arrival missing there has (fun s => ?_) (by rw [ready]; exact List.prefix_append _ _)
    rw [Engine.presence, ready, List.count_append]
    simp only [realize, Engine.presence]
    omega
  cases born : eff.born with
  | some execution =>
    have none : eff.dispatched = none := by simpa [born] using one
    exact arrives (.course e.courses.length) (Nat.lt_irrefl _) (by simp [Has, realize, born])
      (by simp [realize, born, none])
  | none =>
    cases dispatched : eff.dispatched with
    | some d =>
      exact arrives (.delivery e.deliveries.length) (Nat.lt_irrefl _) (by simp [Has, realize, dispatched])
        (by simp [realize, born, dispatched])
    | none => exact .of_eq rfl (by simp [realize, born, dispatched]) rfl has

theorem callers_shuffles (e : Engine) (k : Nat) (f : Caller → Caller) :
    Shuffles e { e with callers := e.callers.modify k f } := by
  refine .of_eq rfl rfl rfl (has_of_lengths ?_ ?_ ?_ ?_ ?_) <;> simp

theorem joiners_shuffles (e : Engine) (k : Nat) (f : Life JoinerStage → Life JoinerStage) :
    Shuffles e { e with joiners := e.joiners.modify k f } := by
  refine .of_eq rfl rfl rfl (has_of_lengths ?_ ?_ ?_ ?_ ?_) <;> simp

theorem closers_shuffles (e : Engine) (k : Nat) (f : Life CloserStage → Life CloserStage) :
    Shuffles e { e with closers := e.closers.modify k f } := by
  refine .of_eq rfl rfl rfl (has_of_lengths ?_ ?_ ?_ ?_ ?_) <;> simp

theorem realizeDelivery_shuffles (e : Engine) (k : Nat) (d : Delivery) (eff : DeliveryEffect) (journal : List Note)
    (log : List LogEntry) : Shuffles e (e.realizeDelivery k d eff journal log) := by
  refine .of_eq rfl rfl rfl (has_of_lengths ?_ ?_ ?_ ?_ ?_) <;> simp [realizeDelivery]

theorem settleCaller_shuffles {r : Engine × Move CallerStage} {k : Nat} (h : Shuffles e r.1)
    (current : r.1.current = some (.caller k)) : Shuffles e (settleCaller k r) :=
  (h.trans (callers_shuffles r.1 k _)).trans (handOn_shuffles (by exact current) r.2)

theorem settleJoiner_shuffles {r : Engine × Move JoinerStage} {k : Nat} (h : Shuffles e r.1)
    (current : r.1.current = some (.joiner k)) : Shuffles e (settleJoiner k r) :=
  (h.trans (joiners_shuffles r.1 k _)).trans (handOn_shuffles (by exact current) r.2)

theorem settleCloser_shuffles {r : Engine × Move CloserStage} {k : Nat} (h : Shuffles e r.1)
    (current : r.1.current = some (.closer k)) : Shuffles e (settleCloser k r) :=
  (h.trans (closers_shuffles r.1 k _)).trans (handOn_shuffles (by exact current) r.2)

theorem moveCaller_shuffles (e : Engine) (k : Nat) (stage : CallerStage) : Shuffles e (e.moveCaller k stage).1 := by
  cases stage with
  | entering workflow initial =>
    dsimp only [moveCaller]
    cases State.freeze initial with
    | error f => exact .refl e
    | ok state => exact (submit_shuffles e (.root e.clock workflow state)).trans (callers_shuffles _ k _)
  | awaiting | surrendering => exact .refl e

end Shuffles

/-! ## Who has the processor -/

section Current

variable (e : Engine)

@[simp] theorem updateCourse_current (x : Nat) (f : Course → Course) : (e.updateCourse x f).current = e.current := rfl

@[simp] theorem interrupt_current (t : TaskId) : (e.interrupt t).current = e.current := by
  unfold interrupt
  split
  · rfl
  · dsimp only
    split <;> exact (flag_places e t).1

theorem current_nudging : Nudging fun e e' => e'.current = e.current where
  refl _ := rfl
  trans h h' := h'.trans h
  report _ _ _ := rfl
  give _ _ _ := rfl
  send := interrupt_current
  flag _ _ := rfl

theorem moveCaller_current (k : Nat) (stage : CallerStage) : (e.moveCaller k stage).1.current = e.current := by
  cases stage with
  | entering workflow initial =>
    dsimp only [moveCaller]
    split <;> rfl
  | awaiting | surrendering => rfl

theorem sendCancel_current (x : Nat) (c : Course) (reason : String) :
    (e.sendCancel x c reason).current = e.current := by
  unfold sendCancel
  split <;> simp [setReason]

theorem markCanceled_current (x : Nat) (execution : Execution) (reason : String) :
    (e.markCanceled x execution reason).1.current = e.current := by
  unfold markCanceled
  dsimp only
  split
  · unfold announce
    split <;> rfl
  · rfl
  · rfl

theorem undergo_current (free : e.current = none) (deed : Deed) :
    (e.undergo deed).current = none ∨ ∃ k, (e.undergo deed).current = some (.closer k) := by
  cases deed with
  | start workflow initial =>
    dsimp only [undergo, start]
    cases State.freeze initial <;> exact .inl free
  | cancel x id reason =>
    obtain eq | ⟨y, c, -, -, eq | eq⟩ := cancel_cases e x id reason <;> simp only [undergo, eq]
    · exact .inl free
    · exact .inl ((sendCancel_current e y c reason).trans free)
    · exact .inl ((markCanceled_current _ _ _ _).trans ((sendCancel_current e y c reason).trans free))
  | cancelRun k => exact .inl ((interrupt_current e _).trans free)
  | cancelJoin k => exact .inl ((current_nudging.cancelJoin e k).trans free)
  | register stepType offered =>
    dsimp only [undergo, register]
    split <;> exact .inl free
  | pass time =>
    dsimp only [undergo]
    split <;> exact .inl free
  | shutdown timeout => exact .inr ⟨_, rfl⟩
  | run | join | release | releaseBus | unregister => exact .inl free

end Current

/-! ## Every act -/

section Acts

variable {e e' : Engine}

theorem announce_shuffles (e : Engine) (event : Lifecycle) : Shuffles e (e.announce event).1 := by
  unfold announce
  split
  · exact .refl e
  · exact .of_eq rfl rfl rfl fun _ => id

theorem markCanceled_shuffles (e : Engine) (x : Nat) (execution : Execution) (reason : String) :
    Shuffles e (e.markCanceled x execution reason).1 := by
  unfold markCanceled update
  dsimp only
  split
  · refine Shuffles.trans (Shuffles.trans ?_ (shuffles_nudging.report _ _ _)) (announce_shuffles _ _)
    exact (updateCourse_shuffles e x _).trans (updateCourse_shuffles _ x _)
  · exact updateCourse_shuffles e x _
  · exact updateCourse_shuffles e x _

theorem sendCancel_shuffles (e : Engine) (x : Nat) (c : Course) (reason : String) :
    Shuffles e (e.sendCancel x c reason) := by
  unfold sendCancel
  split
  · exact .refl e
  · exact (updateCourse_shuffles e x _).trans (interrupt_shuffles _ _)

theorem cancel_shuffles (e : Engine) (x : Option Nat) (id reason : String) :
    Shuffles e (e.cancel x id reason).1 := by
  obtain eq | ⟨y, c, -, -, eq | eq⟩ := cancel_cases e x id reason <;> rw [eq]
  · exact .refl e
  · exact sendCancel_shuffles e y c reason
  · exact (sendCancel_shuffles e y c reason).trans (markCanceled_shuffles _ _ _ _)

theorem undergo_shuffles (e : Engine) (free : e.current = none) (deed : Deed) : Shuffles e (e.undergo deed) := by
  cases deed with
  | start workflow initial =>
    dsimp only [undergo, start]
    cases State.freeze initial with
    | error f => exact .refl e
    | ok state => exact submit_shuffles e _
  | run workflow initial =>
    -- a new task takes one place: a caller and a join in the queue, a shutdown the processor
    refine .arrival (t := .caller e.callers.length) (Nat.lt_irrefl _)
      (by simp [Has, undergo, run]) (has_of_lengths ?_ ?_ ?_ ?_ ?_) (fun s => ?count) (List.prefix_append _ _)
    case count =>
      simp only [Engine.presence, undergo, run, List.count_append]
      omega
    all_goals simp [undergo, run]
  | join =>
    refine .arrival (t := .joiner e.joiners.length) (Nat.lt_irrefl _)
      (by simp [Has, undergo, join]) (has_of_lengths ?_ ?_ ?_ ?_ ?_) (fun s => ?count) (List.prefix_append _ _)
    case count =>
      simp only [Engine.presence, undergo, join, List.count_append]
      omega
    all_goals simp [undergo, join]
  | shutdown timeout =>
    refine .arrival (t := .closer e.closers.length) (Nat.lt_irrefl _)
      (by simp [Has, undergo, beginShutdown]) (has_of_lengths ?_ ?_ ?_ ?_ ?_) (fun s => ?count) (List.prefix_refl _)
    case count =>
      simp only [Engine.presence, undergo, beginShutdown, free, Option.toList_some, Option.toList_none, List.count_nil]
      omega
    all_goals simp [undergo, beginShutdown]
  | cancel x id reason => exact cancel_shuffles e x id reason
  | cancelRun k => exact interrupt_shuffles e _
  | cancelJoin k => exact shuffles_nudging.cancelJoin e k
  | release slot =>
    have opened : Shuffles e { e with openGates := slot :: e.openGates } := .of_eq rfl rfl rfl fun _ => id
    exact opened.trans (wake_shuffles _)
  | releaseBus =>
    have opened : Shuffles e { e with busOpen := true } := .of_eq rfl rfl rfl fun _ => id
    exact opened.trans (wake_shuffles _)
  | register stepType offered =>
    dsimp only [undergo, register]
    split <;> exact .of_eq rfl rfl rfl fun _ => id
  | unregister stepType => exact .of_eq rfl rfl rfl fun _ => id
  | pass time =>
    dsimp only [undergo]
    split
    · have later : Shuffles e { e with clock := time } := .of_eq rfl rfl rfl fun _ => id
      exact later.trans (wake_shuffles _)
    · exact .refl e

/-- The task at a place of the queue gets the processor. -/
def Chooses (e : Engine) (a : Act) (e' : Engine) : Prop :=
  ∃ place t, a = .turn place ∧ e.current = none ∧ e.ready[place]? = some t ∧
    e' = { e with current := some t, ready := e.ready.eraseIdx place }

/-- The next task is chosen, or no task changes its place but by giving the processor away, waking or arriving. -/
theorem Happens.shuffles {a : Act} (h : Happens e a e') : Chooses e a e' ∨ Shuffles e e' := by
  cases h with
  | still => exact .inr (.refl e)
  | chosen free at_place => exact .inl ⟨_, _, rfl, free, at_place, rfl⟩
  | vacant current =>
    refine .inr ⟨fun s => .inl ?_, fun _ => id, List.prefix_refl _⟩
    simp only [presence, Option.toList_none, List.count_nil]
    omega
  | course current at_x moved =>
    exact .inr ((realize_shuffles _ _ _ _ _ moved.born_or_dispatched).trans (handOn_shuffles (by exact current) _))
  | delivery current => exact .inr ((realizeDelivery_shuffles _ _ _ _ _ _).trans (handOn_shuffles (by exact current) _))
  | caller current =>
    exact .inr (settleCaller_shuffles (moveCaller_shuffles e _ _) ((moveCaller_current e _ _).trans current))
  | callerCanceled current =>
    exact .inr (settleCaller_shuffles (shuffles_nudging.cancelCaller e _) ((current_nudging.cancelCaller e _).trans current))
  | joiner current =>
    exact .inr (settleJoiner_shuffles (shuffles_nudging.moveJoiner e _) ((current_nudging.moveJoiner e _).trans current))
  | joinerCanceled current => exact .inr (settleJoiner_shuffles (.refl e) current)
  | closer current =>
    exact .inr (settleCloser_shuffles (shuffles_nudging.moveCloser e _) ((current_nudging.moveCloser e _).trans current))
  | closerCanceled current => exact .inr (settleCloser_shuffles (.refl e) current)
  | host free => exact .inr (undergo_shuffles e free _)

/-- Unless the next task is chosen or a shutdown begins, the processor is only ever given away. -/
theorem Happens.current {a : Act} (h : Happens e a e') :
    Chooses e a e' ∨ e'.current = e.current ∨ e'.current = none ∨ ∃ k, e'.current = some (.closer k) := by
  have settled : ∀ {σ : Type} {e₁ : Engine} (t : TaskId) (m : Move σ), e₁.current = e.current →
      (e₁.handOn t m).current = e.current ∨ (e₁.handOn t m).current = none ∨
        ∃ k, (e₁.handOn t m).current = some (.closer k) := by
    intro σ e₁ t m current
    cases m with
    | go => exact .inl current
    | yield | wait | stop => exact .inr (.inl rfl)
  cases h with
  | still => exact .inr (.inl rfl)
  | chosen free at_place => exact .inl ⟨_, _, rfl, free, at_place, rfl⟩
  | vacant current => exact .inr (.inr (.inl rfl))
  | course => exact .inr (settled _ _ rfl)
  | delivery => exact .inr (settled _ _ rfl)
  | caller => exact .inr (settled _ _ (moveCaller_current e _ _))
  | callerCanceled => exact .inr (settled _ _ (current_nudging.cancelCaller e _))
  | joiner => exact .inr (settled _ _ (current_nudging.moveJoiner e _))
  | joinerCanceled => exact .inr (settled _ _ rfl)
  | closer => exact .inr (settled _ _ (current_nudging.moveCloser e _))
  | closerCanceled => exact .inr (settled _ _ rfl)
  | host free => exact .inr (.inr (undergo_current e free _))

/-- **Places**: in every sound state no task is in two places. -/
theorem Sound.placed (h : e.Sound) : e.Placed := by
  refine h.induction (fun settings process bus registry => ⟨fun t => Nat.zero_le _, fun t _ => rfl⟩)
    fun e a sound _ _ placed => ?_
  rcases (sound.happens a).shuffles with ⟨place, t, -, free, at_place, eq⟩ | shuffles
  · rw [eq]
    exact placed.choose free at_place
  · exact shuffles.placed placed

end Acts

end Engine

end Stepflow
