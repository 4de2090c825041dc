import Stepflow.Proofs.Engine.Shutdown
import Stepflow.Proofs.Engine.Waiting

/-!
# Stepflow.Proofs.Engine.Alertness — no live task is lost, and none waits for what has come

* `Alert`: every live task has the processor, is ready or waits, and nothing waits for what has come.
* `Keeps`: between two states no task ends, none begins to wait and nothing that may be waited for comes to pass, and every
  live task has a place.  It is what the parts of an act do before the processor is handed on.
* `Alert.settle`: handing the processor on as the move of a task says.
* `Sound.alert`: every sound state is alert.
-/

namespace Stepflow

section Moves

variable {e e' : Engine}

theorem Moved.live {c : Course} {eff : Effect} (h : Moved e x c eff) : c.life.isOver = false := by
  cases h with
  | advanced life | diverted life => rw [life]; rfl

theorem MovedDelivery.live {d : Delivery} {eff : DeliveryEffect} (h : MovedDelivery e d eff) :
    d.life.isOver = false := by
  cases h with
  | delivered life | diverted life => rw [life]; rfl

/-- The task of an execution waits for a gate that is shut or a time that has not come. -/
theorem Moved.undue {c : Course} {eff : Effect} {stage : Stage} {on : Wait} {x : Nat} (h : Moved e x c eff)
    (waits : eff.move = .wait stage on) (gates : e'.openGates = e.openGates) (clock : e'.clock = e.clock) :
    e'.isDue on = false := by
  cases h with
  | advanced life advance =>
    cases advance with
    | @slept _ _ seconds _ _ later =>
      cases waits
      have ahead : ¬ e.clock + seconds ≤ e.clock := by grind
      simpa [Engine.isDue, clock] using ahead
    | barred shut =>
      cases waits
      simpa [Engine.isDue, gates] using shut
    | _ => cases waits
  | @diverted stage life =>
    cases stage with
    | refusing event last => cases last <;> cases waits
    | _ => cases waits

/-- A detached call waits for a gate that is shut or a time that has not come. -/
theorem MovedDelivery.undue {d : Delivery} {eff : DeliveryEffect} {stage : DeliveryStage} {on : Wait}
    (h : MovedDelivery e d eff) (waits : eff.move = .wait stage on) (gates : e'.openGates = e.openGates)
    (clock : e'.clock = e.clock) : e'.isDue on = false := by
  cases h with
  | delivered life delivers =>
    cases delivers with
    | @slept seconds _ _ later =>
      cases waits
      have ahead : ¬ e.clock + seconds ≤ e.clock := by grind
      simpa [Engine.isDue, clock] using ahead
    | barred shut =>
      cases waits
      simpa [Engine.isDue, gates] using shut
    | _ => cases waits
  | @diverted stage life => cases stage <;> cases waits

end Moves

namespace Engine

/-- Every live task has a place, and none waits for what has come. -/
structure Alert (e : Engine) : Prop where
  present : ∀ t, e.isOver t = false → 1 ≤ e.presence t
  undue : ∀ w ∈ e.waits, e.isDue w.2 = false

/-- From `e` to `e'` no task ends or begins to wait, no gate opens, no time passes and no live task loses its place. -/
structure Keeps (e e' : Engine) : Prop where
  gates : e'.openGates = e.openGates
  bus : e'.busOpen = e.busOpen
  clock : e'.clock = e.clock
  waits : NoneWaits e e'
  live : ∀ t, e.isOver t = false → e'.isOver t = false
  places : ∀ t, e'.isOver t = false → 1 ≤ e'.presence t ∨ e.isOver t = false ∧ e.presence t ≤ e'.presence t

section Keeps

variable {e e' e'' : Engine} {t : TaskId}

/-- What is due after no task has ended, no gate has opened and no time has passed was due before. -/
theorem Keeps.isDue (h : Keeps e e') {on : Wait} (due : e'.isDue on = true) : e.isDue on = true := by
  cases on with
  | gate slot =>
    rw [Engine.isDue, h.gates] at due
    exact due
  | bus =>
    rw [Engine.isDue, h.bus] at due
    exact due
  | clock time =>
    rw [Engine.isDue, h.clock] at due
    exact due
  | tasks ids time =>
    simp only [Engine.isDue, h.clock, Bool.or_eq_true] at due ⊢
    refine due.imp_left fun all => List.all_eq_true.mpr fun s hs => ?_
    have stopped := List.all_eq_true.mp all s hs
    by_contra live
    have live' := h.live s (by simpa using live)
    exact absurd (live'.symm.trans stopped) Bool.false_ne_true

theorem Keeps.alert (h : Keeps e e') (alert : e.Alert) : e'.Alert where
  present t live := by
    rcases h.places t live with placed | ⟨before, le⟩
    · exact placed
    · exact Nat.le_trans (alert.present t before) le
  undue w mem := by
    have undue := alert.undue w (h.waits mem)
    by_contra due
    rw [h.isDue (by simpa using due)] at undue
    cases undue

theorem Keeps.trans (h : Keeps e e') (h' : Keeps e' e'') : Keeps e e'' where
  gates := h'.gates.trans h.gates
  bus := h'.bus.trans h.bus
  clock := h'.clock.trans h.clock
  waits := List.Subset.trans h'.waits h.waits
  live t live := h'.live t (h.live t live)
  places t live := by
    rcases h'.places t live with placed | ⟨between, le⟩
    · exact .inl placed
    · rcases h.places t between with placed | ⟨before, le'⟩
      · exact .inl (Nat.le_trans placed le)
      · exact .inr ⟨before, Nat.le_trans le' le⟩

/-- No task moves or ends. -/
theorem Keeps.of_eq (gates : e'.openGates = e.openGates) (bus : e'.busOpen = e.busOpen) (clock : e'.clock = e.clock)
    (waits : e'.waits = e.waits) (lives : ∀ t, e'.isOver t = e.isOver t) (presence : ∀ t, e'.presence t = e.presence t) :
    Keeps e e' where
  gates := gates
  bus := bus
  clock := clock
  waits := .of_eq waits
  live t live := (lives t).trans live
  places t live := .inr ⟨(lives t).symm.trans live, Nat.le_of_eq (presence t).symm⟩

theorem Keeps.refl (e : Engine) : Keeps e e := .of_eq rfl rfl rfl rfl (fun _ => rfl) fun _ => rfl

/-- A new task arrives. -/
theorem Keeps.arrival (gates : e'.openGates = e.openGates) (bus : e'.busOpen = e.busOpen) (clock : e'.clock = e.clock)
    (waits : e'.waits = e.waits) (before : e.isOver t = true) (others : ∀ s, s ≠ t → e'.isOver s = e.isOver s)
    (placed : 1 ≤ e'.presence t) (presence : ∀ s, e.presence s ≤ e'.presence s) : Keeps e e' where
  gates := gates
  bus := bus
  clock := clock
  waits := .of_eq waits
  live s live := by
    have ne : s ≠ t := by
      rintro rfl
      rw [before] at live
      cases live
    exact (others s ne).trans live
  places s live := by
    by_cases eq : s = t
    · exact .inl (eq ▸ placed)
    · exact .inr ⟨(others s eq).symm.trans live, presence s⟩

/-- A new task arrives at the end of the queue. -/
theorem Keeps.queued (gates : e'.openGates = e.openGates) (bus : e'.busOpen = e.busOpen) (clock : e'.clock = e.clock)
    (waits : e'.waits = e.waits) (current : e'.current = e.current) (ready : e'.ready = e.ready ++ [t])
    (before : e.isOver t = true) (others : ∀ s, s ≠ t → e'.isOver s = e.isOver s) : Keeps e e' := by
  have presence (s : TaskId) : e'.presence s = e.presence s + [t].count s := by
    simp only [Engine.presence, current, ready, waits, List.count_append]
    omega
  refine .arrival gates bus clock waits before others ?_ fun s => ?_
  · rw [presence, List.count_singleton_self]
    exact Nat.le_add_left 1 _
  · rw [presence]
    exact Nat.le_add_right _ _

/-! ## Small changes -/

/-- What is asked of a task does not depend on tasks that come after it. -/
theorem all_getElem?_append {α : Type} (l : List α) (a : α) (p : α → Bool) {i : Nat} (ne : i ≠ l.length) :
    ((l ++ [a])[i]?).all p = (l[i]?).all p := by
  rcases Nat.lt_or_ge i l.length with lt | ge
  · rw [List.getElem?_append_left lt]
  · rw [List.getElem?_eq_none ge, List.getElem?_eq_none (by simp; omega)]

theorem isOver_modifyCourse (e : Engine) (x : Nat) (f : Course → Course) (hf : ∀ c, (f c).life.isOver = c.life.isOver)
    (t : TaskId) : (e.updateCourse x f).isOver t = e.isOver t := by
  cases t with
  | course y =>
    simp only [isOver, updateCourse, List.getElem?_modify]
    cases e.courses[y]? with
    | none => rfl
    | some c => by_cases hxy : x = y <;> simp [hxy, hf]
  | delivery | caller | joiner | closer => rfl

theorem updateCourse_keeps (e : Engine) (x : Nat) (f : Course → Course) (hf : ∀ c, (f c).life.isOver = c.life.isOver) :
    Keeps e (e.updateCourse x f) :=
  .of_eq rfl rfl rfl rfl (isOver_modifyCourse e x f hf) fun _ => rfl

theorem isOver_flag (e : Engine) (t s : TaskId) : (e.flag t).isOver s = e.isOver s := by
  have modified {α : Type} (l : List α) (i j : Nat) (f : α → α) (p : α → Bool) (hf : ∀ a, p (f a) = p a) :
      ((l.modify i f)[j]?).all p = (l[j]?).all p := by
    rw [List.getElem?_modify]
    cases l[j]? with
    | none => rfl
    | some a => by_cases hij : i = j <;> simp [hij, hf]
  cases t with
  | course x => exact isOver_modifyCourse e x _ (fun c => c.life.isOver_interrupt) s
  | delivery k =>
    cases s with
    | delivery j => exact modified _ _ _ _ _ fun d => d.life.isOver_interrupt
    | course | caller | joiner | closer => rfl
  | caller k =>
    cases s with
    | caller j => exact modified _ _ _ _ _ fun c => c.life.isOver_interrupt
    | course | delivery | joiner | closer => rfl
  | joiner k =>
    cases s with
    | joiner j => exact modified _ _ _ _ _ Life.isOver_interrupt
    | course | delivery | caller | closer => rfl
  | closer k =>
    cases s with
    | closer j => exact modified _ _ _ _ _ Life.isOver_interrupt
    | course | delivery | caller | joiner => rfl

theorem flag_keeps (e : Engine) (t : TaskId) : Keeps e (e.flag t) := by
  obtain ⟨current, ready, waits⟩ := flag_places e t
  refine .of_eq ?_ ?_ ?_ waits (isOver_flag e t) fun s => by simp only [presence, current, ready, waits]
  all_goals cases t <;> rfl

/-- A task that waits is ready once it is canceled. -/
theorem interrupt_keeps (e : Engine) (t : TaskId) : Keeps e (e.interrupt t) := by
  unfold interrupt
  split
  · exact .refl e
  · have flagged := flag_keeps e t
    dsimp only
    split
    case isFalse => exact flagged
    case isTrue =>
      refine flagged.trans ⟨rfl, rfl, rfl, List.filter_subset_self _, fun _ => id, fun s live => ?_⟩
      by_cases eq : s = t
      · subst eq
        refine .inl ?_
        simp only [presence, List.count_append, List.count_singleton, beq_self_eq_true, if_true]
        omega
      · refine .inr ⟨live, ?_⟩
        have split := count_filter_add (fun w : TaskId × Wait => w.1 == t) Prod.fst s (e.flag t).waits
        have none : (((e.flag t).waits.filter fun w => w.1 == t).map Prod.fst).count s = 0 := by
          refine List.count_eq_zero.mpr fun mem => ?_
          obtain ⟨w, hw, rfl⟩ := List.mem_map.mp mem
          have same := (List.mem_filter.mp hw).2
          exact eq (by simpa using same)
        simp only [presence, List.count_append, bne]
        omega

theorem keeps_nudging : Nudging Keeps where
  refl := .refl
  trans := .trans
  report _ _ _ := .of_eq rfl rfl rfl rfl (fun t => by cases t <;> rfl) fun _ => rfl
  give e x _ := updateCourse_keeps e x _ fun _ => rfl
  send := interrupt_keeps
  flag e k := flag_keeps e (.joiner k)

theorem submit_keeps (e : Engine) (x : Execution) : Keeps e (e.submit x) := by
  refine .queued (t := .course e.courses.length) rfl rfl rfl rfl rfl rfl (by simp [isOver]) fun s ne => ?_
  cases s with
  | course y => exact all_getElem?_append _ _ _ fun eq => ne (by rw [eq])
  | delivery | caller | joiner | closer => rfl

theorem markCanceled_keeps (e : Engine) (x : Nat) (execution : Execution) (reason : String) :
    Keeps e (e.markCanceled x execution reason).1 := by
  have told (e : Engine) (level : Level) (message : String) (event : Lifecycle) :
      Keeps e ((e.report level message).announce event).1 := by
    unfold announce
    split <;> exact .of_eq rfl rfl rfl rfl (fun t => by cases t <;> rfl) fun _ => rfl
  have updated (e : Engine) (f : Execution → Execution) : Keeps e (e.update x f) :=
    updateCourse_keeps e x _ fun _ => rfl
  unfold markCanceled
  dsimp only
  split
  · exact ((updated _ _).trans (updated _ _)).trans (told _ _ _ _)
  · exact updated e ({ · with status := .canceled })
  · exact updated e ({ · with status := .canceled })

theorem sendCancel_keeps (e : Engine) (x : Nat) (c : Course) (reason : String) :
    Keeps e (e.sendCancel x c reason) := by
  unfold sendCancel
  split
  · exact .refl e
  · have told : Keeps e (e.setReason x reason) := updateCourse_keeps e x _ fun _ => rfl
    exact told.trans (interrupt_keeps _ _)

theorem run_keeps (e : Engine) (workflow : Workflow) (initial : Datum) : Keeps e (e.run workflow initial) := by
  refine .queued (t := .caller e.callers.length) rfl rfl rfl rfl rfl rfl (by simp [isOver]) fun s ne => ?_
  cases s with
  | caller j => exact all_getElem?_append _ _ _ fun eq => ne (by rw [eq])
  | course | delivery | joiner | closer => rfl

theorem join_keeps (e : Engine) : Keeps e e.join := by
  refine .queued (t := .joiner e.joiners.length) rfl rfl rfl rfl rfl rfl (by simp [isOver]) fun s ne => ?_
  cases s with
  | joiner j => exact all_getElem?_append _ _ _ fun eq => ne (by rw [eq])
  | course | delivery | caller | closer => rfl

theorem beginShutdown_keeps (free : e.current = none) (timeout : Option Rat) : Keeps e (e.beginShutdown timeout) := by
  refine .arrival (t := .closer e.closers.length) rfl rfl rfl rfl (by simp [isOver]) (fun s ne => ?_) ?_ fun s => ?_
  · cases s with
    | closer j => exact all_getElem?_append _ _ _ fun eq => ne (by rw [eq])
    | course | delivery | caller | joiner => rfl
  · simp only [presence, beginShutdown, Option.toList_some, List.count_singleton, beq_self_eq_true, if_true]
    omega
  · simp only [presence, beginShutdown, free, Option.toList_none, List.count_nil]
    omega

end Keeps

/-! ## Handing the processor on -/

section HandOn

variable {e e₁ : Engine} {t : TaskId}

/-- Those whose time has come are woken, and none of them is lost. -/
theorem wake_alert (present : ∀ t, e.isOver t = false → 1 ≤ e.presence t) : e.wake.Alert where
  present s live := by
    have before := present s (by cases s <;> exact live)
    have split := count_filter_add (fun w => e.isDue w.2) Prod.fst s e.waits
    simp only [presence, wake, List.count_append] at before ⊢
    omega
  undue w mem := by
    have undue := (List.mem_filter.mp mem).2
    have same : e.wake.isDue w.2 = e.isDue w.2 := by
      cases w.2 with
      | gate | bus | clock => rfl
      | tasks ids due =>
        have ceased : e.wake.isOver = e.isOver := funext fun s => by cases s <;> rfl
        simp only [isDue, ceased]
        rfl
    rw [same]
    simpa using undue

/-- From `e` to `e'` no task changes its place, no gate opens and no time passes. -/
structure Aligned (e e' : Engine) : Prop where
  current : e'.current = e.current
  ready : e'.ready = e.ready
  waits : e'.waits = e.waits
  gates : e'.openGates = e.openGates
  bus : e'.busOpen = e.busOpen
  clock : e'.clock = e.clock

theorem Aligned.presence (h : Aligned e e₁) (t : TaskId) : e₁.presence t = e.presence t := by
  simp only [Engine.presence, h.current, h.ready, h.waits]

/-- A task that is live goes on, and no other task ends. -/
theorem Aligned.keeps (h : Aligned e e₁) (others : ∀ s, s ≠ t → e₁.isOver s = e.isOver s) (before : e.isOver t = false)
    (goes_on : e₁.isOver t = false) : Keeps e e₁ := by
  refine .of_eq h.gates h.bus h.clock h.waits (fun s => ?_) h.presence
  by_cases eq : s = t
  · rw [eq, goes_on, before]
  · exact others s eq

/-- The task that has the processor is in no other place that counts: without it everyone else is where they were. -/
theorem presence_of_ne (current : e.current = some t) {s : TaskId} (ne : s ≠ t) :
    e.presence s = e.ready.count s + (e.waits.map Prod.fst).count s := by
  have away : List.count s e.current.toList = 0 := by simp [current, Ne.symm ne]
  simp only [presence, away, Nat.zero_add]

/-- The task that had the processor is ready or waits for what has not come. -/
theorem Alert.rest (alert : e.Alert) (current : e.current = some t) {ready : List TaskId} {added : List (TaskId × Wait)}
    (placed : 1 ≤ ready.count t + (added.map Prod.fst).count t) (later : ∀ w ∈ added, e.isDue w.2 = false) :
    Alert { e with current := none, ready := e.ready ++ ready, waits := e.waits ++ added } where
  present s live := by
    have before := alert.present s (by cases s <;> exact live)
    by_cases eq : s = t
    · subst eq
      simp only [presence, List.count_append, List.map_append]
      omega
    · rw [presence_of_ne current eq] at before
      simp only [presence, List.count_append, List.map_append]
      omega
  undue w mem := by
    have same : isDue { e with current := none, ready := e.ready ++ ready, waits := e.waits ++ added } w.2 =
        e.isDue w.2 := by
      have ceased : isOver { e with current := none, ready := e.ready ++ ready, waits := e.waits ++ added } = e.isOver :=
        funext fun s => by cases s <;> rfl
      cases w.2 with
      | gate | bus | clock => rfl
      | tasks ids due => simp only [isDue, ceased]
    rw [same]
    rcases List.mem_append.mp mem with old | new
    · exact alert.undue w old
    · exact later w new

/-- **A task has moved**, from `e` to `e₁`, and hands the processor on: it goes on, or it is ready or waits for what has not
come, or it is over and those who waited for that are woken. -/
theorem Alert.settle {σ : Type} {m : Move σ} {r : Engine} (alert : e.Alert) (kept : Keeps e r) (aligned : Aligned r e₁)
    (current : r.current = some t) (live : e.isOver t = false) (others : ∀ s, s ≠ t → e₁.isOver s = r.isOver s)
    (ceased : e₁.isOver t = (lifeAfter m).isOver) (undue : ∀ stage on, m = .wait stage on → r.isDue on = false) :
    (e₁.handOn t m).Alert := by
  have current₁ := aligned.current.trans current
  have goes_on (still : (lifeAfter m).isOver = false) : Keeps r e₁ :=
    aligned.keeps others (kept.live t live) (ceased.trans still)
  have before := kept.alert alert
  cases m with
  | go => exact (goes_on rfl).alert before
  | yield stage =>
    have queued := Alert.rest ((goes_on rfl).alert before) current₁ (by simp : 1 ≤ [t].count t + ([].map Prod.fst).count t)
      (by simp)
    simpa [handOn] using queued
  -- the task waits for what has not come, so it need not be woken
  | wait stage on =>
    have later : ∀ w ∈ [(t, on)], e₁.isDue w.2 = false := by
      intro w mem
      obtain rfl := List.mem_singleton.mp mem
      by_contra due
      have due' := (goes_on rfl).isDue (by simpa using due)
      rw [undue stage on rfl] at due'
      cases due'
    have waiting := Alert.rest ((goes_on rfl).alert before) current₁ (by simp : 1 ≤ [].count t + _) later
    simpa [handOn] using waiting
  -- only an end can bring what others wait for, so they are woken here
  | stop ending =>
    refine wake_alert fun s on => ?_
    have on₁ : e₁.isOver s = false := by cases s <;> exact on
    have ne : s ≠ t := by
      rintro rfl
      have stopped : e₁.isOver s = true := ceased
      exact Bool.false_ne_true (on₁.symm.trans stopped)
    have placed := (kept.alert alert).present s ((others s ne).symm.trans on₁)
    rw [← aligned.presence, presence_of_ne current₁ ne] at placed
    simpa only [presence, Option.toList_none, List.count_nil, Nat.zero_add] using placed

end HandOn

/-! ## Moves -/

section Moves

variable {e e' : Engine} {x k : Nat}

theorem isOver_newborn (e : Engine) (x : Execution) : (e.submit x).isOver (.course e.courses.length) = false := by
  simp [isOver, submit, Life.isOver]

/-- Whoever waits for live tasks, at most until a time that has not come, has to wait. -/
theorem isDue_of_live {ids : List TaskId} {due : Option Rat} {s : TaskId} (mem : s ∈ ids) (live : e.isOver s = false)
    (early : ∀ time, due = some time → ¬ time ≤ e.clock) : e.isDue (.tasks ids due) = false := by
  have unfinished : ids.all e.isOver = false := by
    refine List.all_eq_false.mpr ⟨s, mem, ?_⟩
    rw [live]
    exact Bool.false_ne_true
  cases due with
  | none => simp [isDue, unfinished]
  | some time => simpa [isDue, unfinished] using early time rfl

theorem live_of_pending {t : TaskId} (mem : t ∈ e.pending) : e.isOver t = false := by
  rcases List.mem_append.mp mem with course | delivery
  · obtain ⟨x, running, rfl⟩ := List.mem_map.mp course
    exact (mem_running.mp running).2
  · obtain ⟨k, dispatched, rfl⟩ := List.mem_map.mp delivery
    simpa using (List.mem_filter.mp dispatched).2

/-- What a move of the task of an execution brings: the child that it accepts, the detached call that it queues. -/
def bring (e : Engine) (eff : Effect) : Engine :=
  { e with
    courses := e.courses ++ (eff.born.map Course.fresh).toList
    deliveries := e.deliveries ++ eff.dispatched.toList
    ready := e.ready ++ (eff.born.map fun _ => TaskId.course e.courses.length).toList ++
      (eff.dispatched.map fun _ => TaskId.delivery e.deliveries.length).toList }

theorem bring_keeps (eff : Effect) (one : eff.born = none ∨ eff.dispatched = none) : Keeps e (e.bring eff) := by
  cases born : eff.born with
  | some child =>
    have none : eff.dispatched = none := by simpa [born] using one
    have same : e.bring eff = e.submit child := by simp [bring, submit, born, none, Course.fresh]
    rw [same]
    exact submit_keeps e child
  | none =>
    cases dispatched : eff.dispatched with
    | none =>
      have same : e.bring eff = e := by simp [bring, born, dispatched]
      rw [same]
      exact .refl e
    | some d =>
      have ready : (e.bring eff).ready = e.ready ++ [.delivery e.deliveries.length] := by simp [bring, born, dispatched]
      refine .queued rfl rfl rfl rfl rfl ready (by simp [isOver]) fun s ne => ?_
      cases s with
      | delivery j =>
        simp only [isOver, bring, dispatched, Option.toList_some]
        exact all_getElem?_append _ _ _ fun eq => ne (by rw [eq])
      | course | caller | joiner | closer => simp [isOver, bring, born]

/-- The move of the task of an execution. -/
theorem Alert.course {c : Course} {eff : Effect} {journal : List Note} {log : List LogEntry} (alert : e.Alert)
    (current : e.current = some (.course x)) (at_x : e.courses[x]? = some c) (moved : Moved e x c eff) :
    ((e.realize x (eff.course c) eff journal log).handOn (.course x) eff.move).Alert := by
  have lt := (List.getElem?_eq_some_iff.mp at_x).1
  have live : e.isOver (.course x) = false := by simp [isOver, at_x, moved.live]
  have ceased : (e.realize x (eff.course c) eff journal log).isOver (.course x) = (lifeAfter eff.move).isOver := by
    simp [isOver, realize, List.getElem?_append_left, lt, Effect.course]
  refine alert.settle (bring_keeps eff moved.born_or_dispatched) ⟨rfl, rfl, rfl, rfl, rfl, rfl⟩ current live (fun s ne => ?_)
    ceased fun stage on waits => moved.undue waits rfl rfl
  cases s with
  | course y =>
    have ne : x ≠ y := fun eq => ne (by rw [eq])
    simp only [isOver, realize, bring, List.getElem?_append, List.length_set, List.getElem?_set_ne ne]
  | delivery | caller | joiner | closer => rfl

/-- The move of a detached call. -/
theorem Alert.delivery {d : Delivery} {eff : DeliveryEffect} {journal : List Note} {log : List LogEntry}
    (alert : e.Alert) (current : e.current = some (.delivery k)) (at_k : e.deliveries[k]? = some d)
    (moved : MovedDelivery e d eff) :
    ((e.realizeDelivery k { d with life := lifeAfter eff.move } eff journal log).handOn (.delivery k) eff.move).Alert := by
  have live : e.isOver (.delivery k) = false := by simp [isOver, at_k, moved.live]
  refine alert.settle (.refl e) ⟨rfl, rfl, rfl, rfl, rfl, rfl⟩ current live (fun s ne => ?_) ?_
    fun stage on waits => moved.undue waits rfl rfl
  · cases s with
    | delivery j =>
      have ne : k ≠ j := fun eq => ne (by rw [eq])
      simp only [isOver, realizeDelivery, List.getElem?_set_ne ne]
    | course | caller | joiner | closer => rfl
  · simp only [isOver, realizeDelivery, set_getElem? at_k, Option.all_some]

theorem settleCaller_alert {r : Engine × Move CallerStage} (alert : e.Alert) (kept : Keeps e r.1)
    (current : r.1.current = some (.caller k)) (live : e.isOver (.caller k) = false)
    (undue : ∀ stage on, r.2 = .wait stage on → r.1.isDue on = false) : (settleCaller k r).Alert := by
  have live₁ := kept.live _ live
  refine alert.settle kept ⟨rfl, rfl, rfl, rfl, rfl, rfl⟩ current live (fun s ne => ?_) ?_ undue
  · cases s with
    | caller j =>
      have ne : k ≠ j := fun eq => ne (by rw [eq])
      simp only [isOver, List.getElem?_modify_ne _ _ ne]
    | course | delivery | joiner | closer => rfl
  · cases at_k : r.1.callers[k]? with
    | none => simp [isOver, at_k] at live₁
    | some c => simp [isOver, at_k]

theorem settleJoiner_alert {r : Engine × Move JoinerStage} (alert : e.Alert) (kept : Keeps e r.1)
    (current : r.1.current = some (.joiner k)) (live : e.isOver (.joiner k) = false)
    (undue : ∀ stage on, r.2 = .wait stage on → r.1.isDue on = false) : (settleJoiner k r).Alert := by
  have live₁ := kept.live _ live
  refine alert.settle kept ⟨rfl, rfl, rfl, rfl, rfl, rfl⟩ current live (fun s ne => ?_) ?_ undue
  · cases s with
    | joiner j =>
      have ne : k ≠ j := fun eq => ne (by rw [eq])
      simp only [isOver, List.getElem?_modify_ne _ _ ne]
    | course | delivery | caller | closer => rfl
  · cases at_k : r.1.joiners[k]? with
    | none => simp [isOver, at_k] at live₁
    | some life => simp [isOver, at_k]

theorem settleCloser_alert {r : Engine × Move CloserStage} (alert : e.Alert) (kept : Keeps e r.1)
    (current : r.1.current = some (.closer k)) (live : e.isOver (.closer k) = false)
    (undue : ∀ stage on, r.2 = .wait stage on → r.1.isDue on = false) : (settleCloser k r).Alert := by
  have live₁ := kept.live _ live
  refine alert.settle kept ⟨rfl, rfl, rfl, rfl, rfl, rfl⟩ current live (fun s ne => ?_) ?_ undue
  · cases s with
    | closer j =>
      have ne : k ≠ j := fun eq => ne (by rw [eq])
      simp only [isOver, List.getElem?_modify_ne _ _ ne]
    | course | delivery | caller | joiner => rfl
  · cases at_k : r.1.closers[k]? with
    | none => simp [isOver, at_k] at live₁
    | some life => simp [isOver, at_k]

theorem callers_keeps (e : Engine) (k : Nat) (f : Caller → Caller) (hf : ∀ c, (f c).life = c.life) :
    Keeps e { e with callers := e.callers.modify k f } := by
  refine .of_eq rfl rfl rfl rfl (fun t => ?_) fun _ => rfl
  cases t with
  | caller j =>
    simp only [isOver, List.getElem?_modify]
    cases e.callers[j]? with
    | none => rfl
    | some c => by_cases hkj : k = j <;> simp [hkj, hf]
  | course | delivery | joiner | closer => rfl

/-- The move of a caller of `run`, who waits for an execution that has just been accepted. -/
theorem Alert.caller {c : Caller} {stage : CallerStage} (alert : e.Alert) (current : e.current = some (.caller k))
    (at_k : e.callers[k]? = some c) (life : c.life = .live stage false) :
    (settleCaller k (e.moveCaller k stage)).Alert := by
  have live : e.isOver (.caller k) = false := by simp [isOver, at_k, life, Life.isOver]
  cases stage with
  | entering workflow initial =>
    dsimp only [moveCaller]
    cases State.freeze initial with
    | error f => exact settleCaller_alert alert (.refl e) current live fun _ _ move => by cases move
    | ok state =>
      have kept := (submit_keeps e (.root e.clock workflow state)).trans
        (callers_keeps _ k ({ · with execution := some e.courses.length }) fun _ => rfl)
      refine settleCaller_alert alert kept current live fun stage on move => ?_
      cases move
      exact isDue_of_live (List.mem_singleton.mpr rfl) (isOver_newborn e _) (by simp)
  | awaiting | surrendering =>
    exact settleCaller_alert alert (.refl e) current live fun _ _ move => by cases move

/-- A canceled caller of `run` waits for the end of its execution if that is live. -/
theorem Alert.callerCanceled {c : Caller} {stage : CallerStage} (alert : e.Alert)
    (current : e.current = some (.caller k)) (at_k : e.callers[k]? = some c) (life : c.life = .live stage true) :
    (settleCaller k (e.cancelCaller stage)).Alert := by
  have live : e.isOver (.caller k) = false := by simp [isOver, at_k, life, Life.isOver]
  have kept := keeps_nudging.cancelCaller e stage
  refine settleCaller_alert alert kept ((current_nudging.cancelCaller e stage).trans current) live fun next on move => ?_
  cases stage with
  | awaiting x =>
    cases ceased : e.isOver (.course x) with
    | true => simp [cancelCaller, ceased] at move
    | false =>
      have live_x := kept.live _ ceased
      obtain rfl : .tasks [.course x] none = on := by
        simp only [cancelCaller, ceased, Bool.false_eq_true, if_false, Move.wait.injEq] at move
        exact move.2
      exact isDue_of_live (List.mem_singleton.mpr rfl) live_x (by simp)
  | entering | surrendering => cases move

/-- A caller of `join` waits for what is running. -/
theorem Alert.joiner {stage : JoinerStage} (alert : e.Alert) (current : e.current = some (.joiner k))
    (life : e.joiners[k]? = some (.live stage false)) : (settleJoiner k (e.moveJoiner stage)).Alert := by
  have live : e.isOver (.joiner k) = false := by simp [isOver, life, Life.isOver]
  have kept := keeps_nudging.moveJoiner e stage
  refine settleJoiner_alert alert kept ((current_nudging.moveJoiner e stage).trans current) live fun next on move => ?_
  cases stage with
  | watching =>
    cases running : e.running with
    | nil => simp [moveJoiner, running] at move
    | cons x xs =>
      have live_x := (mem_running.mp (by rw [running]; exact List.mem_cons_self)).2
      obtain rfl : .tasks ((x :: xs).map .course) none = on := by
        simp only [moveJoiner, running, Move.wait.injEq, true_and] at move
        exact move
      exact isDue_of_live (List.mem_map_of_mem List.mem_cons_self) (kept.live _ live_x) (by simp)

/-- A caller of `shutdown` waits for what is pending. -/
theorem Alert.closer {stage : CloserStage} (alert : e.Alert) (current : e.current = some (.closer k))
    (life : e.closers[k]? = some (.live stage false)) : (settleCloser k (e.moveCloser stage)).Alert := by
  have live : e.isOver (.closer k) = false := by simp [isOver, life, Life.isOver]
  have kept := keeps_nudging.moveCloser e stage
  refine settleCloser_alert alert kept ((current_nudging.moveCloser e stage).trans current) live fun next on move => ?_
  cases stage with
  | sweeping => cases move
  | flushing deadline =>
    cases pending : e.pending with
    | nil => simp [moveCloser, pending] at move
    | cons t ts =>
      have mem : t ∈ e.pending := by rw [pending]; exact List.mem_cons_self
      have live_t := kept.live _ (live_of_pending mem)
      have busy : ¬ e.pending.isEmpty = true := by simp [pending]
      simp only [moveCloser, if_neg busy] at move live_t kept ⊢
      -- after the sweep the closer waits for its tasks without a time
      by_cases late : deadline ≤ e.clock
      · simp only [if_pos late] at move live_t ⊢
        obtain rfl : .tasks e.pending none = on := by
          simp only [sweep, Move.wait.injEq] at move
          exact move.2
        exact isDue_of_live mem live_t (by simp)
      · simp only [if_neg late] at move live_t ⊢
        obtain rfl : .tasks e.pending (some deadline) = on := by
          simp only [Move.wait.injEq] at move
          exact move.2
        refine isDue_of_live mem live_t fun time eq => ?_
        obtain rfl := Option.some.inj eq
        exact late

end Moves

/-! ## Every sound state -/

section Acts

variable {e e' : Engine}

theorem Alert.undergo (alert : e.Alert) (free : e.current = none) (deed : Deed) : (e.undergo deed).Alert := by
  have kept {e' : Engine} (h : Keeps e e') : e'.Alert := h.alert alert
  cases deed with
  | start workflow initial =>
    dsimp only [Engine.undergo, start]
    cases State.freeze initial with
    | error f => exact alert
    | ok state => exact kept (submit_keeps e _)
  | cancel x id reason =>
    obtain eq | ⟨y, c, -, -, eq | eq⟩ := cancel_cases e x id reason <;> simp only [Engine.undergo, eq]
    · exact alert
    · exact kept (sendCancel_keeps e y c reason)
    · exact kept ((sendCancel_keeps e y c reason).trans (markCanceled_keeps _ _ _ _))
  | cancelRun k => exact kept (interrupt_keeps e _)
  | cancelJoin k => exact kept (keeps_nudging.cancelJoin e k)
  | run workflow initial => exact kept (run_keeps e workflow initial)
  | join => exact kept (join_keeps e)
  | shutdown timeout => exact kept (beginShutdown_keeps free timeout)
  | release | releaseBus => exact wake_alert fun t live => alert.present t (by cases t <;> exact live)
  | register stepType offered =>
    dsimp only [Engine.undergo, register]
    split
    · exact kept (.of_eq rfl rfl rfl rfl (fun t => by cases t <;> rfl) fun _ => rfl)
    · exact alert
  | unregister stepType => exact kept (.of_eq rfl rfl rfl rfl (fun t => by cases t <;> rfl) fun _ => rfl)
  | pass time =>
    dsimp only [Engine.undergo]
    split
    · exact wake_alert fun t live => alert.present t (by cases t <;> exact live)
    · exact alert

theorem Happens.alert {a : Act} (h : Happens e a e') (alert : e.Alert) : e'.Alert := by
  have kept {e' : Engine} (h : Keeps e e') : e'.Alert := h.alert alert
  cases h with
  | still => exact alert
  | chosen free at_place =>
    exact kept (.of_eq rfl rfl rfl rfl (fun t => by cases t <;> rfl) (choose_presence free at_place))
  -- a task that is over loses its place for good
  | @vacant place t current stopped =>
    refine kept ⟨rfl, rfl, rfl, .of_eq rfl, fun s live => by cases s <;> exact live, fun s live => ?_⟩
    have live' : e.isOver s = false := by cases s <;> exact live
    have ne : s ≠ t := by
      rintro rfl
      exact Bool.false_ne_true (live'.symm.trans stopped)
    refine .inr ⟨live', ?_⟩
    rw [presence_of_ne current ne]
    simp [presence]
  | course current at_x moved => exact alert.course current at_x moved
  | delivery current at_k moved => exact alert.delivery current at_k moved
  | caller current at_k life => exact alert.caller current at_k life
  | callerCanceled current at_k life => exact alert.callerCanceled current at_k life
  | joiner current life => exact alert.joiner current life
  | joinerCanceled current life =>
    refine settleJoiner_alert alert (.refl e) current ?_ fun _ _ move => by cases move
    simp [isOver, life, Life.isOver]
  | closer current life => exact alert.closer current life
  | closerCanceled current life =>
    refine settleCloser_alert alert (.refl e) current ?_ fun _ _ move => by cases move
    simp [isOver, life, Life.isOver]
  | host free => exact alert.undergo free _

/-- **Alertness**: in every sound state each live task has a place, and none waits for what has come. -/
theorem Sound.alert (h : e.Sound) : e.Alert := by
  refine h.induction (fun settings process bus registry => ⟨fun t live => ?_, fun w mem => ?_⟩)
    fun e a sound _ _ alert => (sound.happens a).alert alert
  · cases t <;> simp [fresh, isOver] at live
  · simp [fresh] at mem

end Acts

end Engine

end Stepflow
