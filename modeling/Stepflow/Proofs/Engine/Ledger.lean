import Stepflow.Proofs.Engine.Quiescence
import Stepflow.Proofs.Engine.Reasons

/-!
# Stepflow.Proofs.Engine.Ledger — what is running, and which reasons are on their way, kept entry by entry

An engine keeps no list of its live tasks: `running`, `dispatches` and `reason?` read them off the tasks themselves.  A
`Ledger` is kept beside it instead: an execution or a detached call is entered when it is queued, a reason is written when
a cancellation is sent, and a callback drops both some time after the task has ended.

* `Engine.entry`, `Ledger.after`: what an act enters.  `Ledger.call`: what a callback drops.
* `Sound.writes`: the reason of an execution whose task stays live in an act is the one that the entry of the act writes.
* `Agrees`: entered are the live tasks, and those that have ended and whose callbacks are due.  `Kept.agrees`: so it is
  along every run, whenever the callbacks come.
* `Kept.reads`: what the engine asks of the ledger has the answer that the tasks give.
-/

namespace Stepflow

/-- What is running, the reasons of cancellations, and the tasks that have ended and whose callbacks are due. -/
structure Ledger where
  running : List Nat
  dispatches : List Nat
  reasons : Nat → Option String
  due : List TaskId

/-- What an act writes in the map of reasons. -/
inductive Entry where
  | nothing
  /-- The host cancels an execution, and overwrites what is there. -/
  | assign (x : Nat) (reason : String)
  /-- The caller of `run` of an execution is canceled, and fills a gap. -/
  | fill (x : Nat)
  /-- The time of a shutdown is up: it fills the gaps of all that is running. -/
  | fillAll

/-- The reason of execution number `x` after an entry. -/
def Entry.write (running : List Nat) (x : Nat) (old : Option String) : Entry → Option String
  | .nothing => old
  | .assign y reason => if y = x ∧ x ∈ running then some reason else old
  | .fill y => if y = x then old.or (some Engine.callerReason) else old
  | .fillAll => if x ∈ running then old.or (some Engine.shutdownReason) else old

/-- What an act writes in the map of reasons of an engine. -/
def Engine.entry (e : Engine) : Act → Entry
  | .host (.cancel (some x) _ reason) =>
    if e.current = none ∧ (e.execution? x).any (!·.isFinished) then .assign x reason else .nothing
  | .host _ => .nothing
  | .turn _ =>
    match e.current with
    | some (.caller k) =>
      match e.callers[k]? with
      | some ⟨_, .live (.awaiting x) true⟩ => if e.isOver (.course x) then .nothing else .fill x
      | _ => .nothing
    | _ => if e.overdue then .fillAll else .nothing

namespace Ledger

/-- Nothing is entered. -/
def empty : Ledger := ⟨[], [], fun _ => none, []⟩

/-- A task is entered. -/
def Lists (l : Ledger) : TaskId → Prop
  | .course x => x ∈ l.running
  | .delivery k => k ∈ l.dispatches
  | _ => False

/-- The ledger after an act: what is new is entered, the reason is written, and of what has ended the callback is due. -/
def after (l : Ledger) (e : Engine) (a : Act) : Ledger where
  running := l.running ++ List.range' e.courses.length ((e.act a).courses.length - e.courses.length)
  dispatches := l.dispatches ++ List.range' e.deliveries.length ((e.act a).deliveries.length - e.deliveries.length)
  reasons x := (e.entry a).write l.running x (l.reasons x)
  due := l.due ++ e.pending.filter (e.act a).isOver

/-- The ledger after the callback of a task: its entries are gone. -/
def call (l : Ledger) (t : TaskId) : Ledger where
  running := l.running.filter fun x => t != .course x
  dispatches := l.dispatches.filter fun k => t != .delivery k
  reasons x := if t = .course x then none else l.reasons x
  due := l.due.filter (t != ·)

end Ledger

namespace Engine

/-! ## Reasons in one act -/

section Reasons

variable {e e' : Engine} {a : Act} {x : Nat} {c c' : Course}

/-- The reason of an execution whose task stays live is the one that an entry writes. -/
def Writes (e e' : Engine) (x : Nat) (entry : Entry) : Prop :=
  ∀ c c', e.courses[x]? = some c → e'.courses[x]? = some c' → c.life.isOver = false → c'.life.isOver = false →
    c'.reason = entry.write e.running x c.reason

theorem mem_running_of_live (at_x : e.courses[x]? = some c) (live : c.life.isOver = false) : x ∈ e.running :=
  mem_running.mpr ⟨(List.getElem?_eq_some_iff.mp at_x).1, by simpa [isOver, at_x] using live⟩

theorem Writes.kept (courses : ∀ c, e.courses[x]? = some c → e'.courses[x]? = some c) : Writes e e' x .nothing := by
  intro c c' at_x at_x' _ _
  obtain rfl : c = c' := Option.some.inj ((courses c at_x).symm.trans at_x')
  rfl

theorem Writes.of_eq (courses : e'.courses = e.courses) : Writes e e' x .nothing :=
  .kept fun c at_x => by rw [courses]; exact at_x

theorem Writes.append (more : List Course) (courses : e'.courses = e.courses ++ more) : Writes e e' x .nothing := by
  refine .kept fun c at_x => ?_
  rw [courses, List.getElem?_append_left (List.getElem?_eq_some_iff.mp at_x).1]
  exact at_x

theorem Writes.congr {e'' : Engine} {entry : Entry} (h : Writes e e' x entry) (courses : e''.courses = e'.courses) :
    Writes e e'' x entry := fun c c' at_x at_x' => h c c' at_x (by rw [← courses]; exact at_x')

/-- The move of an execution that goes on leaves its reason, and those of the others. -/
theorem realize_writes {y : Nat} {d : Course} {eff : Effect} (at_y : e.courses[y]? = some d) (journal : List Note)
    (log : List LogEntry) : Writes e (e.realize y (eff.course d) eff journal log) x .nothing := by
  intro c c' at_x at_x' _ live'
  have lt := (List.getElem?_eq_some_iff.mp at_x).1
  rw [realize, List.getElem?_append_left (by simpa using lt)] at at_x'
  by_cases ours : y = x
  · subst ours
    obtain rfl : d = c := Option.some.inj (at_y.symm.trans at_x)
    obtain rfl : eff.course d = c' := Option.some.inj ((set_getElem? at_x).symm.trans at_x')
    cases move : eff.move with
    | stop ending => simp [Effect.course, move, lifeAfter, Life.isOver] at live'
    | go | yield | wait => simp [Effect.course, move, Entry.write]
  · rw [List.getElem?_set_ne ours] at at_x'
    obtain rfl : c = c' := Option.some.inj (at_x.symm.trans at_x')
    rfl

theorem moveCaller_writes (k : Nat) (stage : CallerStage) : Writes e (e.moveCaller k stage).1 x .nothing := by
  cases stage with
  | entering workflow initial =>
    dsimp only [moveCaller]
    split
    · exact .of_eq rfl
    · exact .append [_] rfl
  | awaiting | surrendering => exact .of_eq rfl

theorem fill_writes {y : Nat} : Writes e ((e.giveReason y callerReason).interrupt (.course y)) x (.fill y) := by
  intro c c' at_x at_x' _ _
  by_cases ours : y = x
  · obtain rfl : _ = c' := by simpa [interrupt_courses, giveReason, updateCourse, at_x, ours] using at_x'
    simp [Entry.write, ours]
  · rw [interrupt_ne _ (by simpa using ours)] at at_x'
    obtain rfl : c = c' := Option.some.inj (((updateCourse_ne e ours _).trans at_x).symm.trans at_x')
    simp [Entry.write, ours]

theorem sweep_writes : Writes e e.sweep.1 x .fillAll := by
  intro c c' at_x at_x' live _
  obtain rfl := Option.some.inj ((sweep_courses at_x).symm.trans at_x')
  simp [Entry.write, mem_running_of_live at_x live, live]

theorem moveCloser_writes {k : Nat} {stage : CloserStage} (current : e.current = some (.closer k))
    (at_k : e.closers[k]? = some (.live stage false)) :
    Writes e (e.moveCloser stage).1 x (if e.overdue then .fillAll else .nothing) := by
  cases stage with
  | sweeping =>
    simp only [overdue, current, at_k]
    exact .of_eq rfl
  | flushing deadline =>
    simp only [overdue, current, at_k, moveCloser]
    by_cases empty : e.pending.isEmpty = true
    · simp only [empty, if_true, Bool.not_true, Bool.and_false]
      exact .of_eq rfl
    · by_cases late : deadline ≤ e.clock
      · simp only [empty, late, decide_true, Bool.not_false, Bool.and_true, if_true, if_false, Bool.false_eq_true]
        exact sweep_writes
      · simp only [empty, late, decide_false, Bool.false_and, if_false, Bool.false_eq_true]
        exact .of_eq rfl

/-- Canceling an execution that has not ended gives its task the reason. -/
theorem cancel_writes {y : Nat} {d : Course} {names : List String} (calm : e.Calm) (at_y : e.courses[y]? = some d)
    (names_eq : d.execution.names = .ok names) (unfinished : d.execution.isFinished = false) (id reason : String) :
    Writes e (e.cancel (some y) id reason).1 x (.assign y reason) := by
  intro c c' at_x at_x' live _
  obtain ⟨d', -, courses, -, given⟩ := cancel_touched calm at_y names_eq unfinished id reason
  rw [courses] at at_x'
  by_cases ours : y = x
  · subst ours
    obtain rfl : d = c := Option.some.inj (at_y.symm.trans at_x)
    obtain rfl : d' = c' := Option.some.inj ((set_getElem? at_x).symm.trans at_x')
    simp [Entry.write, mem_running_of_live at_x live, given live]
  · rw [List.getElem?_set_ne ours] at at_x'
    obtain rfl : c = c' := Option.some.inj (at_x.symm.trans at_x')
    simp [Entry.write, ours]

/-- A turn writes the reason of an execution that goes on as its entry says. -/
theorem Happens.writes {place : Nat} (h : Happens e (.turn place) e') : Writes e e' x (e.entry (.turn place)) := by
  cases h with
  | still idle =>
    simp only [entry, idle place rfl, overdue]
    exact .of_eq rfl
  | chosen free =>
    simp only [entry, free, overdue]
    exact .of_eq rfl
  -- the task is over, and only live callers and closers have entries
  | @vacant _ t current stopped =>
    have nothing : e.entry (.turn place) = .nothing := by
      cases t with
      | caller k =>
        simp only [entry, current]
        split
        · next at_k => simp [isOver, at_k, Life.isOver] at stopped
        · rfl
      | closer k =>
        simp only [entry, current, overdue]
        split
        · next at_k => simp [isOver, at_k, Life.isOver] at stopped
        · rfl
      | course | delivery | joiner => simp [entry, current, overdue]
    rw [nothing]
    exact .of_eq rfl
  | course current at_y moved =>
    simp only [entry, current, overdue]
    exact (realize_writes at_y _ _).congr (handOn_courses _ _ _)
  | delivery current =>
    simp only [entry, current, overdue]
    exact .of_eq (handOn_courses _ _ _)
  | @caller _ k c stage current at_k life =>
    obtain ⟨execution, _⟩ := c
    obtain rfl := life
    simp only [entry, current, at_k]
    exact (moveCaller_writes k stage).congr (handOn_courses _ _ _)
  | @callerCanceled _ k c stage current at_k life =>
    obtain ⟨execution, _⟩ := c
    obtain rfl := life
    refine Writes.congr ?_ (handOn_courses _ _ _)
    simp only [entry, current, at_k]
    cases stage with
    | entering | surrendering => exact .of_eq rfl
    | awaiting y =>
      dsimp only [cancelCaller]
      split
      · exact .of_eq rfl
      · exact fill_writes
  | @joiner _ k stage current =>
    simp only [entry, current, overdue]
    cases stage
    refine Writes.of_eq ((handOn_courses _ _ _).trans ?_)
    dsimp only [moveJoiner]
    split <;> rfl
  | joinerCanceled current =>
    simp only [entry, current, overdue]
    exact .of_eq (handOn_courses _ _ _)
  | closer current at_k =>
    simp only [entry, current]
    exact (moveCloser_writes current at_k).congr (handOn_courses _ _ _)
  | closerCanceled current life =>
    simp only [entry, current, overdue, life]
    exact .of_eq (handOn_courses _ _ _)

theorem undergo_writes (calm : e.Calm) (orderly : e.Orderly) (free : e.current = none) (deed : Deed) :
    Writes e (e.undergo deed) x (e.entry (.host deed)) := by
  have same : Writes e e x .nothing := .of_eq rfl
  cases deed with
  | start workflow initial =>
    dsimp only [undergo, start]
    split
    · next eq =>
      split at eq
      · cases eq
      · cases eq
        exact .append [_] rfl
    · exact .of_eq rfl
  | cancel y id reason =>
    cases y with
    | none => exact .of_eq rfl
    | some y =>
      cases at_y : e.courses[y]? with
      | none =>
        have still : (e.cancel (some y) id reason).1 = e := by simp [cancel, at_y]
        simpa [undergo, entry, execution?, at_y, still] using same
      | some d =>
        cases finished : d.execution.isFinished with
        | true =>
          have still : (e.cancel (some y) id reason).1 = e := by simp [cancel, at_y, finished]
          simpa [undergo, entry, execution?, at_y, finished, still] using same
        | false =>
          obtain ⟨names, names_eq⟩ := orderly.names at_y
          have writes := cancel_writes (x := x) calm at_y names_eq finished id reason
          simpa [undergo, entry, execution?, at_y, finished, free] using writes
  | cancelRun k => exact .kept fun c at_x => (interrupt_ne e (by simp)).trans at_x
  | cancelJoin k =>
    intro c c' at_x at_x' _ _
    obtain ⟨d, at_x'', -, reason⟩ := cancelJoin_getElem? e k at_x
    obtain rfl : d = c' := Option.some.inj (at_x''.symm.trans at_x')
    exact reason
  | register stepType offered =>
    dsimp only [undergo, register]
    split <;> exact .of_eq rfl
  | pass time =>
    dsimp only [undergo]
    split <;> exact .of_eq rfl
  | run | join | shutdown | release | releaseBus | unregister => exact .of_eq rfl

/-- **What is written**: the reason of an execution whose task stays live is the one that the entry of the act writes. -/
theorem Sound.writes (sound : e.Sound) (a : Act) : Writes e (e.act a) x (e.entry a) := by
  cases a with
  | turn place => exact (sound.happens (.turn place)).writes
  | host deed =>
    dsimp only [act]
    split
    · next free => exact undergo_writes sound.calm sound.orderly free deed
    · next busy =>
      have nothing : e.entry (.host deed) = .nothing := by
        unfold entry
        split <;> simp_all
      rw [nothing]
      exact .of_eq rfl

/-- A caller of `run` gives a reason to a live task. -/
theorem mem_running_of_fill {y : Nat} (fill : e.entry a = .fill y) : y ∈ e.running := by
  suffices live : e.isOver (.course y) = false from
    course_mem_pending.mp (mem_pending_iff.mpr ⟨live, .inl ⟨y, rfl⟩⟩)
  unfold entry at fill
  split at fill
  · split at fill <;> cases fill
  · cases fill
  · split at fill
    · split at fill
      · split at fill
        · cases fill
        · next live =>
          cases fill
          simpa using live
      · cases fill
    · split at fill <;> cases fill

/-- An entry gives no reason to what is not running. -/
theorem entry_write_out (out : x ∉ e.running) : (e.entry a).write e.running x none = none := by
  cases entry : e.entry a with
  | nothing => rfl
  | assign y reason => exact if_neg fun both => out both.2
  | fill y =>
    refine if_neg ?_
    rintro rfl
    exact out (mem_running_of_fill entry)
  | fillAll => exact if_neg out

end Reasons

/-! ## Tasks in one act -/

section Tasks

variable {e e' : Engine} {t : TaskId} {a : Act}

/-- A detached call whose task is over stays so. -/
theorem Outline.delivery_over {k : Nat} {d : Delivery} (h : Outline e e') (at_k : e.deliveries[k]? = some d)
    (stopped : d.life.isOver = true) : ∃ d', e'.deliveries[k]? = some d' ∧ d'.life.isOver = true := by
  cases h with
  | still => exact ⟨d, at_k, stopped⟩
  | course current at_x moved =>
    refine ⟨d, ?_, stopped⟩
    rw [handOn_deliveries, realize, List.getElem?_append_left (List.getElem?_eq_some_iff.mp at_k).1]
    exact at_k
  | @delivery j d₁ _ _ _ current at_j moved =>
    have ne : j ≠ k := by
      rintro rfl
      obtain rfl : d₁ = d := Option.some.inj (at_j.symm.trans at_k)
      exact Bool.false_ne_true (moved.live.symm.trans stopped)
    refine ⟨d, ?_, stopped⟩
    rw [handOn_deliveries, realizeDelivery, List.getElem?_set_ne ne]
    exact at_k
  | other unmoved elsewhere =>
    obtain ⟨d', at_k', rfl | rfl⟩ := elsewhere.deliveries.2 k d at_k
    · exact ⟨_, at_k', stopped⟩
    · exact ⟨_, at_k', d.life.isOver_interrupt.trans stopped⟩

/-- An execution or a detached call whose task is over stays so. -/
theorem Outline.over (h : Outline e e') (has : e.Has t) (stopped : e.isOver t = true)
    (kind : (∃ x, t = .course x) ∨ ∃ k, t = .delivery k) : e'.isOver t = true := by
  rcases kind with ⟨x, rfl⟩ | ⟨k, rfl⟩
  · have at_x := List.getElem?_eq_getElem (show x < e.courses.length from has)
    obtain ⟨c', at_x', fate⟩ := h.fate at_x
    simp only [isOver, at_x, at_x', Option.all_some] at stopped ⊢
    exact fate.over stopped
  · have at_k := List.getElem?_eq_getElem (show k < e.deliveries.length from has)
    simp only [isOver, at_k, Option.all_some] at stopped
    obtain ⟨d', at_k', stopped'⟩ := h.delivery_over at_k stopped
    simpa only [isOver, at_k', Option.all_some] using stopped'

/-- An execution or a detached call that is new is live. -/
theorem Outline.live_of_new (h : Outline e e') (new : ¬ e.Has t) (has : e'.Has t)
    (kind : (∃ x, t = .course x) ∨ ∃ k, t = .delivery k) : e'.isOver t = false := by
  rcases kind with ⟨x, rfl⟩ | ⟨k, rfl⟩
  · have at_x' := List.getElem?_eq_getElem (show x < e'.courses.length from has)
    obtain ⟨-, execution, fresh, -⟩ := h.newborn at_x' (List.getElem?_eq_none (Nat.not_lt.mp new))
    simp only [isOver, at_x', Option.all_some, fresh]
    rfl
  · have at_k' := List.getElem?_eq_getElem (show k < e'.deliveries.length from has)
    have fate := h.delivery_fate at_k'
    rw [List.getElem?_eq_none (Nat.not_lt.mp new)] at fate
    obtain ⟨d, none, -⟩ | ⟨x, c, eff, -, -, moved, dispatched, -⟩ := fate
    · cases none
    · obtain ⟨index, step, handler, eq, -⟩ := moved.dispatched_eq dispatched
      simp only [isOver, at_k', Option.all_some, eq]
      rfl

theorem Happens.has (h : Happens e a e') (has : e.Has t) : e'.Has t := by
  rcases h.shuffles with ⟨place, s, -, -, -, rfl⟩ | shuffles
  · exact has
  · exact shuffles.has t has

theorem has_of_pending (mem : t ∈ e.pending) : e.Has t := by
  rcases List.mem_append.mp mem with course | delivery
  · obtain ⟨x, running, rfl⟩ := List.mem_map.mp course
    exact (mem_running.mp running).1
  · obtain ⟨k, dispatched, rfl⟩ := List.mem_map.mp delivery
    exact List.mem_range.mp (List.mem_filter.mp dispatched).1

end Tasks

end Engine

/-! ## The ledger along a run -/

namespace Ledger

open Engine

/-- Entered are the live tasks, and those that have ended and whose callbacks are due; but for these the reasons are those
of the executions, and no reason is written for what is not entered. -/
structure Agrees (l : Ledger) (e : Engine) : Prop where
  lists : ∀ t, l.Lists t ↔ t ∈ e.pending ∨ t ∈ l.due
  due : ∀ t ∈ l.due, e.Has t ∧ e.isOver t = true
  reasons : ∀ x, .course x ∉ l.due → l.reasons x = e.reason? x
  keys : ∀ x, (l.reasons x).isSome = true → x ∈ l.running

section Agrees

variable {l : Ledger} {e : Engine} {t : TaskId} {a : Act} {x : Nat}

theorem kind_of_lists (h : l.Lists t) : (∃ x, t = .course x) ∨ ∃ k, t = .delivery k := by
  cases t with
  | course x => exact .inl ⟨x, rfl⟩
  | delivery k => exact .inr ⟨k, rfl⟩
  | _ => cases h

theorem lists_after : (l.after e a).Lists t ↔
    l.Lists t ∨ ¬ e.Has t ∧ (e.act a).Has t ∧ ((∃ x, t = .course x) ∨ ∃ k, t = .delivery k) := by
  have entered {n m i : Nat} : i ∈ List.range' n (m - n) ↔ ¬ i < n ∧ i < m := by
    rw [List.mem_range'_1]
    omega
  cases t with
  | course | delivery => simp [Lists, after, Engine.Has, entered]
  | _ => simp [Lists]

theorem mem_due_after : t ∈ (l.after e a).due ↔ t ∈ l.due ∨ t ∈ e.pending ∧ (e.act a).isOver t = true := by
  rw [after, List.mem_append, List.mem_filter]

theorem lists_call {s : TaskId} : (l.call s).Lists t ↔ l.Lists t ∧ s ≠ t := by
  cases t <;> simp [Lists, call]

theorem mem_due_call {s : TaskId} : t ∈ (l.call s).due ↔ t ∈ l.due ∧ s ≠ t := by
  simp [call]

theorem Agrees.running (h : l.Agrees e) : x ∈ l.running ↔ x ∈ e.running ∨ .course x ∈ l.due :=
  (h.lists (.course x)).trans (or_congr_left course_mem_pending)

/-- Where no callback is due for an execution, an entry writes for it what it writes by what is running. -/
theorem Agrees.write_eq (h : l.Agrees e) (quiet : .course x ∉ l.due) (entry : Entry) (old : Option String) :
    entry.write l.running x old = entry.write e.running x old := by
  have same : x ∈ l.running ↔ x ∈ e.running := by simp [h.running, quiet]
  cases entry <;> simp [Entry.write, same]

/-- After an act the ledger has the reason of every execution for which no callback is due. -/
theorem Agrees.reasons_after (h : l.Agrees e) (sound : e.Sound) (sound' : (e.act a).Sound)
    (quiet : .course x ∉ (l.after e a).due) : (l.after e a).reasons x = (e.act a).reason? x := by
  rw [mem_due_after, not_or] at quiet
  obtain ⟨quiet, lasting⟩ := quiet
  show (e.entry a).write l.running x (l.reasons x) = _
  rw [h.write_eq quiet, h.reasons x quiet]
  -- a new execution has no reason, a task that was over keeps none, and for one that goes on the entry tells
  cases at_x : e.courses[x]? with
  | none =>
    have out : x ∉ e.running := fun mem => Nat.not_lt.mpr (List.getElem?_eq_none_iff.mp at_x) (mem_running.mp mem).1
    have old : e.reason? x = none := by simp [reason?, at_x]
    rw [old, entry_write_out out]
    cases at_x' : (e.act a).courses[x]? with
    | none => simp [reason?, at_x']
    | some c' =>
      obtain ⟨-, execution, rfl, -⟩ := (sound.outline a).newborn at_x' at_x
      simp [reason?, at_x', Course.fresh]
  | some c =>
    obtain ⟨c', at_x', fate⟩ := (sound.outline a).fate at_x
    have old : e.reason? x = c.reason := by simp [reason?, at_x]
    have new : (e.act a).reason? x = c'.reason := by simp [reason?, at_x']
    rw [old, new]
    cases stopped : c.life.isOver with
    | true =>
      have out : x ∉ e.running := fun mem => by simp [mem_running, isOver, at_x, stopped] at mem
      rw [sound.freed x c at_x stopped, sound'.freed x c' at_x' (fate.over stopped), entry_write_out out]
    | false =>
      have pending := course_mem_pending.mpr (mem_running_of_live at_x stopped)
      have live' : c'.life.isOver = false := by simpa [pending, isOver, at_x'] using lasting
      exact (sound.writes a c c' at_x at_x' stopped live').symm

/-- An act writes reasons of executions that the ledger lists only. -/
theorem Agrees.keys_after (h : l.Agrees e) (written : ((l.after e a).reasons x).isSome = true) :
    x ∈ (l.after e a).running := by
  replace written : ((e.entry a).write l.running x (l.reasons x)).isSome = true := written
  refine List.mem_append_left _ ?_
  cases entry : e.entry a with
  | nothing => exact h.keys x (by simpa [entry, Entry.write] using written)
  | assign y reason =>
    by_cases both : y = x ∧ x ∈ l.running
    · exact both.2
    · exact h.keys x (by simpa [entry, Entry.write, both] using written)
  | fill y =>
    by_cases ours : y = x
    · exact h.running.mpr (.inl (ours ▸ mem_running_of_fill entry))
    · exact h.keys x (by simpa [entry, Entry.write, ours] using written)
  | fillAll =>
    by_cases mem : x ∈ l.running
    · exact mem
    · exact h.keys x (by simpa [entry, Entry.write, mem] using written)

/-- **An act keeps the ledger right.** -/
theorem Agrees.after (h : l.Agrees e) (sound : e.Sound) (sound' : (e.act a).Sound) : (l.after e a).Agrees (e.act a) where
  lists t := by
    rw [lists_after, h.lists, mem_due_after]
    -- a task is entered when it appears, and falls due in the act in which it ends
    constructor
    · rintro ((pending | due) | ⟨new, has, kind⟩)
      · cases stopped : (e.act a).isOver t with
        | true => exact .inr (.inr ⟨pending, rfl⟩)
        | false => exact .inl (mem_pending_iff.mpr ⟨stopped, (mem_pending_iff.mp pending).2⟩)
      · exact .inr (.inl due)
      · exact .inl (mem_pending_iff.mpr ⟨(sound.outline a).live_of_new new has kind, kind⟩)
    · rintro (pending | due | ⟨pending, -⟩)
      · obtain ⟨live, kind⟩ := mem_pending_iff.mp pending
        by_cases has : e.Has t
        · refine .inl (.inl (mem_pending_iff.mpr ⟨?_, kind⟩))
          by_contra stopped
          have stopped' := (sound.outline a).over has (by simpa using stopped) kind
          exact Bool.false_ne_true (live.symm.trans stopped')
        · exact .inr ⟨has, has_of_pending pending, kind⟩
      · exact .inl (.inr due)
      · exact .inl (.inl pending)
  due t mem := by
    rcases mem_due_after.mp mem with due | ⟨pending, stopped⟩
    · obtain ⟨has, stopped⟩ := h.due t due
      have kind := kind_of_lists ((h.lists t).mpr (.inr due))
      exact ⟨(sound.happens a).has has, (sound.outline a).over has stopped kind⟩
    · exact ⟨(sound.happens a).has (has_of_pending pending), stopped⟩
  reasons x quiet := h.reasons_after sound sound' quiet
  keys x written := h.keys_after written

/-- **A callback keeps the ledger right.** -/
theorem Agrees.call (h : l.Agrees e) (sound : e.Sound) (due : t ∈ l.due) : (l.call t).Agrees e where
  lists s := by
    rw [lists_call, mem_due_call, h.lists]
    constructor
    · rintro ⟨pending | due, ne⟩
      · exact .inl pending
      · exact .inr ⟨due, ne⟩
    · rintro (pending | ⟨due, ne⟩)
      · refine ⟨.inl pending, ?_⟩
        rintro rfl
        exact Bool.false_ne_true ((live_of_pending pending).symm.trans (h.due t due).2)
      · exact ⟨.inr due, ne⟩
  due s mem := h.due s (mem_due_call.mp mem).1
  reasons x quiet := by
    by_cases ours : t = .course x
    · obtain ⟨has, stopped⟩ := h.due t due
      subst ours
      have at_x := List.getElem?_eq_getElem (show x < e.courses.length from has)
      simp only [Engine.isOver, at_x, Option.all_some] at stopped
      simp [Ledger.call, Engine.reason?, at_x, sound.freed x _ at_x stopped]
    · have quiet : TaskId.course x ∉ l.due := fun mem => quiet (mem_due_call.mpr ⟨mem, ours⟩)
      simpa [Ledger.call, ours] using h.reasons x quiet
  keys x written := by
    by_cases ours : t = .course x
    · simp [Ledger.call, ours] at written
    · have mem := h.keys x (by simpa [Ledger.call, ours] using written)
      simpa [Ledger.call, ours] using mem

/-- Once no callback is due, the ledger has the live tasks and their reasons. -/
theorem Agrees.settled (h : l.Agrees e) (quiet : l.due = []) :
    (∀ t, l.Lists t ↔ t ∈ e.pending) ∧ ∀ x, l.reasons x = e.reason? x :=
  ⟨fun t => (h.lists t).trans (by simp [quiet]), fun x => h.reasons x (by simp [quiet])⟩

end Agrees

/-- An engine and the ledger that has been kept along the acts that led to it; a callback comes at any time after the end
of its task. -/
inductive Kept : Engine → Ledger → Prop
  | fresh (settings : Settings) (process : State → Step → Option Value → Except Raised Transition)
      (bus : Option (Lifecycle → Reaction)) (registry : Registry Handler) :
      Kept (.fresh settings process bus registry) .empty
  | act {e : Engine} {l : Ledger} (kept : Kept e l) (a : Act) : Kept (e.act a) (l.after e a)
  | callback {e : Engine} {l : Ledger} {t : TaskId} (kept : Kept e l) (due : t ∈ l.due) : Kept e (l.call t)

section Kept

variable {l : Ledger} {e : Engine} {x : Nat} {c : Course}

theorem Kept.reachable (kept : Kept e l) : e.Reachable := by
  induction kept with
  | fresh settings process bus registry => exact ⟨settings, process, bus, registry, .refl⟩
  | act _ a ih => exact ih.trans (.single trivial)
  | callback _ _ ih => exact ih

/-- **The ledger is right** in every state that an engine with a calm bus and writable names can be in, whenever the
callbacks come: it has the live tasks with their reasons, and those whose callbacks are due. -/
theorem Kept.agrees (kept : Kept e l) (sound : e.Sound) : l.Agrees e := by
  induction kept with
  | fresh =>
    refine ⟨fun t => ?_, by simp [empty], fun x => by simp [empty, Engine.fresh, reason?], by simp [empty]⟩
    cases t <;> simp [Lists, empty, Engine.fresh, pending, Engine.running, Engine.dispatches]
  | @act e l kept a ih =>
    have before := sound.of_reaches kept.reachable (.single (P := anyOrder) (a := a) trivial)
    exact (ih before).after before sound
  | callback _ due ih => exact (ih sound).call sound due

/-- The callbacks that are due can be called. -/
theorem Kept.exists_quiet (kept : Kept e l) : ∃ l', Kept e l' ∧ l'.due = [] := by
  -- each callback shortens the list of those due
  induction size : l.due.length using Nat.strongRecOn generalizing l with
  | ind n ih =>
    cases due : l.due with
    | nil => exact ⟨l, kept, due⟩
    | cons t rest =>
      have called : Kept e (l.call t) := kept.callback (by simp [due])
      have fewer : (l.call t).due.length ≤ rest.length := by simpa [call, due] using List.length_filter_le (t != ·) rest
      rw [due, List.length_cons] at size
      exact ih _ (by omega) called rfl

/-- Every state comes with a ledger in which no callback is due. -/
theorem exists_kept (reachable : e.Reachable) : ∃ l, Kept e l ∧ l.due = [] := by
  obtain ⟨settings, process, bus, registry, run⟩ := reachable
  induction run with
  | refl => exact ⟨.empty, .fresh settings process bus registry, rfl⟩
  | step _ _ ih =>
    obtain ⟨l, kept, -⟩ := ih
    exact (kept.act _).exists_quiet

/-- **What the engine asks of the ledger** has the answer that the tasks give: a live task finds itself and its reason in
it; and who cancels an execution that has not ended marks it at once, because it has not begun or has no task, exactly if
it has not begun or its task is over. -/
theorem Kept.reads (kept : Kept e l) (sound : e.Sound) (at_x : e.courses[x]? = some c) :
    (c.life.isOver = false → x ∈ l.running ∧ l.reasons x = c.reason) ∧
      (c.execution.isFinished = false →
        (c.execution.status = .idle ∨ x ∉ l.running ↔ c.execution.status = .idle ∨ c.life.isOver = true)) := by
  have agrees := kept.agrees sound
  have live (live : c.life.isOver = false) : x ∈ l.running ∧ l.reasons x = c.reason := by
    have quiet : TaskId.course x ∉ l.due := fun due => by
      simpa [isOver, at_x, live] using (agrees.due _ due).2
    exact ⟨agrees.running.mpr (.inl (mem_running_of_live at_x live)), by simp [agrees.reasons x quiet, reason?, at_x]⟩
  refine ⟨live, fun unfinished => or_congr_right' fun begun => ?_⟩
  -- an execution that has begun and not ended has a live task, so both sides fail
  have going : c.life.isOver = false := by
    by_contra stopped
    exact begun ((sound.standing.stands x c at_x).unbegun_of_over (by simpa using stopped) unfinished).status_eq
  simp [going, (live going).1]

end Kept

end Ledger

end Stepflow
