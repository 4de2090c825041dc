import Stepflow.Proofs.Engine.Threading

/-!
# Stepflow.Proofs.Engine.Easing — an engine whose resolvers return nothing where those of another raise

* `Script.Eases`, `Handler.Eases`, `Registry.Eases`: calls of resolvers that are waited for and whose failures are swallowed
  return nothing where others raise a failure; everything else is the same.
* `Recovery`: a call that raised in the one engine and returned nothing in the other, with what is told of it.
* `Eased`: two engines are the same but for their resolvers and some recoveries.  The records of those steps read succeeded
  instead of recovered, and the events and the records of the log that tell of the recoveries are missing.
* `Eased.report`, `Eased.announce`, `Eased.updateCourse`, `Eased.wake`, `Eased.interrupt` and so on: what is done to both
  engines leaves them so.
-/

namespace Stepflow

/-! ## Resolvers -/

/-- A script that returns nothing at some places where another raises a failure. -/
inductive Script.Eases : Script → Script → Prop
  | same (s : Script) : Eases s s
  | eased (f : Failure) : Eases (.raise (.failure f)) (.answer none)
  | remark {r : Remark} {next next' : Script} (h : Eases next next') : Eases (.remark r next) (.remark r next')
  | sleep {seconds : Rat} {next next' canceled canceled' : Script} (h : Eases next next')
      (h' : Eases canceled canceled') : Eases (.sleep seconds next canceled) (.sleep seconds next' canceled')
  | gate {next next' canceled canceled' : Script} (h : Eases next next') (h' : Eases canceled canceled') :
      Eases (.gate next canceled) (.gate next' canceled')

/-- A handler some of whose calls return nothing where those of another raise, if that one is waited for and its failures
are swallowed. -/
inductive Handler.Eases (h : Handler) : Handler → Prop
  | same : Eases h h
  | eased {respond : Nat → Value → Script} (attached : h.resolver.detached = false) (swallow : h.resolver.policy = .swallow)
      (each : ∀ count payload, (h.resolver.respond count payload).Eases (respond count payload)) :
      Eases h ⟨h.slot, { h.resolver with respond := respond }⟩

/-- The handlers of a registry are those of another, but for calls that return nothing where those raise. -/
def Registry.Eases (r r' : Registry Handler) : Prop :=
  ∀ stepType, Option.Rel Handler.Eases (r.find? stepType) (r'.find? stepType)

section Resolvers

variable {h h' : Handler} {r r' : Registry Handler}

theorem Handler.Eases.slot_eq (eases : h.Eases h') : h'.slot = h.slot := by
  cases eases <;> rfl

theorem Handler.Eases.policy_eq (eases : h.Eases h') : h'.resolver.policy = h.resolver.policy := by
  cases eases <;> rfl

/-- Handlers of detached calls are the same. -/
theorem Handler.Eases.eq_of_detached (eases : h.Eases h') (detached : h.resolver.detached = true) : h' = h := by
  cases eases with
  | same => rfl
  | eased attached => exact absurd (attached.symm.trans detached) Bool.false_ne_true

theorem Handler.Eases.detached_eq (eases : h.Eases h') : h'.resolver.detached = h.resolver.detached := by
  cases eases <;> rfl

theorem Registry.Eases.register (eases : r.Eases r') (stepType : String) (handlers : h.Eases h') :
    (r.register stepType h).Eases (r'.register stepType h') := by
  intro t
  simp only [find?, Registry.register, Fields.get?_insert]
  split
  · exact .some handlers
  · exact eases t

theorem Registry.Eases.unregister (eases : r.Eases r') (stepType : String) :
    (r.unregister stepType).Eases (r'.unregister stepType) := by
  intro t
  simp only [find?, Registry.unregister, Fields.get?_erase]
  split
  · exact .none
  · exact eases t

theorem Registry.Eases.has_eq (eases : r.Eases r') (stepType : String) : r'.has stepType = r.has stepType := by
  have both := eases stepType
  change (r'.find? stepType).isSome = (r.find? stepType).isSome
  generalize r.find? stepType = found, r'.find? stepType = found' at both
  cases both <;> rfl

end Resolvers

/-! ## Recoveries -/

/-- A failure that was swallowed: of which step of which execution, at which place, and the failure. -/
structure Recovery where
  execution : Nat
  index : Nat
  stepType : String
  failure : Failure
  place : String

/-- The announcement of a recovery. -/
def Recovery.event (r : Recovery) : Lifecycle := .stepRecovered r.execution r.index r.stepType r.failure.message

/-- The record in the log of a recovery. -/
def Recovery.entry (r : Recovery) : LogEntry := ⟨.warning, recoveredText r.place r.index r.stepType r.failure⟩

/-- The text of the failure of a step of an execution, if it is one of some recoveries. -/
def textAt (recoveries : List Recovery) (x index : Nat) : Option String :=
  (recoveries.find? fun r => r.execution = x ∧ r.index = index).map (·.failure.message)

/-- The record of a recovered step whose text is given reads succeeded. -/
def StepRecord.ease (texts : Nat → Option String) (r : StepRecord) : StepRecord :=
  if r.status = .recovered ∧ r.error.isSome ∧ r.error = texts r.index then { r with status := .succeeded, error := none }
  else r

/-- An execution with the records of recovered steps whose texts are given reading succeeded. -/
def Execution.ease (texts : Nat → Option String) (a : Execution) : Execution :=
  { a with history := a.history.map (·.ease texts) }

/-- What is noted of the end of a call that is one of some recoveries: that it returned nothing. -/
def CallNote.ease (recoveries : List Recovery) : CallNote → CallNote
  | .begun x index slot payload => .begun x index slot payload
  | .ended x index result => .ended x index (if (textAt recoveries x index).isSome then .ok none else result)

/-- Where an execution stands if it differs by the end of a call, past or to come. -/
inductive Stage.Eases (texts : Nat → Option String) : Stage → Stage → Prop
  | same {stage : Stage}
      (plain : ∀ index output error, stage = .handled index output .recovered error → texts index = none) :
      Eases texts stage stage
  | calling {index : Nat} {h h' : Handler} {s s' : Script} (handlers : h.Eases h') (scripts : s.Eases s')
      (swallow : s' = s ∨ h.resolver.policy = .swallow) : Eases texts (.calling index h s) (.calling index h' s')
  | holding {index : Nat} {h h' : Handler} {next next' canceled canceled' : Script} (handlers : h.Eases h')
      (scripts : next.Eases next') (scripts' : canceled.Eases canceled')
      (swallow : next' = next ∧ canceled' = canceled ∨ h.resolver.policy = .swallow) :
      Eases texts (.holding index h next canceled) (.holding index h' next' canceled')
  | handled {index : Nat} {text : String} (given : texts index = some text) :
      Eases texts (.handled index none .recovered (some text)) (.handled index none .succeeded none)

/-- Lives of the same shape at related stages. -/
inductive Life.Eases {σ : Type} (R : σ → σ → Prop) : Life σ → Life σ → Prop
  | live {stage stage' : σ} (interrupted : Bool) (stages : R stage stage') :
      Eases R (.live stage interrupted) (.live stage' interrupted)
  | ended (ending : Ending) : Eases R (.over ending) (.over ending)

/-- Moves of the same shape to related stages. -/
inductive Move.Eases {σ : Type} (R : σ → σ → Prop) : Move σ → Move σ → Prop
  | go {stage stage' : σ} (stages : R stage stage') : Eases R (.go stage) (.go stage')
  | yield {stage stage' : σ} (stages : R stage stage') : Eases R (.yield stage) (.yield stage')
  | wait {stage stage' : σ} (on : Wait) (stages : R stage stage') : Eases R (.wait stage on) (.wait stage' on)
  | stop (ending : Ending) : Eases R (.stop ending) (.stop ending)

theorem Move.Eases.refl {σ : Type} (m : Move σ) : m.Eases Eq m := by
  cases m with
  | go => exact .go rfl
  | yield => exact .yield rfl
  | wait => exact .wait _ rfl
  | stop => exact .stop _

/-- An execution and its task, but for some recoveries. -/
structure Course.Eases (texts : Nat → Option String) (c c' : Course) : Prop where
  execution : c'.execution = c.execution.ease texts
  scheduled : c'.scheduled = c.scheduled
  life : c.life.Eases (Stage.Eases texts) c'.life
  reason : c'.reason = c.reason

/-- The executions and their tasks, but for some recoveries. -/
structure Abreast (recoveries : List Recovery) (courses courses' : List Course) : Prop where
  length_eq : courses'.length = courses.length
  each : ∀ x c c', courses[x]? = some c → courses'[x]? = some c' →
    Course.Eases (textAt recoveries x) c c'

/-- A list is made of another and of what is shed. -/
inductive Sheds {α : Type} : List α → List α → List α → Prop
  | nil : Sheds [] [] []
  | keep {shed l l' : List α} (h : Sheds shed l l') (a : α) : Sheds shed (l ++ [a]) (l' ++ [a])
  | shed {shed l l' : List α} (h : Sheds shed l l') (a : α) : Sheds (shed ++ [a]) (l ++ [a]) l'

/-- **Engines that are the same** but for their resolvers and some recoveries: calls that raised a failure in the first and
returned nothing in the second.  The records of those steps read succeeded, and the events and the records of the log that
tell of the recoveries are missing. -/
inductive Engine.Eased (recoveries : List Recovery) (e : Engine) : Engine → Prop
  | mk {registry : Registry Handler} {courses : List Course} {events : List Lifecycle} {log : List LogEntry}
      (registered : e.registry.Eases registry) (abreast : Abreast recoveries e.courses courses)
      (noted : ∀ r ∈ recoveries, .ended r.execution r.index (.error (.failure r.failure)) ∈ e.calls)
      (attached : ∀ r ∈ recoveries, ∀ d ∈ e.deliveries, d.execution = r.execution → d.index ≠ r.index)
      (announced : Sheds (if e.bus.isSome then recoveries.map Recovery.event else []) e.events events)
      (logged : Sheds (recoveries.map Recovery.entry) e.log log) :
      Eased recoveries e
        { e with
          registry := registry, courses := courses, calls := e.calls.map (·.ease recoveries), events := events, log := log }

section Lists

variable {α : Type} {shed l l' : List α}

theorem Sheds.keepAll (h : Sheds shed l l') (more : List α) : Sheds shed (l ++ more) (l' ++ more) := by
  induction more generalizing l l' with
  | nil => simpa using h
  | cons a more ih => simpa using ih (h.keep a)

theorem mem_or_of_mem_modify {k : Nat} {f : α → α} {b : α} (mem : b ∈ l.modify k f) : b ∈ l ∨ ∃ a ∈ l, b = f a := by
  obtain ⟨j, at_j⟩ := List.mem_iff_getElem?.mp mem
  rw [List.getElem?_modify] at at_j
  cases before : l[j]? with
  | none => simp [before] at at_j
  | some a =>
    have old := List.mem_of_getElem? before
    by_cases same : k = j
    · simp only [before, same, if_true, Option.map_eq_map, Option.map_some, Option.some.injEq] at at_j
      exact .inr ⟨a, old, at_j.symm⟩
    · simp only [before, same, if_false, Option.map_eq_map, Option.map_some, Option.some.injEq] at at_j
      exact .inl (at_j ▸ old)

end Lists

section Courses

variable {recoveries : List Recovery} {courses courses' : List Course} {texts : Nat → Option String} {c c' : Course}

theorem Course.Eases.interrupt (h : Course.Eases texts c c') :
    Course.Eases texts { c with life := c.life.interrupt } { c' with life := c'.life.interrupt } where
  execution := h.execution
  scheduled := h.scheduled
  reason := h.reason
  life := by
    have life := h.life
    revert life
    generalize c.life = before, c'.life = after
    intro life
    cases life with
    | live interrupted stages => exact .live true stages
    | ended ending => exact .ended ending

theorem Course.Eases.isOver_eq (h : Course.Eases texts c c') : c'.life.isOver = c.life.isOver := by
  have life := h.life
  revert life
  generalize c.life = before, c'.life = after
  intro life
  cases life <;> rfl

/-- A course that has just begun to be is the same in both engines. -/
theorem Course.Eases.fresh {a : Execution} (blank : a.history = []) :
    Course.Eases texts (.fresh a) (.fresh a) where
  execution := by
    cases a
    subst blank
    rfl
  scheduled := rfl
  life := .live false (.same fun _ _ _ h => by cases h)
  reason := rfl

theorem Abreast.modify (h : Abreast recoveries courses courses') {x : Nat} {f f' : Course → Course}
    (both : ∀ c c', Course.Eases (textAt recoveries x) c c' → Course.Eases (textAt recoveries x) (f c) (f' c')) :
    Abreast recoveries (courses.modify x f) (courses'.modify x f') where
  length_eq := by simp [h.length_eq]
  each y d d' at_y at_y' := by
    rw [List.getElem?_modify] at at_y at_y'
    cases before : courses[y]? with
    | none => simp [before] at at_y
    | some c =>
      cases before' : courses'[y]? with
      | none => simp [before'] at at_y'
      | some c' =>
        have eases := h.each y c c' before before'
        by_cases same : x = y
        · subst same
          simp only [before, before', if_true, Option.map_eq_map, Option.map_some, Option.some.injEq] at at_y at_y'
          subst at_y at_y'
          exact both c c' eases
        · simp only [before, before', same, if_false, Option.map_eq_map, Option.map_some, Option.some.injEq] at at_y at_y'
          subst at_y at_y'
          exact eases

theorem Abreast.append (h : Abreast recoveries courses courses') {a : Execution} (blank : a.history = []) :
    Abreast recoveries (courses ++ [.fresh a]) (courses' ++ [.fresh a]) where
  length_eq := by simp [h.length_eq]
  each y d d' at_y at_y' := by
    rcases Nat.lt_trichotomy y courses.length with old | rfl | beyond
    · rw [List.getElem?_append_left old] at at_y
      rw [List.getElem?_append_left (h.length_eq ▸ old)] at at_y'
      exact h.each y d d' at_y at_y'
    · have last : (courses' ++ [Course.fresh a])[courses.length]? = some (.fresh a) := by
        rw [← h.length_eq]
        simp
      obtain rfl : Course.fresh a = d' := Option.some.inj (last.symm.trans at_y')
      obtain rfl : Course.fresh a = d := by simpa using at_y
      exact .fresh blank
    · have none : (courses ++ [Course.fresh a])[y]? = none := by simp; omega
      cases none.symm.trans at_y

theorem Abreast.counterpart (h : Abreast recoveries courses courses') {x : Nat} (at_x : courses[x]? = some c) :
    ∃ c', courses'[x]? = some c' ∧ Course.Eases (textAt recoveries x) c c' := by
  obtain ⟨lt, -⟩ := List.getElem?_eq_some_iff.mp at_x
  have at_x' := List.getElem?_eq_getElem (h.length_eq ▸ lt : x < courses'.length)
  exact ⟨_, at_x', h.each x c _ at_x at_x'⟩

theorem Abreast.unknown (h : Abreast recoveries courses courses') {x : Nat} (at_x : courses[x]? = none) :
    courses'[x]? = none := by
  rw [List.getElem?_eq_none_iff] at at_x ⊢
  rw [h.length_eq]
  exact at_x

end Courses

/-! ## What is done to both engines -/

namespace Engine.Eased

variable {recoveries : List Recovery} {e e' : Engine}

/-! ### Views -/

/-- The engines differ in nothing else. -/
theorem rest (h : Eased recoveries e e') : e' =
    { e with registry := e'.registry, courses := e'.courses, calls := e'.calls, events := e'.events, log := e'.log } := by
  cases h
  rfl

theorem clock_eq (h : Eased recoveries e e') : e'.clock = e.clock := (congrArg Engine.clock h.rest).trans rfl

theorem isOver_eq (h : Eased recoveries e e') (t : TaskId) : e'.isOver t = e.isOver t := by
  cases h with
  | mk registered abreast noted attached announced logged =>
    cases t with
    | course x =>
      unfold isOver
      dsimp only
      cases at_x : e.courses[x]? with
      | none => rw [abreast.unknown at_x]
      | some c =>
        obtain ⟨c', at_x', eases⟩ := abreast.counterpart at_x
        rw [at_x']
        exact eases.isOver_eq
    | delivery | caller | joiner | closer => rfl

theorem length_eq (h : Eased recoveries e e') : e'.courses.length = e.courses.length := by
  cases h with
  | mk registered abreast noted attached announced logged => exact abreast.length_eq

theorem counterpart (h : Eased recoveries e e') {x : Nat} {c : Course} (at_x : e.courses[x]? = some c) :
    ∃ c', e'.courses[x]? = some c' ∧ Course.Eases (textAt recoveries x) c c' := by
  cases h with
  | mk registered abreast noted attached announced logged => exact abreast.counterpart at_x

theorem unknown (h : Eased recoveries e e') {x : Nat} (at_x : e.courses[x]? = none) : e'.courses[x]? = none := by
  cases h with
  | mk registered abreast noted attached announced logged => exact abreast.unknown at_x

theorem reason_eq (h : Eased recoveries e e') (x : Nat) : e'.reason? x = e.reason? x := by
  unfold reason?
  cases at_x : e.courses[x]? with
  | none => rw [h.unknown at_x]
  | some c =>
    obtain ⟨c', at_x', eases⟩ := h.counterpart at_x
    rw [at_x']
    exact eases.reason

theorem execution_eq (h : Eased recoveries e e') (x : Nat) :
    e'.execution? x = (e.execution? x).map (Execution.ease (textAt recoveries x)) := by
  unfold execution?
  cases at_x : e.courses[x]? with
  | none => rw [h.unknown at_x]; rfl
  | some c =>
    obtain ⟨c', at_x', eases⟩ := h.counterpart at_x
    rw [at_x']
    exact congrArg some eases.execution

theorem running_eq (h : Eased recoveries e e') : e'.running = e.running := by
  unfold running
  rw [h.length_eq]
  exact List.filter_congr fun x _ => by rw [h.isOver_eq]

theorem pending_eq (h : Eased recoveries e e') : e'.pending = e.pending := by
  have dispatches : e'.dispatches = e.dispatches := (congrArg Engine.dispatches h.rest).trans rfl
  unfold pending
  rw [h.running_eq, dispatches]

theorem isDue_eq (h : Eased recoveries e e') (on : Wait) : e'.isDue on = e.isDue on := by
  have ended := h.isOver_eq
  cases on with
  | tasks ids due =>
    have all : ids.all e'.isOver = ids.all e.isOver := by simp only [funext ended]
    unfold isDue
    dsimp only
    rw [all, h.clock_eq]
  | gate | bus | clock => exact (congrArg (Engine.isDue · _) h.rest).trans rfl

/-- Resolvers have been called as often. -/
theorem callCount_eq (h : Eased recoveries e e') (slot : Nat) : e'.callCount slot = e.callCount slot := by
  cases h with
  | mk registered abreast noted attached announced logged =>
    unfold callCount
    rw [List.countP_map]
    refine List.countP_congr fun n _ => ?_
    cases n <;> rfl

/-! ### Small changes -/

theorem report (h : Eased recoveries e e') (level : Level) (message : String) :
    Eased recoveries (e.report level message) (e'.report level message) := by
  cases h with
  | mk registered abreast noted attached announced logged =>
    exact .mk registered abreast noted attached announced (logged.keep _)

theorem take (h : Eased recoveries e e') (r : Remark) : Eased recoveries (e.take r) (e'.take r) := by
  cases h with
  | mk registered abreast noted attached announced logged =>
    cases r with
    | note n => exact .mk registered abreast noted attached announced logged
    | log entry => exact .mk registered abreast noted attached announced (logged.keep entry)

/-- An event is announced in both engines, and the bus takes it alike. -/
theorem announce (h : Eased recoveries e e') (event : Lifecycle) :
    Eased recoveries (e.announce event).1 (e'.announce event).1 ∧ (e'.announce event).2 = (e.announce event).2 := by
  have told (e : Engine) : (e.announce event).1 =
      { e with events := e.events ++ if e.bus.isSome then [event] else [] } := by
    unfold Engine.announce
    cases e with
    | mk _ _ bus => cases bus <;> simp
  rw [told e, told e']
  cases h with
  | mk registered abreast noted attached announced logged =>
    refine ⟨.mk registered abreast noted attached (announced.keepAll _) logged, ?_⟩
    unfold Engine.announce
    dsimp only
    cases e.bus <;> rfl

theorem updateCourse (h : Eased recoveries e e') {x : Nat} {f f' : Course → Course}
    (both : ∀ c c', Course.Eases (textAt recoveries x) c c' → Course.Eases (textAt recoveries x) (f c) (f' c')) :
    Eased recoveries (e.updateCourse x f) (e'.updateCourse x f') := by
  cases h with
  | mk registered abreast noted attached announced logged =>
    exact .mk registered (abreast.modify both) noted attached announced logged

theorem submit (h : Eased recoveries e e') {a : Execution} (blank : a.history = []) :
    Eased recoveries (e.submit a) (e'.submit a) := by
  have length := h.length_eq
  cases h with
  | mk registered abreast noted attached announced logged =>
    unfold Engine.submit
    dsimp only at length ⊢
    rw [length]
    exact .mk registered (abreast.append blank) noted attached announced logged

theorem wake (h : Eased recoveries e e') : Eased recoveries e.wake e'.wake := by
  have due := funext h.isDue_eq
  cases h with
  | mk registered abreast noted attached announced logged =>
    unfold Engine.wake
    rw [due]
    exact .mk registered abreast noted attached announced logged

/-- What is done to one task of the engines, of whatever kind, alike. -/
theorem flag (h : Eased recoveries e e') (t : TaskId) : Eased recoveries (e.flag t) (e'.flag t) := by
  cases t with
  | course x => exact h.updateCourse fun _ _ eases => eases.interrupt
  | delivery k =>
    cases h with
    | mk registered abreast noted attached announced logged =>
      refine .mk registered abreast noted (fun r mem d mem_d => ?_) announced logged
      rcases mem_or_of_mem_modify mem_d with old | ⟨d₀, old, rfl⟩
      · exact attached r mem d old
      · exact attached r mem d₀ old
  | caller | joiner | closer =>
    cases h with
    | mk registered abreast noted attached announced logged =>
      exact .mk registered abreast noted attached announced logged

theorem interrupt (h : Eased recoveries e e') (t : TaskId) : Eased recoveries (e.interrupt t) (e'.interrupt t) := by
  unfold Engine.interrupt
  rw [h.isOver_eq]
  split
  · exact h
  · have flagged := h.flag t
    generalize e.flag t = e₁, e'.flag t = e₁' at flagged
    have waiting : e₁'.isWaiting t = e₁.isWaiting t := (congrArg (Engine.isWaiting · t) flagged.rest).trans rfl
    dsimp only
    rw [waiting]
    split
    · cases flagged with
      | mk registered abreast noted attached announced logged =>
        exact .mk registered abreast noted attached announced logged
    · exact flagged

theorem interruptAll (h : Eased recoveries e e') (ts : List TaskId) :
    Eased recoveries (e.interruptAll ts) (e'.interruptAll ts) := by
  unfold Engine.interruptAll
  induction ts generalizing e e' with
  | nil => exact h
  | cons t ts ih => exact ih (h.interrupt t)

theorem giveReason (h : Eased recoveries e e') (x : Nat) (reason : String) :
    Eased recoveries (e.giveReason x reason) (e'.giveReason x reason) :=
  h.updateCourse fun _ _ eases => ⟨eases.execution, eases.scheduled, eases.life, by rw [eases.reason]⟩

theorem setReason (h : Eased recoveries e e') (x : Nat) (reason : String) :
    Eased recoveries (e.setReason x reason) (e'.setReason x reason) :=
  h.updateCourse fun _ _ eases => ⟨eases.execution, eases.scheduled, eases.life, rfl⟩

/-- An execution changes in a way that its history has no part in, or gets the same record. -/
theorem update (h : Eased recoveries e e') {x : Nat} {f : Execution → Execution}
    (both : ∀ a, f (a.ease (textAt recoveries x)) = (f a).ease (textAt recoveries x)) :
    Eased recoveries (e.update x f) (e'.update x f) :=
  h.updateCourse fun _ _ eases => ⟨by rw [eases.execution, both], eases.scheduled, eases.life, eases.reason⟩

/-- Something is noted that is no end of a call, or the end of one that is no recovery. -/
theorem note (h : Eased recoveries e e') {n : CallNote} (same : n.ease recoveries = n) :
    Eased recoveries (e.note n) (e'.note n) := by
  cases h with
  | mk registered abreast noted attached announced logged =>
    have both : e.calls.map (·.ease recoveries) ++ [n] = (e.calls ++ [n]).map (·.ease recoveries) := by
      rw [List.map_append, List.map_singleton, same]
    unfold Engine.note
    dsimp only
    rw [both]
    exact .mk registered abreast (fun r mem => List.mem_append_left _ (noted r mem)) attached announced logged

theorem handOn {σ : Type} {R : σ → σ → Prop} {m m' : Move σ} (h : Eased recoveries e e') (t : TaskId)
    (moves : m.Eases R m') : Eased recoveries (e.handOn t m) (e'.handOn t m') := by
  cases moves with
  | go => exact h
  | yield | wait =>
    cases h with
    | mk registered abreast noted attached announced logged =>
      exact .mk registered abreast noted attached announced logged
  | stop =>
    refine wake ?_
    cases h with
    | mk registered abreast noted attached announced logged =>
      exact .mk registered abreast noted attached announced logged

end Engine.Eased

/-! ## One more recovery -/

section Recoveries

variable {recoveries : List Recovery} {x y i j : Nat} {r : Recovery}

/-- The end of a call has not been noted where none is. -/
theorem not_ended {calls : List CallNote} (silent : endingsIn calls x i = []) (result : Except Raised (Option Value)) :
    CallNote.ended x i result ∉ calls := by
  intro mem
  have ending : result ∈ endingsIn calls x i := List.mem_filterMap.mpr ⟨_, mem, by simp⟩
  rw [silent] at ending
  cases ending

/-- What has not been noted is no recovery. -/
theorem textAt_eq_none {calls : List CallNote} (silent : endingsIn calls x i = [])
    (noted : ∀ r ∈ recoveries, .ended r.execution r.index (.error (.failure r.failure)) ∈ calls) :
    textAt recoveries x i = none := by
  unfold textAt
  rw [Option.map_eq_none_iff, List.find?_eq_none]
  intro r mem here
  simp only [decide_eq_true_eq] at here
  obtain ⟨rfl, rfl⟩ := here
  exact not_ended silent _ (noted r mem)

theorem textAt_concat_self (before : textAt recoveries r.execution r.index = none) :
    textAt (recoveries ++ [r]) r.execution r.index = some r.failure.message := by
  unfold textAt at before ⊢
  rw [Option.map_eq_none_iff] at before
  rw [List.find?_append, before]
  simp

theorem textAt_concat_ne (ne : y = r.execution → j ≠ r.index) :
    textAt (recoveries ++ [r]) y j = textAt recoveries y j := by
  unfold textAt
  have other : ¬ (r.execution = y ∧ r.index = j) := by
    rintro ⟨rfl, rfl⟩
    exact ne rfl rfl
  rw [List.find?_append]
  simp [other]

/-- What is noted of the end of a call that is no recovery is the same. -/
theorem CallNote.ease_of_unmarked (unmarked : textAt recoveries x i = none) (result : Except Raised (Option Value)) :
    CallNote.ease recoveries (.ended x i result) = .ended x i result := by
  unfold ease
  dsimp only
  rw [unmarked]
  rfl

/-- The end of the call that was recovered is noted as if it had returned nothing, and what was noted before stays. -/
theorem CallNote.map_ease_concat {calls : List CallNote} (silent : endingsIn calls r.execution r.index = [])
    (before : textAt recoveries r.execution r.index = none) (result : Except Raised (Option Value)) :
    (calls ++ [CallNote.ended r.execution r.index result]).map (·.ease (recoveries ++ [r])) =
      calls.map (·.ease recoveries) ++ [.ended r.execution r.index (.ok none)] := by
  rw [List.map_append, List.map_singleton]
  congr 1
  · refine List.map_congr_left fun n mem => ?_
    cases n with
    | begun => rfl
    | ended y j other =>
      have elsewhere : y = r.execution → j ≠ r.index := by
        rintro rfl rfl
        exact not_ended silent other mem
      unfold ease
      dsimp only
      rw [textAt_concat_ne elsewhere]
  · unfold ease
    dsimp only
    rw [textAt_concat_self before]
    rfl

/-- Records are read the same if the texts of their steps are. -/
theorem Execution.ease_congr {texts texts' : Nat → Option String} {a : Execution}
    (same : ∀ r ∈ a.history, texts' r.index = texts r.index) : a.ease texts' = a.ease texts := by
  unfold ease
  congr 1
  refine List.map_congr_left fun r mem => ?_
  unfold StepRecord.ease
  rw [same r mem]

/-- The record of a step whose transition is to be adopted tells of a recovery in the first engine only. -/
theorem Stage.Eases.of_handled {texts : Nat → Option String} {output : Option Value} {status : StepStatus}
    {error : Option String} {stage' : Stage} (h : Stage.Eases texts (.handled i output status error) stage') :
    ∃ status' error', stage' = .handled i output status' error' ∧
      ∀ stepType, StepRecord.ease texts ⟨i, stepType, status, error⟩ = ⟨i, stepType, status', error'⟩ := by
  cases h with
  | same plain =>
    refine ⟨status, error, rfl, fun stepType => ?_⟩
    unfold StepRecord.ease
    refine if_neg ?_
    rintro ⟨rfl, some, eq⟩
    obtain rfl : error = none := eq.trans (plain i output error rfl)
    cases some
  | handled given =>
    refine ⟨.succeeded, none, rfl, fun stepType => ?_⟩
    unfold StepRecord.ease
    rw [if_pos ⟨rfl, rfl, given.symm⟩]

/-- The executions are the same but for one more recovery if the call that was recovered has just been made. -/
theorem Abreast.concat {courses courses' : List Course} {c : Course} {handler : Handler} {script : Script}
    {interrupted : Bool} (h : Abreast recoveries courses courses') (at_x : courses[r.execution]? = some c)
    (life : c.life = .live (.calling r.index handler script) interrupted)
    (ahead : ∀ record ∈ c.execution.history, record.index ≠ r.index) : Abreast (recoveries ++ [r]) courses courses' where
  length_eq := h.length_eq
  each y d d' at_y at_y' := by
    have eases := h.each y d d' at_y at_y'
    by_cases other : y = r.execution
    · subst other
      obtain rfl : c = d := Option.some.inj (at_x.symm.trans at_y)
      refine ⟨?_, eases.scheduled, ?_, eases.reason⟩
      · rw [eases.execution]
        exact (Execution.ease_congr fun record mem => textAt_concat_ne fun _ => ahead record mem).symm
      · have lives := eases.life
        rw [life] at lives ⊢
        revert lives
        generalize d'.life = after
        intro lives
        cases lives with
        | live _ stages =>
          refine .live interrupted ?_
          cases stages with
          | same => exact .same fun _ _ _ eq => by cases eq
          | calling handlers scripts swallow => exact .calling handlers scripts swallow
    · have same : textAt (recoveries ++ [r]) y = textAt recoveries y :=
        funext fun j => textAt_concat_ne fun eq => absurd eq other
      rw [same]
      exact eases

end Recoveries

namespace Engine.Eased

variable {recoveries : List Recovery} {e e' : Engine} {x index : Nat} {a : Execution}

/-- **One more recovery**: in the first engine the call for a step raised and was recovered, in the second it returned
nothing. -/
theorem recover {c : Course} {handler : Handler} {script : Script} {interrupted : Bool} {r : Recovery}
    (h : Eased recoveries e e') (at_x : e.courses[r.execution]? = some c)
    (life : c.life = .live (.calling r.index handler script) interrupted)
    (ahead : ∀ record ∈ c.execution.history, record.index ≠ r.index) (silent : endingsIn e.calls r.execution r.index = [])
    (apart : ∀ d ∈ e.deliveries, d.execution = r.execution → d.index ≠ r.index) :
    Eased (recoveries ++ [r])
      { e with
        calls := e.calls ++ [.ended r.execution r.index (.error (.failure r.failure))]
        events := e.events ++ if e.bus.isSome then [r.event] else []
        log := e.log ++ [r.entry] }
      (e'.note (.ended r.execution r.index (.ok none))) := by
  cases h with
  | mk registered abreast noted attached announced logged =>
    have calls := CallNote.map_ease_concat silent (textAt_eq_none silent noted) (.error (.failure r.failure))
    unfold Engine.note
    dsimp only
    rw [← calls]
    -- the new recovery is the last one; the old ones keep what was said of them
    refine .mk registered (abreast.concat at_x life ahead) ?_ ?_ ?_ ?_
    · intro s mem
      rcases List.mem_append.mp mem with old | new
      · exact List.mem_append_left _ (noted s old)
      · obtain rfl := List.mem_singleton.mp new
        exact List.mem_append_right _ (List.mem_singleton.mpr rfl)
    · intro s mem
      rcases List.mem_append.mp mem with old | new
      · exact attached s old
      · obtain rfl := List.mem_singleton.mp new
        exact apart
    · dsimp only
      cases bus : e.bus with
      | none => simpa [bus] using announced
      | some react =>
        rw [bus] at announced
        simpa using announced.shed r.event
    · rw [List.map_append, List.map_singleton]
      exact logged.shed r.entry

end Engine.Eased

end Stepflow
