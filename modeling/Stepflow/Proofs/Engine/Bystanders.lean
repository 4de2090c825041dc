import Stepflow.Proofs.Engine.Happens

/-!
# Stepflow.Proofs.Engine.Bystanders — what an act leaves alone

* `Disturbs`: the acts that cancel an execution or may do so.  `Happens.alone`: any other act changes an execution by a
  move of its own task only.
* `Happens.registry_eq`: the bindings stay unless the host changes them.
* `Spares`: an execution stays as it is, and so does the reason of its cancellation if it has one.  `Happens.spares`: every
  act does so unless the task of the execution moves or the host cancels it.
* `Leaves`: the caller of a shutdown stays where it is, and waits on for what it waits for, or it is canceled.
  `Happens.leaves`: so it is left by every act in which it does not have the processor, and if its wait is over then all
  tasks that it waited for are.
-/

namespace Stepflow.Engine

/-! ## One execution and what is done to others -/

section Others

variable (e : Engine) {x y : Nat}

theorem updateCourse_ne (ne : y ≠ x) (f : Course → Course) : (e.updateCourse y f).courses[x]? = e.courses[x]? :=
  List.getElem?_modify_ne _ _ ne

theorem interrupt_ne {t : TaskId} (ne : t ≠ .course x) : (e.interrupt t).courses[x]? = e.courses[x]? := by
  have flagged : (e.flag t).courses[x]? = e.courses[x]? := by
    cases t with
    | course y =>
      have ne' : y ≠ x := fun eq => ne (by rw [eq])
      exact updateCourse_ne e ne' _
    | delivery | caller | joiner | closer => rfl
  unfold interrupt
  split
  · rfl
  · dsimp only
    split
    · exact flagged
    · exact flagged

theorem sendCancel_ne (ne : y ≠ x) (c : Course) (reason : String) :
    (e.sendCancel y c reason).courses[x]? = e.courses[x]? := by
  unfold sendCancel
  split
  · rfl
  · have sent : TaskId.course y ≠ .course x := fun eq => ne (by injection eq)
    rw [interrupt_ne _ sent]
    exact updateCourse_ne e ne _

theorem markCanceled_ne (ne : y ≠ x) (execution : Execution) (reason : String) :
    (e.markCanceled y execution reason).1.courses[x]? = e.courses[x]? := by
  unfold markCanceled update
  dsimp only
  split
  · unfold announce
    split <;> simp [updateCourse, report, ne]
  · exact updateCourse_ne e ne _
  · exact updateCourse_ne e ne _

/-- An act that cancels execution number `x`, or may do so: the host cancels it or a caller of `join`, the canceled caller
of `run` that waits for it has its turn, or a shutdown times out. -/
inductive Disturbs (e : Engine) (x : Nat) : Act → Prop
  | canceled {id reason : String} : Disturbs e x (.host (.cancel (some x) id reason))
  | abandoned {place k : Nat} {c : Caller} (current : e.current = some (.caller k)) (at_k : e.callers[k]? = some c)
      (life : c.life = .live (.awaiting x) true) : Disturbs e x (.turn place)
  | unjoined {k : Nat} : Disturbs e x (.host (.cancelJoin k))
  | timedOut {place k : Nat} {deadline : Rat} (current : e.current = some (.closer k))
      (life : e.closers[k]? = some (.live (.flushing deadline) false)) (late : deadline ≤ e.clock)
      (pending : e.pending ≠ []) : Disturbs e x (.turn place)

theorem submit_getElem? {x : Nat} (hx : x < e.courses.length) (a : Execution) :
    (e.submit a).courses[x]? = e.courses[x]? :=
  List.getElem?_append_left hx

variable {e} {e' : Engine} {c : Course}

theorem undergo_alone {deed : Deed} (undisturbed : ¬ e.Disturbs x (.host deed)) (hx : x < e.courses.length) :
    (e.undergo deed).courses[x]? = e.courses[x]? := by
  cases deed with
  | start workflow initial =>
    dsimp only [undergo, start]
    cases State.freeze initial with
    | error f => rfl
    | ok state => exact submit_getElem? e hx _
  | cancel z id reason =>
    obtain eq | ⟨y, c, rfl, -, eq | eq⟩ := cancel_cases e z id reason
    · simp only [undergo, eq]
    all_goals
      have ne : y ≠ x := by
        rintro rfl
        exact undisturbed .canceled
      simp only [undergo, eq]
    · exact sendCancel_ne e ne c reason
    · exact (markCanceled_ne _ ne _ _).trans (sendCancel_ne e ne c reason)
  | cancelRun k => exact interrupt_ne e (by simp)
  | cancelJoin k => exact absurd .unjoined undisturbed
  | register stepType offered =>
    dsimp only [undergo, register]
    split <;> rfl
  | pass time =>
    dsimp only [undergo]
    split <;> rfl
  | run | join | shutdown | release | releaseBus | unregister => rfl

/-- **An execution that is not disturbed** is changed by moves of its own task only. -/
theorem Happens.alone {a : Act} (h : Happens e a e') (undisturbed : ¬ e.Disturbs x a) (hx : e.courses[x]? = some c) :
    e'.courses[x]? = some c ∨
      ∃ eff, e.current = some (.course x) ∧ Moved e x c eff ∧ e'.courses[x]? = some (eff.course c) := by
  have lt := (List.getElem?_eq_some_iff.mp hx).1
  have left : e'.courses[x]? = e.courses[x]? → e'.courses[x]? = some c := fun eq => eq.trans hx
  cases h with
  | still | chosen | vacant => exact .inl hx
  | @course place y d eff journal log current at_y moved =>
    rw [handOn_courses]
    simp only [realize]
    rw [List.getElem?_append_left (by simpa using lt)]
    by_cases hxy : y = x
    · subst hxy
      obtain rfl : d = c := by simpa [at_y] using hx
      exact .inr ⟨eff, current, moved, set_getElem? at_y⟩
    · rw [List.getElem?_set_ne hxy]
      exact .inl hx
  | delivery =>
    rw [handOn_courses]
    exact .inl hx
  | @caller place k d stage =>
    refine .inl (left ?_)
    refine (congrArg (·[x]?) (handOn_courses _ _ _)).trans ?_
    cases stage with
    | entering workflow initial =>
      dsimp only [moveCaller]
      cases State.freeze initial with
      | error f => rfl
      | ok state => exact submit_getElem? e lt _
    | awaiting | surrendering => rfl
  | @callerCanceled place k d stage current at_k life =>
    refine .inl (left ?_)
    refine (congrArg (·[x]?) (handOn_courses _ _ _)).trans ?_
    cases stage with
    | awaiting y =>
      -- a caller that is canceled sends the signal on to the execution it waits for, which is another one
      have ne : y ≠ x := by
        rintro rfl
        exact undisturbed (.abandoned current at_k life)
      dsimp only [cancelCaller]
      split
      · rfl
      · have sent : TaskId.course y ≠ .course x := fun eq => ne (by injection eq)
        exact (interrupt_ne _ sent).trans (updateCourse_ne e ne _)
    | entering | surrendering => rfl
  | @joiner place k stage =>
    refine .inl (left ?_)
    refine (congrArg (·[x]?) (handOn_courses _ _ _)).trans ?_
    cases stage with
    | watching =>
      dsimp only [moveJoiner]
      split <;> rfl
  | joinerCanceled | closerCanceled => exact .inl (left (congrArg (·[x]?) (handOn_courses _ _ _)))
  | @closer place k stage current life =>
    refine .inl (left ?_)
    refine (congrArg (·[x]?) (handOn_courses _ _ _)).trans ?_
    cases stage with
    | flushing deadline =>
      dsimp only [moveCloser]
      split
      · rfl
      · rename_i pending
        split
        · rename_i late
          -- only a sweep reaches the execution, and a sweep disturbs
          exact absurd (.timedOut current life late (by simpa using pending)) undisturbed
        · rfl
    | sweeping => rfl
  | host => exact .inl (left (undergo_alone undisturbed lt))

end Others

/-! ## The bindings -/

section Bindings

variable {e e' : Engine}

theorem registry_nudging : Nudging fun e e' => e'.registry = e.registry where
  refl _ := rfl
  trans h h' := h'.trans h
  report _ _ _ := rfl
  give _ _ _ := rfl
  send e t := by
    have flagged : (e.flag t).registry = e.registry := by cases t <;> rfl
    unfold interrupt
    split
    · rfl
    · dsimp only
      split <;> exact flagged
  flag _ _ := rfl

theorem undergo_registry (e : Engine) {deed : Deed} (kept : ¬ (Act.host deed).Rebinds) :
    (e.undergo deed).registry = e.registry := by
  cases deed with
  | start workflow initial =>
    dsimp only [undergo, start]
    cases State.freeze initial <;> rfl
  | cancel x id reason =>
    have sent : ∀ y c, (e.sendCancel y c reason).registry = e.registry := by
      intro y c
      unfold sendCancel
      split
      · rfl
      · exact registry_nudging.send _ _
    have marked : ∀ (e : Engine) y execution, (e.markCanceled y execution reason).1.registry = e.registry := by
      intro e y execution
      unfold markCanceled
      dsimp only
      split
      · unfold announce
        split <;> rfl
      · rfl
      · rfl
    obtain eq | ⟨y, c, -, -, eq | eq⟩ := cancel_cases e x id reason <;> simp only [undergo, eq]
    · exact sent y c
    · exact (marked _ _ _).trans (sent y c)
  | cancelRun k => exact registry_nudging.send e _
  | cancelJoin k => exact registry_nudging.cancelJoin e k
  | register | unregister => exact absurd trivial kept
  | pass time =>
    dsimp only [undergo]
    split <;> rfl
  | run | join | shutdown | release | releaseBus => rfl

/-- What is bound to step types stays bound unless the host changes it. -/
theorem Happens.registry_eq {a : Act} (h : Happens e a e') (kept : ¬ a.Rebinds) : e'.registry = e.registry := by
  cases h with
  | still | chosen | vacant => rfl
  | course | delivery | joinerCanceled | closerCanceled => exact handOn_registry _ _ _
  | @caller place k c stage =>
    refine (handOn_registry _ _ _).trans ?_
    cases stage with
    | entering workflow initial =>
      dsimp only [moveCaller]
      cases State.freeze initial <;> rfl
    | awaiting | surrendering => rfl
  | callerCanceled => exact (handOn_registry _ _ _).trans (registry_nudging.cancelCaller e _)
  | joiner => exact (handOn_registry _ _ _).trans (registry_nudging.moveJoiner e _)
  | closer => exact (handOn_registry _ _ _).trans (registry_nudging.moveCloser e _)
  | host => exact undergo_registry e kept

end Bindings

/-! ## Executions -/

/-- From `e` to `e'` execution number `x` stays as it is, and so does the reason of its cancellation if it has one. -/
def Spares (x : Nat) (e e' : Engine) : Prop :=
  ∀ c, e.courses[x]? = some c → ∃ c', e'.courses[x]? = some c' ∧ c'.execution = c.execution ∧
    ∀ r, c.reason = some r → c'.reason = some r

section Spares

variable {e e' : Engine} {x : Nat}

theorem Spares.of_eq (at_x : e'.courses[x]? = e.courses[x]?) : Spares x e e' :=
  fun c hx => ⟨c, at_x.trans hx, rfl, fun _ => id⟩

theorem Spares.trans {e'' : Engine} (h : Spares x e e') (h' : Spares x e' e'') : Spares x e e'' := by
  intro c hx
  obtain ⟨c', hx', execution, reason⟩ := h c hx
  obtain ⟨c'', hx'', execution', reason'⟩ := h' c' hx'
  exact ⟨c'', hx'', execution'.trans execution, fun r hr => reason' r (reason r hr)⟩

theorem Spares.congr {e'' : Engine} (h : Spares x e e') (courses : e''.courses = e'.courses) : Spares x e e'' :=
  h.trans (.of_eq (by rw [courses]))

theorem Spares.append {more : List Course} (courses : e'.courses = e.courses ++ more) : Spares x e e' := by
  intro c hx
  have lt := (List.getElem?_eq_some_iff.mp hx).1
  exact ⟨c, by rw [courses, List.getElem?_append_left lt]; exact hx, rfl, fun _ => id⟩

theorem updateCourse_spares (e : Engine) (y : Nat) (f : Course → Course)
    (hf : y = x → ∀ c, (f c).execution = c.execution ∧ ∀ r, c.reason = some r → (f c).reason = some r) :
    Spares x e (e.updateCourse y f) := by
  by_cases hxy : y = x
  · subst hxy
    intro c hx
    exact ⟨f c, by simp [updateCourse, hx], (hf rfl c).1, (hf rfl c).2⟩
  · exact .of_eq (by simp [updateCourse, hxy])

theorem interrupt_spares (e : Engine) (t : TaskId) : Spares x e (e.interrupt t) := by
  have flagged : Spares x e (e.flag t) := by
    cases t with
    | course y => exact updateCourse_spares e y _ fun _ _ => ⟨rfl, fun _ => id⟩
    | delivery | caller | joiner | closer => exact .of_eq rfl
  unfold interrupt
  split
  · exact .of_eq rfl
  · dsimp only
    split
    · exact flagged.trans (.of_eq rfl)
    · exact flagged

theorem spares_nudging (x : Nat) : Nudging (Spares x) where
  refl _ := .of_eq rfl
  trans := .trans
  report _ _ _ := .of_eq rfl
  give e y _ := updateCourse_spares e y _ fun _ c => ⟨rfl, fun r hr => by simp [hr]⟩
  send := interrupt_spares
  flag _ _ := .of_eq rfl

theorem undergo_spares (e : Engine) (deed : Deed) (spared : ∀ id reason, deed ≠ .cancel (some x) id reason) :
    Spares x e (e.undergo deed) := by
  by_cases disturbed : e.Disturbs x (.host deed)
  · cases disturbed with
    | canceled => exact absurd rfl (spared _ _)
    | @unjoined k => exact (spares_nudging x).cancelJoin e k
  · intro c hx
    have lt := (List.getElem?_eq_some_iff.mp hx).1
    exact Spares.of_eq (undergo_alone disturbed lt) c hx

/-- An execution is spared by what neither moves its task nor cancels it by order of the host. -/
theorem Happens.spares {a : Act} (h : Happens e a e') (spared : ∀ id reason, a ≠ .host (.cancel (some x) id reason))
    (away : ∀ c, e.current = some (.course x) → e.courses[x]? = some c → c.life.isOver = true) : Spares x e e' := by
  have nudging := spares_nudging x
  cases h with
  | still | chosen | vacant => exact .of_eq rfl
  | @course place y c eff journal log current at_y moved =>
    have ne : y ≠ x := by
      rintro rfl
      have stopped := away c current at_y
      cases moved with
      | advanced life | diverted life => simp [life, Life.isOver] at stopped
    have set : Spares x e { e with courses := e.courses.set y (eff.course c) } := .of_eq (by simp [ne])
    have realized : Spares x e (e.realize y (eff.course c) eff journal log) := set.trans (.append rfl)
    exact realized.congr (handOn_courses _ _ _)
  | delivery => exact .of_eq (congrArg (·[x]?) (handOn_courses _ _ _))
  | @caller place k c stage =>
    refine Spares.congr ?_ (handOn_courses _ _ _)
    cases stage with
    | entering workflow initial =>
      dsimp only [moveCaller]
      cases State.freeze initial with
      | error f => exact .of_eq rfl
      | ok state => exact .append rfl
    | awaiting | surrendering => exact .of_eq rfl
  | callerCanceled => exact (nudging.cancelCaller e _).congr (handOn_courses _ _ _)
  | joiner => exact (nudging.moveJoiner e _).congr (handOn_courses _ _ _)
  | joinerCanceled | closerCanceled => exact .of_eq (congrArg (·[x]?) (handOn_courses _ _ _))
  | closer => exact (nudging.moveCloser e _).congr (handOn_courses _ _ _)
  | host => exact undergo_spares e _ fun id reason eq => spared id reason (by rw [eq])

end Spares

/-! ## Shutdowns -/

/-- The caller of shutdown number `k` has been canceled. -/
def Lost (e : Engine) (k : Nat) : Prop :=
  (∃ stage, e.closers[k]? = some (.live stage true)) ∨ e.closers[k]? = some (.over .canceled)

/-- From `e` to `e'` shutdown number `k` stays where it is and waits on, unless its caller is canceled. -/
structure Leaves (k : Nat) (e e' : Engine) : Prop where
  lost : e.Lost k → e'.Lost k
  closer : ∀ stage, e.closers[k]? = some (.live stage false) → e'.closers[k]? = some (.live stage false) ∨ e'.Lost k
  waits : ∀ w, (TaskId.closer k, w) ∈ e.waits → (TaskId.closer k, w) ∈ e'.waits ∨ e'.Lost k

/-- The same where tasks may wake: a wait that is gone was for tasks that are over now. -/
structure Attends (k : Nat) (e e' : Engine) : Prop where
  lost : e.Lost k → e'.Lost k
  closer : ∀ stage, e.closers[k]? = some (.live stage false) → e'.closers[k]? = some (.live stage false) ∨ e'.Lost k
  waits : ∀ ids, (TaskId.closer k, Wait.tasks ids none) ∈ e.waits →
    (TaskId.closer k, Wait.tasks ids none) ∈ e'.waits ∨ e'.Lost k ∨ ∀ t ∈ ids, e'.isOver t = true

section Leaves

variable {e e' e'' : Engine} {k : Nat}

theorem Lost.congr (closers : e'.closers[k]? = e.closers[k]?) (h : e.Lost k) : e'.Lost k := by
  unfold Lost
  rw [closers]
  exact h

theorem Leaves.of_eq (closers : e'.closers[k]? = e.closers[k]?)
    (waits : ∀ w, (TaskId.closer k, w) ∈ e.waits → (TaskId.closer k, w) ∈ e'.waits) : Leaves k e e' :=
  ⟨.congr closers, fun _ hk => .inl (closers.trans hk), fun w hw => .inl (waits w hw)⟩

theorem Leaves.trans (h : Leaves k e e') (h' : Leaves k e' e'') : Leaves k e e'' where
  lost lost := h'.lost (h.lost lost)
  closer _ hk := by
    rcases h.closer _ hk with hk' | lost
    · exact h'.closer _ hk'
    · exact .inr (h'.lost lost)
  waits w hw := by
    rcases h.waits w hw with hw' | lost
    · exact h'.waits w hw'
    · exact .inr (h'.lost lost)

theorem Leaves.congr (h : Leaves k e e') (closers : e''.closers[k]? = e'.closers[k]?) (waits : e''.waits = e'.waits) :
    Leaves k e e'' :=
  h.trans (.of_eq closers fun w hw => by rw [waits]; exact hw)

theorem Leaves.attends (h : Leaves k e e') : Attends k e e' :=
  ⟨h.lost, h.closer, fun _ hw => (h.waits _ hw).imp id .inl⟩

theorem interrupt_leaves (e : Engine) (t : TaskId) : Leaves k e (e.interrupt t) := by
  by_cases ht : t = .closer k
  · subst ht
    cases stopped : e.isOver (.closer k) with
    | true => exact .of_eq (by simp [interrupt, stopped]) (by simp [interrupt, stopped])
    | false =>
      have lost : (e.interrupt (.closer k)).Lost k := by
        cases hk : e.closers[k]? with
        | none => simp [isOver, hk] at stopped
        | some life =>
          cases life with
          | ended ending => simp [isOver, hk, Life.isOver] at stopped
          | live stage interrupted =>
            refine .inl ⟨stage, ?_⟩
            simp only [interrupt, stopped, Bool.false_eq_true, if_false]
            split <;> simp [flag, hk, Life.interrupt]
      exact ⟨fun _ => lost, fun _ _ => .inr lost, fun _ _ => .inr lost⟩
  · have closers : (e.flag t).closers[k]? = e.closers[k]? := by
      cases t with
      | closer j =>
        have ne : j ≠ k := fun eq => ht (by rw [eq])
        simp [flag, ne]
      | course | delivery | caller | joiner => rfl
    have waits : (e.flag t).waits = e.waits := by cases t <;> rfl
    unfold interrupt
    split
    · exact .of_eq rfl fun _ => id
    · dsimp only
      split
      · refine .of_eq closers fun w hw => List.mem_filter.mpr ⟨by rw [waits]; exact hw, ?_⟩
        simpa using fun eq => ht eq.symm
      · exact .of_eq closers fun w hw => by rw [waits]; exact hw

theorem leaves_nudging (k : Nat) : Nudging (Leaves k) where
  refl _ := .of_eq rfl fun _ => id
  trans := .trans
  report _ _ _ := .of_eq rfl fun _ => id
  give _ _ _ := .of_eq rfl fun _ => id
  send := interrupt_leaves
  flag _ _ := .of_eq rfl fun _ => id

/-- Of those who are woken none waits for a task that is live. -/
theorem Leaves.wake (h : Leaves k e e') : Attends k e e'.wake where
  lost := h.lost
  closer := h.closer
  waits ids hw := by
    rcases h.waits (.tasks ids none) hw with hw' | lost
    · by_cases due : e'.isDue (.tasks ids none) = true
      · refine .inr (.inr fun t ht => ?_)
        have stopped := List.all_eq_true.mp (by simpa [isDue] using due) t ht
        cases t <;> exact stopped
      · exact .inl (List.mem_filter.mpr ⟨hw', by simpa using due⟩)
    · exact .inr (.inl lost)

theorem Leaves.handOn {σ : Type} (h : Leaves k e e') (t : TaskId) (m : Move σ) : Attends k e (e'.handOn t m) := by
  have gone : Leaves k e { e' with current := none } := h.congr rfl rfl
  cases m with
  | go => exact h.attends
  | yield stage =>
    have queued : Leaves k e { e' with current := none, ready := e'.ready ++ [t] } := h.congr rfl rfl
    exact queued.attends
  | wait stage on =>
    have waiting : Leaves k e' { e' with current := none, waits := e'.waits ++ [(t, on)] } :=
      .of_eq rfl fun w hw => List.mem_append_left _ hw
    exact (h.trans waiting).attends
  | stop => exact gone.wake

theorem markCanceled_leaves (e : Engine) (x : Nat) (execution : Execution) (reason : String) :
    Leaves k e (e.markCanceled x execution reason).1 := by
  unfold markCanceled
  dsimp only
  split
  · unfold announce
    split <;> exact .of_eq rfl fun _ => id
  · exact .of_eq rfl fun _ => id
  · exact .of_eq rfl fun _ => id

theorem sendCancel_leaves (e : Engine) (x : Nat) (c : Course) (reason : String) :
    Leaves k e (e.sendCancel x c reason) := by
  unfold sendCancel
  split
  · exact .of_eq rfl fun _ => id
  · have given : Leaves k e (e.setReason x reason) := .of_eq rfl fun _ => id
    exact given.trans (interrupt_leaves _ _)

theorem undergo_attends (e : Engine) (deed : Deed) : Attends k e (e.undergo deed) := by
  have same : Leaves k e e := .of_eq rfl fun _ => id
  cases deed with
  | start workflow initial =>
    dsimp only [undergo, start]
    cases State.freeze initial <;> exact Leaves.attends (.of_eq rfl fun _ => id)
  | shutdown timeout =>
    have added : ∀ life, e.closers[k]? = some life → (e.beginShutdown timeout).closers[k]? = some life := by
      intro life hk
      simp only [beginShutdown]
      rw [List.getElem?_append_left (List.getElem?_eq_some_iff.mp hk).1]
      exact hk
    refine ⟨?_, fun stage hk => .inl (added _ hk), fun ids hw => .inl hw⟩
    rintro (⟨stage, hk⟩ | hk)
    · exact .inl ⟨stage, added _ hk⟩
    · exact .inr (added _ hk)
  | cancel x id reason =>
    obtain eq | ⟨y, c, -, -, eq | eq⟩ := cancel_cases e x id reason <;> simp only [undergo, eq]
    · exact same.attends
    · exact (sendCancel_leaves e y c reason).attends
    · exact ((sendCancel_leaves e y c reason).trans (markCanceled_leaves _ _ _ _)).attends
  | cancelRun j => exact (interrupt_leaves e _).attends
  | cancelJoin j => exact ((leaves_nudging k).cancelJoin e j).attends
  | release slot =>
    have opened : Leaves k e { e with openGates := slot :: e.openGates } := .of_eq rfl fun _ => id
    exact opened.wake
  | releaseBus =>
    have opened : Leaves k e { e with busOpen := true } := .of_eq rfl fun _ => id
    exact opened.wake
  | register stepType offered =>
    dsimp only [undergo, register]
    split <;> exact Leaves.attends (.of_eq rfl fun _ => id)
  | pass time =>
    dsimp only [undergo]
    split
    · have later : Leaves k e { e with clock := time } := .of_eq rfl fun _ => id
      exact later.wake
    · exact same.attends
  | run | join | unregister => exact Leaves.attends (.of_eq rfl fun _ => id)

/-- The caller of a shutdown that does not have the processor is left where it is. -/
theorem Happens.attends {a : Act} (h : Happens e a e') (away : e.current ≠ some (.closer k)) : Attends k e e' := by
  have nudging := leaves_nudging k
  have same : Leaves k e e := .of_eq rfl fun _ => id
  cases h with
  | still => exact same.attends
  | chosen | vacant => exact Leaves.attends (.of_eq rfl fun _ => id)
  | course | delivery => exact Leaves.handOn (by exact same.congr rfl rfl) _ _
  | @caller place j c stage =>
    have moved : Leaves k e (e.moveCaller j stage).1 := by
      cases stage with
      | entering workflow initial =>
        dsimp only [moveCaller]
        cases State.freeze initial <;> exact .of_eq rfl fun _ => id
      | awaiting | surrendering => exact same
    exact Leaves.handOn (by exact moved.congr rfl rfl) _ _
  | callerCanceled => exact Leaves.handOn (by exact (nudging.cancelCaller e _).congr rfl rfl) _ _
  | joiner => exact Leaves.handOn (by exact (nudging.moveJoiner e _).congr rfl rfl) _ _
  | joinerCanceled => exact Leaves.handOn (by exact same.congr rfl rfl) _ _
  | @closer place j stage current =>
    have ne : j ≠ k := fun eq => away (by rw [current, eq])
    exact Leaves.handOn (by exact (nudging.moveCloser e stage).congr (List.getElem?_modify_ne _ _ ne) rfl) _ _
  | @closerCanceled place j stage current =>
    have ne : j ≠ k := fun eq => away (by rw [current, eq])
    exact Leaves.handOn (by exact same.congr (List.getElem?_modify_ne _ _ ne) rfl) _ _
  | host => exact undergo_attends e _

end Leaves

end Stepflow.Engine
