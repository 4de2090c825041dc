import Stepflow.Proofs.Engine.Ahead
import Stepflow.Proofs.Engine.Threading

/-!
# Stepflow.Proofs.Engine.Cancellation — a cancellation cannot be masked

* `Cancels`: an execution is canceled by the host, or by the caller of `run` that waits for it.
* `Doomed`: where an execution can be once it is canceled.  The reason of the cancellation stays until the task ends, so
  whatever a resolver in a call makes of the cancellation, no transition is adopted any more.  `Doomed.moved` and
  `Doomed.touched` keep it, `Doomed.of_signal` and `Doomed.of_mark` are its beginnings.
* `Halting`: a canceled execution and what is around it; `Halting.step` takes it along a run.
* `halted_of_cancels`: what this comes to for calls, state, children, history and the end of the execution.
-/

namespace Stepflow

/-! ## Canceled executions -/

/-- A call for a step of an execution is noted to have ended with a failure. -/
def RaisedIn (calls : List CallNote) (x index : Nat) : Prop :=
  ∃ f, CallNote.ended x index (.error (.failure f)) ∈ calls

/-- The policy of the resolver in a call for which the execution waits. -/
def Course.heldPolicy (c : Course) : Option Policy :=
  match c.life with
  | .live (.holding _ handler _ _) _ => some handler.resolver.policy
  | _ => none

/-- Where an execution can be that a cancellation found as `a`.  `policy` is that of the resolver that was in a call
then, if one was; `raised` tells that this call has ended with a failure since.  The reason that is told in the end is
one that `R` admits. -/
inductive Doomed (R : String → Prop) (a : Execution) (policy : Option Policy) (raised : Prop) (c : Course) : Prop
  | stillborn {now : Rat} {names : List String} {reason : String} (life : c.life = .live .opening true)
      (unheld : policy = none) (eq : c.execution = a.canceledFor now names reason) (told : R reason)
  | holding {handler : Handler} {next canceled : Script} {interrupted : Bool}
      (life : c.life = .live (.holding a.history.length handler next canceled) interrupted)
      (held : policy = some handler.resolver.policy) (quiet : ¬ raised) (eq : c.execution = a)
      (running : a.status = .running) (reason : c.reason.isSome = true)
      (told : R (givenReason c.reason))
  | calling {handler : Handler} {script : Script}
      (life : c.life = .live (.calling a.history.length handler script) false)
      (held : policy = some handler.resolver.policy) (quiet : ¬ raised) (eq : c.execution = a)
      (running : a.status = .running) (reason : c.reason.isSome = true)
      (told : R (givenReason c.reason))
  | handled {output : Option Value} {status : StepStatus} {error : Option String} {interrupted : Bool}
      (life : c.life = .live (.handled a.history.length output status error) interrupted)
      (harmless : raised → policy ≠ some .propagate) (eq : c.execution = a)
      (running : a.status = .running) (reason : c.reason.isSome = true)
      (told : R (givenReason c.reason))
  | canceling (life : c.life = .live .canceling false) (harmless : raised → policy ≠ some .propagate)
      (eq : c.execution = a) (running : a.status = .running) (told : R (givenReason c.reason))
  | leaving {passOn : Bool} {now : Rat} {names : List String} {reason : String}
      (life : c.life = .live (.leaving passOn) false) (harmless : raised → policy ≠ some .propagate)
      (eq : c.execution = a.canceledFor now names reason) (told : R reason)
  | failing {now : Rat} {names : List String} {step : Step} {message : String} {cause : Failure}
      (life : c.life = .live .closing false) (harmful : raised ∧ policy = some .propagate)
      (eq : c.execution = a.failedAt now names a.history.length step message cause)
  | canceled {ending : Ending} {now : Rat} {names : List String} {reason : String} (life : c.life = .over ending)
      (harmless : raised → policy ≠ some .propagate) (eq : c.execution = a.canceledFor now names reason) (told : R reason)
  | failed {ending : Ending} {now : Rat} {names : List String} {step : Step} {message : String} {cause : Failure}
      (life : c.life = .over ending) (harmful : raised ∧ policy = some .propagate)
      (eq : c.execution = a.failedAt now names a.history.length step message cause)

section Doomed

variable {R : String → Prop} {a : Execution} {policy : Option Policy} {raised raised' : Prop} {e : Engine} {x : Nat}
  {c c' : Course} {eff : Effect} {calls : List CallNote}

theorem raisedIn_append {more : List CallNote} {index : Nat} :
    RaisedIn (calls ++ more) x index ↔ RaisedIn calls x index ∨ RaisedIn more x index := by
  simp [RaisedIn, exists_or]

/-- If no resolver was in a call, what calls end with is of no concern. -/
theorem Doomed.unheld (h : Doomed R a none raised c) : Doomed R a none raised' c := by
  cases h with
  | stillborn life unheld eq told => exact .stillborn life unheld eq told
  | holding _ held => simp at held
  | calling _ held => simp at held
  | handled life _ eq running reason told => exact .handled life (by simp) eq running reason told
  | canceling life _ eq running told => exact .canceling life (by simp) eq running told
  | leaving life _ eq told => exact .leaving life (by simp) eq told
  | failing _ harmful => simp at harmful
  | canceled life _ eq told => exact .canceled life (by simp) eq told
  | failed _ harmful => simp at harmful

/-- **A canceled execution stays canceled** in every move of its task. -/
theorem Doomed.moved (h : Doomed R a policy (RaisedIn calls x a.history.length) c) (moved : Moved e x c eff) :
    Doomed R a policy (RaisedIn (calls ++ eff.notes) x a.history.length) (eff.course c) := by
  -- where a call ends with anything but a failure, or nothing is noted, the task goes on as harmless as it was
  have harmless_of_quiet : ¬ RaisedIn calls x a.history.length → ¬ RaisedIn eff.notes x a.history.length →
      RaisedIn (calls ++ eff.notes) x a.history.length → policy ≠ some .propagate :=
    fun quiet silent raised => absurd raised (by rw [raisedIn_append]; exact not_or.mpr ⟨quiet, silent⟩)
  cases h with
  | stillborn life unheld eq told =>
    cases moved with
    | advanced life' => simp [life] at life'
    | diverted life' =>
      rw [life] at life'
      cases life'
      exact .canceled rfl (by simp [unheld]) eq told
  | holding life held quiet eq running reason told =>
    cases moved with
    | advanced life' advance =>
      rw [life] at life'
      cases life'
      cases advance with
      | resumed => exact .calling rfl held (by rw [List.append_nil]; exact quiet) eq running reason told
    | diverted life' =>
      rw [life] at life'
      cases life'
      exact .calling rfl held (by rw [List.append_nil]; exact quiet) eq running reason told
  | calling life held quiet eq running reason told =>
    cases moved with
    | diverted life' => simp [life] at life'
    | advanced life' advance =>
      rw [life] at life'
      cases life'
      cases advance with
      | remarked | passed => exact .calling rfl held (by rw [List.append_nil]; exact quiet) eq running reason told
      | slept | gaveWay | barred =>
        exact .holding rfl held (by rw [List.append_nil]; exact quiet) eq running reason told
      | answered =>
        exact .handled rfl (harmless_of_quiet quiet (by simp [RaisedIn])) eq running reason told
      | yielded => exact .canceling rfl (harmless_of_quiet quiet (by simp [RaisedIn])) eq running told
      | unresolved names_eq at_step propagate =>
        refine .failing rfl ⟨raisedIn_append.mpr (.inr ⟨_, List.mem_singleton.mpr rfl⟩), held.trans (by rw [propagate])⟩
          (congrArg (fun b : Execution => b.failedAt _ _ _ _ _ _) eq)
      | recovered at_step swallow =>
        exact .handled rfl (fun _ => by simp [held, swallow]) eq running reason told
  | handled life harmless eq running reason told =>
    cases moved with
    | diverted life' =>
      rw [life] at life'
      cases life'
      exact .canceling rfl (by rw [List.append_nil]; exact harmless) eq running told
    | advanced life' advance =>
      rw [life] at life'
      cases life'
      cases advance with
      -- the pending reason is looked at before the answer is adopted
      | preempted => exact .canceling rfl (by rw [List.append_nil]; exact harmless) eq running told
      | abandoned no_reason | unprocessed _ no_reason | adopted no_reason => simp [no_reason] at reason
  | canceling life harmless eq running told =>
    cases moved with
    | diverted life' => simp [life] at life'
    | advanced life' advance =>
      rw [life] at life'
      cases life'
      cases advance with
      | passedOver finished => simp [eq, Execution.isFinished, running, Status.isFinished] at finished
      | acknowledged =>
        exact .leaving rfl (by rw [List.append_nil]; exact harmless)
          (congrArg (fun b : Execution => b.canceledFor _ _ _) eq) told
  | leaving life harmless eq told =>
    cases moved with
    | diverted life' => simp [life] at life'
    | advanced life' advance =>
      rw [life] at life'
      cases life'
      cases advance with
      | left => exact .canceled rfl (by rw [List.append_nil]; exact harmless) eq told
  | failing life harmful eq =>
    cases moved with
    | diverted life' => simp [life] at life'
    | advanced life' advance =>
      rw [life] at life'
      cases life'
      cases advance with
      | closed => exact .failed rfl (by rw [List.append_nil]; exact harmful) eq
  | canceled life | failed life => cases moved <;> simp_all

/-- A canceled execution stays canceled whatever happens to it from outside. -/
theorem Doomed.touched (h : Doomed R a policy raised c) {now : Rat} (touched : Touched now c c') (rests : Resting c.life)
    (keeps : c.reason.isSome = true → R (givenReason c.reason) → R (givenReason c'.reason)) :
    Doomed R a policy raised c' := by
  have finished_kept : c.execution.isFinished = true → c'.execution = c.execution := by
    intro finished
    rcases touched with signaled | marked
    · exact signaled.execution
    · cases marked with
      | waiting _ idle => simp [Execution.isFinished, idle, Status.isFinished] at finished
      | stranded _ unfinished => simp [unfinished] at finished
  -- a running execution with a live task is signaled only, and a reason once given is never taken back
  have running_kept : c.life.isOver = false → c.execution.status = .running →
      c'.execution = c.execution ∧ (c.reason.isSome = true → c'.reason.isSome = true) := by
    intro live running
    rcases touched with signaled | marked
    · refine ⟨signaled.execution, fun some => ?_⟩
      rcases signaled.reason with eq | isSome
      · rw [eq]; exact some
      · exact isSome
    · cases marked with
      | waiting _ idle => simp [running] at idle
      | stranded _ _ life => simp [life, Life.isOver] at live
  cases h with
  | stillborn life unheld eq told =>
    have kept := finished_kept (by rw [eq]; rfl)
    rcases touched.life_eq with life' | life'
    · exact .stillborn (life'.trans life) unheld (kept.trans eq) told
    · exact .stillborn (life'.trans (by rw [life]; rfl)) unheld (kept.trans eq) told
  | holding life held quiet eq running reason told =>
    obtain ⟨kept, reason_kept⟩ := running_kept (by rw [life]; rfl) (by rw [eq]; exact running)
    rcases touched.life_eq with life' | life'
    · exact .holding (life'.trans life) held quiet (kept.trans eq) running (reason_kept reason) (keeps reason told)
    · exact .holding (life'.trans (by rw [life]; rfl)) held quiet (kept.trans eq) running (reason_kept reason)
        (keeps reason told)
  | handled life harmless eq running reason told =>
    obtain ⟨kept, reason_kept⟩ := running_kept (by rw [life]; rfl) (by rw [eq]; exact running)
    rcases touched.life_eq with life' | life'
    · exact .handled (life'.trans life) harmless (kept.trans eq) running (reason_kept reason) (keeps reason told)
    · exact .handled (life'.trans (by rw [life]; rfl)) harmless (kept.trans eq) running (reason_kept reason)
        (keeps reason told)
  | calling life | canceling life | leaving life | failing life =>
    rw [life] at rests
    cases rests
  | canceled life harmless eq told =>
    have kept := finished_kept (by rw [eq]; rfl)
    rcases touched.life_eq with life' | life'
    · exact .canceled (life'.trans life) harmless (kept.trans eq) told
    · exact .canceled (life'.trans (by rw [life]; rfl)) harmless (kept.trans eq) told
  | failed life harmful eq =>
    have kept := finished_kept (by rw [eq]; rfl)
    rcases touched.life_eq with life' | life'
    · exact .failed (life'.trans life) harmful (kept.trans eq)
    · exact .failed (life'.trans (by rw [life]; rfl)) harmful (kept.trans eq)

/-- What a canceled execution has come to: it is as it was found, or canceled, or failed. -/
theorem Doomed.execution_cases (h : Doomed R a policy raised c) :
    c.execution = a ∧ a.status = .running ∧ c.life.isOver = false ∨
    (∃ now names reason, c.execution = a.canceledFor now names reason ∧ R reason ∧
      (c.life.isOver = true → raised → policy ≠ some .propagate)) ∨
    ∃ now names step message cause, c.execution = a.failedAt now names a.history.length step message cause ∧ raised ∧
      policy = some .propagate := by
  cases h with
  | stillborn life unheld eq told => exact .inr (.inl ⟨_, _, _, eq, told, fun _ _ => by simp [unheld]⟩)
  | holding life held quiet eq running | calling life held quiet eq running =>
    exact .inl ⟨eq, running, by rw [life]; rfl⟩
  | handled life harmless eq running | canceling life harmless eq running =>
    exact .inl ⟨eq, running, by rw [life]; rfl⟩
  | leaving life harmless eq told | canceled life harmless eq told =>
    exact .inr (.inl ⟨_, _, _, eq, told, fun _ => harmless⟩)
  | failing life harmful eq | failed life harmful eq => exact .inr (.inr ⟨_, _, _, _, _, eq, harmful⟩)

/-- A canceled execution spawns nothing, dispatches nothing and calls nothing. -/
theorem Doomed.barren (h : Doomed R a policy raised c) (moved : Moved e x c eff) :
    eff.born = none ∧ eff.dispatched = none ∧ ∀ y i slot payload, CallNote.begun y i slot payload ∉ eff.notes := by
  refine ⟨?_, ?_, ?_⟩
  · cases born : eff.born with
    | none => rfl
    | some child =>
      obtain ⟨position, workflow, rest, life, -⟩ := moved.born_eq born
      cases h <;> simp_all
  · cases dispatched : eff.dispatched with
    | none => rfl
    | some d =>
      obtain ⟨index, step, handler, -, life, -⟩ := moved.dispatched_eq dispatched
      cases h <;> simp_all
  · intro y i slot payload
    cases moved with
    | diverted => simp
    | advanced life advance => cases advance <;> cases h <;> simp_all

end Doomed

/-! ## The beginning -/

section Beginning

variable {R : String → Prop} {maxDepth : Int} {raised : Prop} {c c' : Course}

/-- An execution that runs and is sent a cancellation with a reason. -/
theorem Doomed.of_signal (stands : Stands maxDepth c.execution c.scheduled c.life) (rests : Resting c.life)
    (running : c.execution.status = .running) (quiet : ¬ raised) (execution : c'.execution = c.execution)
    (life : c'.life = c.life.interrupt) (reason : c'.reason.isSome = true) (told : R (givenReason c'.reason)) :
    Doomed R c.execution c.heldPolicy raised c' := by
  have live := stands.live_of_running running
  cases hc : c.life with
  | ended ending => simp [hc, Life.isOver] at live
  | live stage interrupted =>
    rw [hc] at stands rests life
    cases rests with
    | opening =>
      cases stands with
      | unbegun unbegun => simp [unbegun.status_eq] at running
      | stillborn unbegun names_eq eq => simp [eq] at running
    | holding =>
      cases stands with
      | holding at_index =>
        cases at_index.length
        exact .holding life (by simp [Course.heldPolicy, hc]) quiet execution running reason told
    | dispatched =>
      cases stands with
      | handled _ _ result => simp at result
      | dispatched at_index =>
        cases at_index.length
        exact .handled life (fun h => absurd h quiet) execution running reason told

/-- An execution that is marked. -/
theorem Doomed.of_mark (stands : Stands maxDepth c.execution c.scheduled c.life) {now : Rat} (marked : Marked now c c')
    (told : ∀ reason, R reason) : Doomed R c.execution c.heldPolicy raised c' := by
  cases marked with
  | waiting names_eq idle life =>
    obtain ⟨_, opening⟩ := (stands.of_idle idle).2 (by rw [life]; rfl)
    obtain ⟨rfl, -⟩ := Life.live.inj (life.symm.trans opening)
    exact .stillborn rfl (by simp [Course.heldPolicy, life]) rfl (told _)
  | stranded names_eq unfinished life =>
    exact .canceled rfl (fun _ => by simp [Course.heldPolicy, life]) rfl (told _)

end Beginning

/-! ## A canceled execution along a run -/

namespace Engine

/-- Execution number `x`, which a cancellation found as `c` in `e`, and what is around it in `e'`. -/
structure Halting (R : String → Prop) (e : Engine) (x : Nat) (c : Course) (e' : Engine) : Prop where
  doomed : ∃ c' notes, e'.courses[x]? = some c' ∧ e'.calls = e.calls ++ notes ∧
    (∀ i slot payload, CallNote.begun x i slot payload ∈ notes → i < c.frontier) ∧
    Doomed R c.execution c.heldPolicy (RaisedIn notes x c.execution.history.length) c'
  given : ∀ d ∈ e'.deliveries, d.execution = x → d.index < c.frontier
  newer : e.courses.length ≤ e'.courses.length
  childless : ∀ y d, e.courses.length ≤ y → e'.courses[y]? = some d → d.execution.parent ≠ some x

section Halting

variable {R : String → Prop} {e e' e'' : Engine} {x : Nat} {c c' : Course}

theorem frontier_le_of_held {policy : Policy} (held : c.heldPolicy = some policy) :
    c.frontier ≤ c.execution.history.length := by
  unfold Course.heldPolicy at held
  unfold Course.frontier
  split at held
  · next life =>
    rw [life]
    split
    · exact Nat.zero_le _
    · exact Nat.le_refl _
  · cases held

theorem Halting.of_elsewhere (elsewhere : Elsewhere e e') (threading : e.Threading) (hx : e.courses[x]? = some c)
    (hx' : e'.courses[x]? = some c')
    (doomed : Doomed R c.execution c.heldPolicy (RaisedIn [] x c.execution.history.length) c') :
    Halting R e x c e' := by
  obtain ⟨touched, born, courses, pointwise, root⟩ := elsewhere.courses
  refine ⟨⟨c', [], hx', by simp [elsewhere.calls], by simp, doomed⟩, fun d' hd' execution_eq => ?_, ?_,
    fun y d old hy => ?_⟩
  · obtain ⟨k, hk'⟩ := List.mem_iff_getElem?.mp hd'
    have lt : k < e.deliveries.length := by
      rw [← elsewhere.deliveries.1]
      exact (List.getElem?_eq_some_iff.mp hk').1
    obtain ⟨b, hb, signaled⟩ := elsewhere.deliveries.2 k _ (List.getElem?_eq_getElem lt)
    obtain rfl : d' = b := by simpa [hk'] using hb
    have given := threading.given _ c (List.getElem_mem lt)
    rcases signaled with eq | eq <;> rw [eq] at execution_eq ⊢ <;> exact (given (execution_eq ▸ hx)).lt
  · rw [courses, List.length_append, pointwise.1]
    omega
  · rw [courses, List.getElem?_append_right (by rw [pointwise.1]; exact old)] at hy
    cases hborn : born with
    | none => simp [hborn] at hy
    | some execution =>
      obtain ⟨workflow, state, rfl⟩ := root execution hborn
      have mem := List.mem_of_getElem? hy
      rw [hborn] at mem
      obtain rfl : d = .fresh (.root e.clock workflow state) := by simpa using mem
      simp [Course.fresh, Execution.root, Execution.idle]

/-- **A canceled execution stays canceled** in every act. -/
theorem Halting.step (h : Halting R e x c e') (outline : Outline e' e'') (standing : e'.Standing)
    (keeps : ∀ c₁ c₂, e'.courses[x]? = some c₁ → e''.courses[x]? = some c₂ →
      (e'.current = some (.course x) → c₁.life.isOver = true) → c₁.reason.isSome = true →
      R (givenReason c₁.reason) → R (givenReason c₂.reason)) : Halting R e x c e'' := by
  obtain ⟨c₁, notes, hx, calls, begun, doomed⟩ := h.doomed
  obtain ⟨c₂, hx₂, fate⟩ := outline.fate hx
  refine ⟨?doomed, fun d hd execution_eq => ?given, Nat.le_trans h.newer outline.length_le, fun y d old hy => ?childless⟩
  case doomed =>
    cases fate with
    | kept away aside =>
      obtain ⟨more, calls', about⟩ := aside
      -- a detached call of `x` was queued for a step before the one in progress, so what it notes is not that call
      have before : ∀ n ∈ more, n.execution = x → n.index < c.frontier := by
        intro n hn execution_eq
        obtain ⟨d, hd, execution_eq, index_eq⟩ := about n hn execution_eq
        exact index_eq ▸ h.given d hd execution_eq
      refine ⟨c₁, notes ++ more, hx₂, by rw [calls', calls, List.append_assoc], fun i slot payload mem => ?_, ?_⟩
      · rcases List.mem_append.mp mem with old | new
        · exact begun i slot payload old
        · exact before _ new rfl
      · cases held : c.heldPolicy with
        | none =>
          rw [held] at doomed
          exact doomed.unheld
        | some policy =>
          rw [held] at doomed
          have silent : ¬ RaisedIn more x c.execution.history.length := by
            rintro ⟨f, mem⟩
            exact Nat.lt_irrefl _ (Nat.lt_of_lt_of_le (before _ mem rfl) (frontier_le_of_held held))
          have iff : RaisedIn (notes ++ more) x c.execution.history.length ↔
              RaisedIn notes x c.execution.history.length := by
            rw [raisedIn_append]
            exact or_iff_left silent
          rw [propext iff]
          exact doomed
    | @moved eff current moved after calls' =>
      refine ⟨_, notes ++ eff.notes, hx₂, by rw [calls', calls, List.append_assoc], fun i slot payload mem => ?_,
        doomed.moved moved⟩
      rcases List.mem_append.mp mem with old | new
      · exact begun i slot payload old
      · exact absurd new ((doomed.barren moved).2.2 _ _ _ _)
    | touched touched away calls' =>
      exact ⟨c₂, notes, hx₂, by rw [calls', calls], begun,
        doomed.touched touched (standing.rests_of hx away) (keeps _ _ hx hx₂ away)⟩
  case given =>
    obtain ⟨k, hk⟩ := List.mem_iff_getElem?.mp hd
    rcases outline.delivery_fate hk with ⟨d₁, hk₁, same⟩ | ⟨p, c₃, eff, -, hp, moved, dispatched, -⟩
    · have given := h.given d₁ (List.mem_of_getElem? hk₁)
      rcases same with (rfl | rfl) | ⟨eff, -, -, rfl⟩ <;> exact given execution_eq
    -- a new call would be sent by `x` itself, whose moves are barren
    · obtain ⟨index, step, handler, rfl, -⟩ := moved.dispatched_eq dispatched
      obtain rfl : p = x := execution_eq
      obtain rfl : c₁ = c₃ := by simpa [hx] using hp
      simp [(doomed.barren moved).2.1] at dispatched
  case childless =>
    cases hy₁ : e'.courses[y]? with
    | some d₁ =>
      obtain ⟨d₂, hd₂, fate⟩ := outline.fate hy₁
      obtain rfl : d = d₂ := by simpa [hy] using hd₂
      rw [Execution.parent_eq fate.origin_eq]
      exact h.childless y d₁ old hy₁
    | none =>
      obtain ⟨-, execution, rfl, ⟨workflow, state, rfl⟩ | ⟨p, c₃, eff, -, hp, moved, born⟩⟩ := outline.newborn hy hy₁
      · simp [Course.fresh, Execution.root, Execution.idle]
      · intro parent
        obtain ⟨position, workflow, rest, -, -, rfl⟩ := moved.born_eq born
        obtain rfl : p = x := by simpa [Course.fresh, Execution.child, Execution.idle] using parent
        obtain rfl : c₁ = c₃ := by simpa [hx] using hp
        simp [(doomed.barren moved).1] at born

end Halting

/-! ## What a cancellation comes to -/

/-- Execution number `x` is canceled: by the host, or by the caller of `run` that waits for it, whose own cancellation
comes through while the task of the execution has not ended. -/
inductive Cancels (e : Engine) (x : Nat) : Engine → Prop
  | byHost (free : e.current = none) (id reason : String) :
      Cancels e x (e.act (.host (.cancel (some x) id reason)))
  | byCaller {k : Nat} {caller : Caller} (current : e.current = some (.caller k))
      (at_k : e.callers[k]? = some caller) (life : caller.life = .live (.awaiting x) true)
      (unfinished : e.isOver (.course x) = false) (place : Nat) : Cancels e x (e.act (.turn place))

/-- What becomes of an execution from `e`, where a cancellation found it as `c`, to `e'`. -/
structure Halted (e : Engine) (x : Nat) (c : Course) (e' : Engine) (c' : Course) : Prop where
  /-- No resolver is called for a step beyond the one in progress. -/
  calls : ∀ i slot payload, CallNote.begun x i slot payload ∈ e'.calls.drop e.calls.length →
    ∃ step, c.execution.currentStep = some step ∧ i ≤ step
  state : c'.execution.state = c.execution.state
  children : c'.execution.children = c.execution.children
  childless : ∀ y d, e.courses.length ≤ y → e'.courses[y]? = some d → d.execution.parent ≠ some x
  history : c'.execution.history = c.execution.history ∨
    ∃ r, c'.execution.history = c.execution.history ++ [r] ∧ r.status = .failed
  uncompleted : c'.execution.status ≠ .completed
  ended : c'.life.isOver = true → c'.execution.status = .canceled ∨ c'.execution.status = .failed
  /-- It fails if the attached resolver in progress, whose failures propagate, answers with a failure. -/
  failed_iff : c'.life.isOver = true → (c'.execution.status = .failed ↔
    ∃ i handler next canceled interrupted f, c.life = .live (.holding i handler next canceled) interrupted ∧
      handler.resolver.policy = .propagate ∧
      CallNote.ended x i (.error (.failure f)) ∈ e'.calls.drop e.calls.length)

section Cancellation

variable {e e' : Engine} {x : Nat} {c c' : Course}

theorem heldPolicy_eq_some {policy : Policy} : c.heldPolicy = some policy ↔
    ∃ i handler next canceled interrupted, c.life = .live (.holding i handler next canceled) interrupted ∧
      handler.resolver.policy = policy := by
  unfold Course.heldPolicy
  constructor
  · intro held
    split at held
    · next life => exact ⟨_, _, _, _, _, life, by simpa using held⟩
    · cases held
  · rintro ⟨i, handler, next, canceled, interrupted, life, rfl⟩
    rw [life]

/-- Before the frontier of a task that rests there are only steps up to the one in progress. -/
theorem le_current_of_lt_frontier {maxDepth : Int} (stands : Stands maxDepth c.execution c.scheduled c.life)
    (rests : Resting c.life) (unfinished : c.execution.status = .idle ∨ c.execution.status = .running) {i : Nat}
    (lt : i < c.frontier) : ∃ step, c.execution.currentStep = some step ∧ i ≤ step := by
  have begun : c.execution.status ≠ .idle := fun idle => by simp [Course.frontier, idle] at lt
  have running : c.execution.status = .running := unfinished.resolve_left begun
  have live := stands.live_of_running running
  simp only [Course.frontier, if_neg begun] at lt
  cases hc : c.life with
  | live stage interrupted =>
    rw [hc] at stands rests lt
    cases rests with
    | opening =>
      cases stands with
      | unbegun unbegun => exact absurd unbegun.status_eq begun
      | stillborn _ _ eq => simp [eq] at running
    | holding =>
      cases stands with
      | holding at_index current => exact ⟨_, current, at_index.length ▸ Nat.le_of_lt lt⟩
    | dispatched =>
      cases stands with
      | handled at_index current | dispatched at_index current =>
        exact ⟨_, current, at_index.length ▸ Nat.le_of_lt_succ lt⟩
  | ended ending => simp [hc, Life.isOver] at live

/-- The host cancels an execution that has not begun or runs. -/
theorem Sound.halting_of_cancel (sound : e.Sound) (free : e.current = none) (hx : e.courses[x]? = some c)
    (unfinished : c.execution.status = .idle ∨ c.execution.status = .running) (id reason : String) :
    Halting (fun _ => True) e x c (e.act (.host (.cancel (some x) id reason))) := by
  have standing := sound.standing
  have stands := standing.stands x c hx
  have rests := standing.rests x c hx (by simp [free])
  obtain ⟨names, names_eq⟩ := sound.orderly.names hx
  have open_status : c.execution.isFinished = false := by
    rcases unfinished with eq | eq <;> simp [Execution.isFinished, eq, Status.isFinished]
  have elsewhere := undergo_elsewhere sound.calm sound.orderly (.cancel (some x) id reason)
  obtain ⟨c', touched, courses, life, given⟩ := cancel_touched sound.calm hx names_eq open_status id reason
  have after : (e.undergo (.cancel (some x) id reason)).courses[x]? = some c' := by
    simp only [undergo, courses]
    exact set_getElem? hx
  simp only [act, free, if_true]
  refine .of_elsewhere elsewhere sound.threading hx after ?_
  rcases touched with ⟨signaled, begun⟩ | marked
  · have running := unfinished.resolve_left begun
    have reason_eq := given (stands.live_of_running running)
    exact .of_signal stands rests running (by simp [RaisedIn]) signaled.execution life (by simp [reason_eq]) trivial
  · exact .of_mark stands marked fun _ => trivial

theorem Cancels.halting (reachable : e.ReachableBy inOrder) (sound : e.Sound) (hx : e.courses[x]? = some c)
    (unfinished : c.execution.status = .idle ∨ c.execution.status = .running) (cancels : Cancels e x e') :
    Halting (fun _ => True) e x c e' := by
  have standing := sound.standing
  have stands := standing.stands x c hx
  have quiet : ¬ RaisedIn [] x c.execution.history.length := by simp [RaisedIn]
  cases cancels with
  | byHost free id reason => exact sound.halting_of_cancel free hx unfinished id reason
  | @byCaller k caller current at_k life unover place =>
    have rests := standing.rests x c hx (by simp [current])
    have live : c.life.isOver = false := by simpa [isOver, hx] using unover
    -- the task has begun, since as long as it has not it is ahead of the caller
    have begun : ∀ interrupted, c.life ≠ .live .opening interrupted := fun interrupted opening => by
      rcases (reachable.ahead sound).ahead k x c interrupted ⟨caller, true, at_k, life⟩ hx opening with h | ⟨h, -⟩
      · simp [current] at h
      · exact h current
    have running : c.execution.status = .running := unfinished.resolve_left fun idle => by
      obtain ⟨interrupted, opening⟩ := (stands.of_idle idle).2 live
      exact begun interrupted opening
    have act_eq : e.act (.turn place) = settleCaller k (e.cancelCaller (.awaiting x)) := by
      simp [act, turnAt, current, move, at_k, life]
    rw [act_eq]
    have elsewhere := settleCaller_elsewhere k (signals_nudging.cancelCaller e (.awaiting x)).elsewhere
    have after : (settleCaller k (e.cancelCaller (.awaiting x))).courses[x]? =
        some { c with life := c.life.interrupt, reason := c.reason.or (some callerReason) } := by
      simp [settleCaller, cancelCaller, unover, interrupt_courses, giveReason, updateCourse, hx]
    refine .of_elsewhere elsewhere sound.threading hx after ?_
    refine .of_signal stands rests running quiet rfl rfl ?_ trivial
    cases c.reason <;> rfl

/-- The call in progress ended with a failure that propagates. -/
theorem harmful_iff {maxDepth : Int} (stands : Stands maxDepth c.execution c.scheduled c.life)
    {notes : List CallNote} :
    (RaisedIn notes x c.execution.history.length ∧ c.heldPolicy = some .propagate) ↔
      ∃ i handler next canceled interrupted f, c.life = .live (.holding i handler next canceled) interrupted ∧
        handler.resolver.policy = .propagate ∧ CallNote.ended x i (.error (.failure f)) ∈ notes := by
  rw [heldPolicy_eq_some]
  constructor
  · rintro ⟨⟨f, mem⟩, i, handler, next, canceled, interrupted, life, propagate⟩
    rw [life] at stands
    cases stands with
    | holding running => exact ⟨i, handler, next, canceled, interrupted, f, life, propagate, running.length ▸ mem⟩
  · rintro ⟨i, handler, next, canceled, interrupted, f, life, propagate, mem⟩
    refine ⟨?_, i, handler, next, canceled, interrupted, life, propagate⟩
    rw [life] at stands
    cases stands with
    | holding running => exact ⟨f, running.length.symm ▸ mem⟩

/-- What holds of a canceled execution, told without the stage of its task. -/
theorem Halting.halted {R : String → Prop} (h : Halting R e x c e') {maxDepth : Int}
    (stands : Stands maxDepth c.execution c.scheduled c.life) (rests : Resting c.life)
    (unfinished : c.execution.status = .idle ∨ c.execution.status = .running) :
    ∃ c', e'.courses[x]? = some c' ∧ Halted e x c e' c' := by
  obtain ⟨c', notes, hx', calls, begun, doomed⟩ := h.doomed
  have noted : e'.calls.drop e.calls.length = notes := by rw [calls, List.drop_left]
  have no_call : ∀ i slot payload, CallNote.begun x i slot payload ∈ e'.calls.drop e.calls.length →
      ∃ step, c.execution.currentStep = some step ∧ i ≤ step := fun i slot payload mem =>
    le_current_of_lt_frontier stands rests unfinished (begun i slot payload (noted ▸ mem))
  refine ⟨c', hx', ?_⟩
  rcases doomed.execution_cases with ⟨eq, running, live⟩ | ⟨now, names, reason, eq, -, harmless⟩ |
    ⟨now, names, step, message, cause, eq, harmful⟩
  · refine ⟨no_call, by rw [eq], by rw [eq], h.childless, .inl (by rw [eq]), by simp [eq, running], ?_, ?_⟩ <;>
      simp [live]
  · refine ⟨no_call, by simp [eq], by simp [eq], h.childless, .inl (by simp [eq]), by simp [eq],
      fun _ => .inl (by simp [eq]), fun stopped => ?_⟩
    rw [noted, ← harmful_iff stands]
    exact iff_of_false (by simp [eq]) fun ⟨raised, held⟩ => harmless stopped raised held
  · refine ⟨no_call, by simp [eq], by simp [eq], h.childless, .inr ⟨_, by rw [eq]; rfl, rfl⟩, by simp [eq],
      fun _ => .inr (by simp [eq]), fun _ => ?_⟩
    rw [noted, ← harmful_iff stands]
    exact iff_of_true (by simp [eq]) harmful

/-- **A cancellation cannot be masked**: once an execution that has not begun or runs is canceled, no further step of it
is called, its state stays, it spawns nothing and never completes; when its task ends it is canceled, or failed if its
resolver in progress made the cancellation a failure that propagates. -/
theorem halted_of_cancels {e₁ e₂ : Engine} (reachable : e.ReachableBy inOrder) (hx : e.courses[x]? = some c)
    (unfinished : c.execution.status = .idle ∨ c.execution.status = .running) (cancels : Cancels e x e₁)
    (run : Reaches anyOrder e₁ e₂) (calm : e₂.Calm) (named : e₂.WellNamed) :
    ∃ c₂, e₂.courses[x]? = some c₂ ∧ Halted e x c e₂ c₂ := by
  obtain ⟨first, rests⟩ : Reaches anyOrder e e₁ ∧ (e.Standing → Resting c.life) := by
    cases cancels with
    | byHost free id reason =>
      exact ⟨.single (a := .host (.cancel (some x) id reason)) trivial,
        fun standing => standing.rests x c hx (by simp [free])⟩
    | byCaller current at_k life unover place =>
      exact ⟨.single (a := .turn place) trivial, fun standing => standing.rests x c hx (by simp [current])⟩
  have reachable₂ : e₂.Reachable := (reachable.reachable.trans first).trans run
  have sound₂ : e₂.Sound := reachable₂.sound calm named
  have sound : e.Sound := sound₂.of_reaches reachable.reachable (first.trans run)
  have standing := sound.standing
  have halting : Halting (fun _ => True) e x c e₂ :=
    run.induction (reachable.reachable.trans first) sound₂ (cancels.halting reachable sound hx unfinished)
      fun e' a _ sound' _ _ outline halting => halting.step outline sound'.standing fun _ _ _ _ _ _ _ => trivial
  exact halting.halted (standing.stands x c hx) (rests standing) unfinished

/-- A run in which the call for the first of two steps waits. -/
def heldRun : Engine :=
  let waits := Rehearsed.resolver "wait" .propagate false ⟨none, .gatedStubborn, .returns (.ok none)⟩ []
  let steps := [⟨"wait", .null, .empty, by decide⟩, ⟨"wait", .null, .empty, by decide⟩]
  (fresh .standard Processing.standard none (Registry.empty.register "wait" ⟨0, waits⟩)).rehearse 20
    [.start ⟨steps, .text "trial", none, .empty, .empty⟩ .null]

/-- The call takes its cancellation for the opening of its gate and answers, in vain. -/
theorem heldRun_halted : ∃ c c', heldRun.courses[0]? = some c ∧
    (turns 20 (heldRun.act (.host (.cancel (some 0) "0" "enough")))).courses[0]? = some c' ∧
    c.execution.status = .running ∧ c'.execution.status = .canceled ∧
    Halted heldRun 0 c (turns 20 (heldRun.act (.host (.cancel (some 0) "0" "enough")))) c' := by
  have run : Reaches inOrder _ heldRun := rehearse_reaches _ _ _
  have on := turns_reaches (P := anyOrder) (heldRun.act (.host (.cancel (some 0) "0" "enough"))) 20 fun _ _ => trivial
  have all := run.mono (Q := anyOrder) fun _ _ _ => trivial
  have calm := ((all.trans (.single trivial)).trans on).calm_iff.mpr (fresh_calm _ _ _)
  have status : heldRun.courses[0]?.map (·.execution.status) = some .running := by decide +kernel
  obtain ⟨c, hx, status⟩ := Option.map_eq_some_iff.mp status
  have status' : (turns 20 (heldRun.act (.host (.cancel (some 0) "0" "enough")))).courses[0]?.map
      (·.execution.status) = some .canceled := by decide +kernel
  obtain ⟨c', hx', halted⟩ := halted_of_cancels run.of_fresh hx (.inr status)
    (.byHost (by decide +kernel) "0" "enough") on calm (by decide +kernel)
  rw [hx'] at status'
  exact ⟨c, c', hx, hx', status, by simpa using status', halted⟩

end Cancellation

end Engine

end Stepflow
