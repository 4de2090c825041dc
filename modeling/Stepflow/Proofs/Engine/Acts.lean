import Stepflow.Engine.Control

/-!
# Stepflow.Proofs.Engine.Acts — what can happen to an engine, and the states it comes to

* `Act`: a task has its turn, or the host does something between two turns.  A turn names the place in the queue
  from which the next task is taken, so that runs range over every order of the ready tasks; `Act.InOrder` is the
  order of the queue itself, first in first out.
* `Engine.Reaches P e e'`: from `e` the engine comes to `e'` by acts that `P` admits; `Engine.Reachable`: the states
  that an engine can be in.
* `Engine.Calm` and `Engine.WellNamed`: an event bus that neither suspends nor fails, and executions whose names can
  be part of a path.
* `turns_reaches`, `rehearse_reaches`: letting the tasks have their turns is a run, and so is a list of deeds of the host
  with turns in between.
-/

namespace Stepflow

/-- A task is live or has ended. -/
@[cases_eliminator, elab_as_elim]
theorem Life.live_or_ended {σ : Type} {motive : Life σ → Prop}
    (live : ∀ stage interrupted, motive (.live stage interrupted)) (ended : ∀ ending, motive (.over ending))
    (life : Life σ) : motive life := by
  rcases life with ⟨stage, interrupted⟩ | ending
  · exact live stage interrupted
  · exact ended ending

/-- What the host, or the world around the engine, does between two turns. -/
inductive Deed where
  | start (workflow : Workflow) (initial : Datum)
  | run (workflow : Workflow) (initial : Datum)
  | cancel (x : Option Nat) (id reason : String)
  | cancelRun (k : Nat)
  | join
  | cancelJoin (k : Nat)
  | shutdown (timeout : Option Rat)
  | release (slot : Nat)
  | releaseBus
  | register (stepType : String) (offered : Offer Handler)
  | unregister (stepType : String)
  /-- The clock reaches a time. -/
  | pass (time : Rat)

/-- One thing that happens to an engine. -/
inductive Act where
  /-- The task that has the processor moves or, if none has it, the task at a place of the queue gets it. -/
  | turn (place : Nat)
  | host (deed : Deed)

/-- The queue is served first in, first out. -/
def Act.InOrder : Act → Prop
  | .turn place => place = 0
  | .host _ => True

/-- The host changes what is bound to a step type. -/
def Act.Rebinds : Act → Prop
  | .host (.register _ _) | .host (.unregister _) => True
  | _ => False

namespace Engine

/-- The engine after a deed of the host. -/
def undergo (e : Engine) : Deed → Engine
  | .start workflow initial =>
    match e.start workflow initial with
    | .ok (e', _) => e'
    | .error _ => e
  | .run workflow initial => e.run workflow initial
  | .cancel x id reason => (e.cancel x id reason).1
  | .cancelRun k => e.cancelRun k
  | .join => e.join
  | .cancelJoin k => e.cancelJoin k
  | .shutdown timeout => e.beginShutdown timeout
  | .release slot => e.release slot
  | .releaseBus => e.releaseBus
  | .register stepType offered => (e.register stepType offered).1
  | .unregister stepType => e.unregister stepType
  | .pass time => if e.clock ≤ time then e.tickTo time else e

/-- A turn in which, if no task has the processor, the one at a place of the queue gets it. -/
def turnAt (e : Engine) (place : Nat) : Engine :=
  match e.current with
  | some t => e.move t
  | none =>
    match e.ready[place]? with
    | some t => { e with current := some t, ready := e.ready.eraseIdx place }
    | none => e

/-- The engine after an act.  The host waits until no task has the processor. -/
def act (e : Engine) : Act → Engine
  | .turn place => e.turnAt place
  | .host deed => if e.current = none then e.undergo deed else e

/-- From `e` the engine comes to a state by acts each of which `P` admits where it takes place. -/
inductive Reaches (P : Engine → Act → Prop) (e : Engine) : Engine → Prop
  | refl : Reaches P e e
  | step {e' : Engine} {a : Act} : Reaches P e e' → P e' a → Reaches P e (e'.act a)

/-- The states that an engine comes to by acts that `P` admits. -/
def ReachableBy (P : Engine → Act → Prop) (e : Engine) : Prop :=
  ∃ settings process bus registry, Reaches P (fresh settings process bus registry) e

/-- Any order of the ready tasks. -/
abbrev anyOrder : Engine → Act → Prop := fun _ _ => True

/-- The ready tasks in the order of the queue. -/
abbrev inOrder : Engine → Act → Prop := fun _ a => a.InOrder

/-- The states that an engine can be in. -/
abbrev Reachable (e : Engine) : Prop := e.ReachableBy anyOrder

/-- There is no event bus, or it takes every event at once. -/
def Calm (e : Engine) : Prop := ∀ react, e.bus = some react → ∀ event, react event = .accept

/-- Every execution runs a workflow without a name or with a text as its name. -/
def WellNamed (e : Engine) : Prop :=
  ∀ c ∈ e.courses, c.execution.workflow.name = .null ∨ ∃ s, c.execution.workflow.name = .text s

instance (e : Engine) : Decidable e.WellNamed :=
  decidable_of_iff (∀ c ∈ e.courses, (match c.execution.workflow.name with
    | .null | .text _ => true
    | _ => false) = true) <| by
  unfold WellNamed
  refine forall_congr' fun c => imp_congr_right fun _ => ?_
  cases c.execution.workflow.name <;> simp

/-! ### Runs -/

section Runs

variable {P Q : Engine → Act → Prop} {e e' e'' : Engine}

theorem Reaches.trans (h : Reaches P e e') (h' : Reaches P e' e'') : Reaches P e e'' := by
  induction h' with
  | refl => exact h
  | step _ hp ih => exact .step ih hp

theorem Reaches.mono (h : Reaches P e e') (hPQ : ∀ e a, P e a → Q e a) : Reaches Q e e' := by
  induction h with
  | refl => exact .refl
  | step _ hp ih => exact .step ih (hPQ _ _ hp)

theorem Reaches.single {a : Act} (h : P e a) : Reaches P e (e.act a) := .step .refl h

theorem ReachableBy.mono (h : e.ReachableBy P) (hPQ : ∀ e a, P e a → Q e a) : e.ReachableBy Q := by
  obtain ⟨settings, process, bus, registry, run⟩ := h
  exact ⟨settings, process, bus, registry, run.mono hPQ⟩

theorem Reaches.of_fresh {settings : Settings} {process : State → Step → Option Value → Except Raised Transition}
    {bus : Option (Lifecycle → Reaction)} {registry : Registry Handler}
    (run : Reaches P (fresh settings process bus registry) e) : e.ReachableBy P :=
  ⟨settings, process, bus, registry, run⟩

theorem ReachableBy.trans (h : e.ReachableBy P) (run : Reaches P e e') : e'.ReachableBy P := by
  obtain ⟨settings, process, bus, registry, before⟩ := h
  exact ⟨settings, process, bus, registry, before.trans run⟩

theorem ReachableBy.reachable (h : e.ReachableBy P) : e.Reachable := h.mono fun _ _ _ => trivial

end Runs

theorem fresh_calm (settings : Settings) (process : State → Step → Option Value → Except Raised Transition)
    (registry : Registry Handler) : (fresh settings process none registry).Calm := fun _ h => by cases h

/-! ### The composite operations of the host -/

section Composite

variable (e : Engine)

theorem turnAt_zero : e.turnAt 0 = e.turn := by
  unfold turnAt turn
  cases e.current with
  | some t => rfl
  | none => cases e.ready <;> rfl

theorem turns_reaches {P : Engine → Act → Prop} (fuel : Nat) (admitted : ∀ n < fuel, P (turns n e) (.turn 0)) :
    Reaches P e (turns fuel e) := by
  induction fuel generalizing e with
  | zero => exact .refl
  | succ fuel ih =>
    have first : P e (.turn 0) := admitted 0 (by omega)
    have later := fun n (lt : n < fuel) => admitted (n + 1) (by omega)
    unfold turns at later ⊢
    split
    · exact .refl
    · rename_i busy
      simp only [busy, if_false, Bool.false_eq_true] at later
      rw [← turnAt_zero] at later ⊢
      exact (Reaches.single first).trans (ih _ later)

/-- Deeds of the host one after another, and after each of them turns in the order of the queue. -/
def rehearse (fuel : Nat) : Engine → List Deed → Engine
  | e, [] => e
  | e, deed :: deeds => rehearse fuel (turns fuel (e.act (.host deed))) deeds

theorem rehearse_reaches (fuel : Nat) (deeds : List Deed) : Reaches inOrder e (e.rehearse fuel deeds) := by
  induction deeds generalizing e with
  | nil => exact .refl
  | cons deed deeds ih =>
    have first : Reaches inOrder e (e.act (.host deed)) := .single trivial
    exact (first.trans (turns_reaches (P := inOrder) _ fuel fun _ _ => rfl)).trans (ih _)

end Composite

end Engine

end Stepflow
