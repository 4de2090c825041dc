import Stepflow.Proofs.Engine.Alertness
import Stepflow.Proofs.Engine.Answering
import Stepflow.Proofs.Engine.Joining

/-!
# Stepflow.Proofs.Engine.Flushing — detached calls that nobody cancels run to their own ends

* `Delivery.Made`: a detached call has been made, and has ended as its resolver ends when nothing interrupts it.
* `Unbroken`: a detached call is on its way to that, or has come there.  `MovedDelivery.unbroken`: so it stays in its
  moves.
* `Patient`: no shutdown times out.  `Happens.deliveries_of_patient`: then detached calls are sent no cancellations.
* `ReachableBy.unbroken`: as long as no shutdown times out every detached call is unbroken.
-/

namespace Stepflow

/-- How often a resolver has been called by the notes. -/
def callsTo (calls : List CallNote) (slot : Nat) : Nat :=
  calls.countP fun
    | .begun _ _ s _ => s == slot
    | .ended .. => false

namespace Delivery

/-- The note of the beginning of a detached call. -/
def beginning (d : Delivery) : CallNote := .begun d.execution d.index d.handler.slot d.step.payload

/-- The script of a detached call that begins after what has been noted. -/
def script (d : Delivery) (earlier : List CallNote) : Script :=
  d.handler.resolver.respond (callsTo earlier d.handler.slot) d.step.payload

/-- The call has been made, and it has ended as its script does when nothing interrupts it. -/
def Made (d : Delivery) (calls : List CallNote) : Prop :=
  ∃ earlier later, calls = earlier ++ d.beginning :: later ∧ .ended d.execution d.index (d.script earlier).run.2 ∈ later

/-- The call has begun and goes on by a script that ends as its own does. -/
def Follows (d : Delivery) (calls : List CallNote) (script : Script) : Prop :=
  ∃ earlier later, calls = earlier ++ d.beginning :: later ∧ script.run.2 = (d.script earlier).run.2

end Delivery

/-- No cancellation is on its way to a detached call or has come through to it: it has yet to begin, follows its script,
or has been made. -/
inductive Unbroken (calls : List CallNote) (d : Delivery) : Prop
  | entering (life : d.life = .live .entering false)
  | calling {script : Script} (life : d.life = .live (.calling script) false) (follows : d.Follows calls script)
  | holding {next canceled : Script} (life : d.life = .live (.holding next canceled) false)
      (follows : d.Follows calls next)
  | closing (life : d.life = .live .closing false) (made : d.Made calls)
  | ended {ending : Ending} (life : d.life = .over ending) (made : d.Made calls)

section Unbroken

variable {e : Engine} {calls more : List CallNote} {d : Delivery} {eff : DeliveryEffect} {script : Script}

theorem Delivery.Made.append (h : d.Made calls) : d.Made (calls ++ more) := by
  obtain ⟨earlier, later, rfl, ended⟩ := h
  exact ⟨earlier, later ++ more, by simp, List.mem_append_left _ ended⟩

theorem Delivery.Follows.append (h : d.Follows calls script) : d.Follows (calls ++ more) script := by
  obtain ⟨earlier, later, rfl, same⟩ := h
  exact ⟨earlier, later ++ more, by simp, same⟩

/-- The script has come to its end. -/
theorem Delivery.Follows.made {result : Except Raised (Option Value)} (h : d.Follows calls script)
    (ends : script.run.2 = result) : d.Made (calls ++ [.ended d.execution d.index result]) := by
  obtain ⟨earlier, later, rfl, same⟩ := h
  exact ⟨earlier, later ++ [.ended d.execution d.index result], by simp, by simp [← same, ends]⟩

theorem Unbroken.append (h : Unbroken calls d) : Unbroken (calls ++ more) d := by
  cases h with
  | entering life => exact .entering life
  | calling life follows => exact .calling life follows.append
  | holding life follows => exact .holding life follows.append
  | closing life made => exact .closing life made.append
  | ended life made => exact .ended life made.append

/-- A detached call that is over has been made. -/
theorem Unbroken.made (h : Unbroken calls d) (stopped : d.life.isOver = true) : d.Made calls := by
  cases h with
  | ended life made => exact made
  | entering life | calling life | holding life | closing life => simp [life, Life.isOver] at stopped

/-- **A detached call that no cancellation reaches follows its script** in its moves, and comes to its end. -/
theorem MovedDelivery.unbroken (h : MovedDelivery e d eff) (unbroken : Unbroken e.calls d) :
    Unbroken (e.calls ++ eff.notes) { d with life := Engine.lifeAfter eff.move } := by
  cases h with
  | diverted life =>
    cases unbroken with
    | entering life' | calling life' | holding life' | closing life' | ended life' => simp [life'] at life
  | delivered life delivers =>
    have follows {script : Script} (stage : d.life = .live (.calling script) false) : d.Follows e.calls script := by
      cases unbroken with
      | calling life' follows =>
        obtain rfl : script = _ := by simpa [stage] using life'
        exact follows
      | entering life' | holding life' | closing life' | ended life' => simp [stage] at life'
    cases delivers with
    | begun => exact .calling rfl ⟨e.calls, [], rfl, rfl⟩
    | remarked | passed => exact .calling rfl (follows life).append
    | slept | gaveWay | barred => exact .holding rfl (follows life).append
    | answered | yielded | reported => exact .ended rfl ((follows life).made rfl)
    | recovered => exact .closing rfl ((follows life).made rfl)
    | @resumed next canceled =>
      cases unbroken with
      | holding life' follows =>
        obtain ⟨rfl, -⟩ : next = _ ∧ canceled = _ := by simpa [life] using life'
        exact .calling rfl follows.append
      | entering life' | calling life' | closing life' | ended life' => simp [life] at life'
    | closed =>
      cases unbroken with
      | closing life' made => exact .ended rfl made.append
      | entering life' | calling life' | holding life' | ended life' => simp [life] at life'

end Unbroken

namespace Engine

/-! ## Shutdowns that do not time out -/

/-- No shutdown times out. -/
abbrev Patient (e : Engine) (a : Act) : Prop := ¬ e.TimesOut a

section Patient

variable {e e' : Engine} {a : Act}

/-- Whether a caller of `shutdown` has the processor whose time is up. -/
def overdue (e : Engine) : Bool :=
  match e.current with
  | some (.closer k) =>
    match e.closers[k]? with
    | some (.live (.flushing deadline) false) => decide (deadline ≤ e.clock) && !e.pending.isEmpty
    | _ => false
  | _ => false

theorem timesOut_turn_iff {place : Nat} : e.TimesOut (.turn place) ↔ e.overdue = true := by
  constructor
  · rintro ⟨k, deadline, current, life, late, pending⟩
    simp [overdue, current, life, late, pending]
  · intro late
    unfold overdue at late
    split at late
    · next k current =>
      split at late
      · next deadline life =>
        simp only [Bool.and_eq_true, decide_eq_true_eq, Bool.not_eq_true', List.isEmpty_eq_false_iff] at late
        exact ⟨k, deadline, current, life, late.1, late.2⟩
      · cases late
    · cases late

instance (e : Engine) (a : Act) : Decidable (e.TimesOut a) :=
  match a with
  | .host _ => .isFalse id
  | .turn _ => decidable_of_iff' _ timesOut_turn_iff

/-- A caller of `shutdown` whose time is not up changes nothing but itself. -/
theorem moveCloser_of_patient {k place : Nat} {stage : CloserStage} (patient : e.Patient (.turn place))
    (current : e.current = some (.closer k)) (life : e.closers[k]? = some (.live stage false)) :
    (e.moveCloser stage).1 = e := by
  cases stage with
  | sweeping => rfl
  | flushing deadline =>
    dsimp only [moveCloser]
    split
    · rfl
    · next pending =>
      split
      · next late =>
        exact absurd ⟨k, deadline, current, life, late, fun none => pending (List.isEmpty_iff.mpr none)⟩ patient
      · rfl

theorem Happens.deliveries_of_patient (h : Happens e a e') (waiting : e.Waiting) (patient : e.Patient a) :
    e.deliveries <+: e'.deliveries ∨ ∃ k d eff, e.current = some (.delivery k) ∧ e.deliveries[k]? = some d ∧
      MovedDelivery e d eff ∧ e'.deliveries = e.deliveries.set k { d with life := lifeAfter eff.move } := by
  rcases h.deliveries waiting with kept | moved | ⟨⟨k, current⟩, -⟩
  · exact .inl kept
  · exact .inr moved
  · have same : e'.deliveries = e.deliveries := by
      cases h with
      | still | vacant => rfl
      | @closer _ k stage current life =>
        have still := congrArg Engine.deliveries (moveCloser_of_patient patient current life)
        exact (handOn_deliveries _ _ _).trans still
      | closerCanceled => exact handOn_deliveries _ _ _
      | _ => simp_all
    exact .inl ⟨[], by rw [same, List.append_nil]⟩

/-- An act in which no shutdown times out leaves detached calls unbroken. -/
theorem Happens.unbroken (h : Happens e a e') (outline : Outline e e') (waiting : e.Waiting) (patient : e.Patient a)
    (unbroken : ∀ d ∈ e.deliveries, Unbroken e.calls d) : ∀ d ∈ e'.deliveries, Unbroken e'.calls d := by
  obtain ⟨notes, calls, -⟩ := outline.calls_le
  have kept {d : Delivery} (mem : d ∈ e.deliveries) : Unbroken e'.calls d := by
    rw [calls]
    exact (unbroken d mem).append
  rcases h.deliveries_of_patient waiting patient with more | ⟨k, d, _, current, at_k, moved, -⟩
  · intro d' mem
    obtain ⟨k, at_k'⟩ := List.mem_iff_getElem?.mp mem
    rcases Nat.lt_or_ge k e.deliveries.length with old | new
    · have same := more.getElem old
      obtain ⟨lt, eq⟩ := List.getElem?_eq_some_iff.mp at_k'
      exact kept (eq ▸ same ▸ List.getElem_mem old)
    · rcases outline.delivery_fate at_k' with ⟨d, at_k, -⟩ | ⟨x, c, eff, -, -, moved, dispatched, -⟩
      · rw [List.getElem?_eq_none new] at at_k
        cases at_k
      · obtain ⟨_, _, _, rfl, -⟩ := moved.dispatched_eq dispatched
        exact .entering rfl
  · rcases h.of_delivery current at_k moved.live with rfl | ⟨eff, journal, log, moved, rfl⟩
    · exact unbroken
    · intro d' mem
      rw [handOn_deliveries] at mem
      rw [handOn_calls]
      rcases List.mem_or_eq_of_mem_set mem with old | rfl
      · exact (unbroken d' old).append
      · exact moved.unbroken (unbroken d (List.mem_of_getElem? at_k))

/-- **As long as no shutdown times out** every detached call follows its script to its end. -/
theorem ReachableBy.unbroken (reachable : e.ReachableBy Patient) (sound : e.Sound) :
    ∀ d ∈ e.deliveries, Unbroken e.calls d := by
  obtain ⟨settings, process, bus, registry, run⟩ := reachable
  refine run.induction (I := fun e => ∀ d ∈ e.deliveries, Unbroken e.calls d) ⟨_, _, _, _, .refl⟩ sound
    (by simp [Engine.fresh]) fun e₁ a _ sound₁ _ patient outline unbroken => ?_
  exact (sound₁.happens a).unbroken outline sound₁.waiting patient unbroken

end Patient

end Engine

end Stepflow
