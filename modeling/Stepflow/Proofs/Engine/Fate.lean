import Stepflow.Proofs.Engine.Frame
import Stepflow.Proofs.Engine.Happens

/-!
# Stepflow.Proofs.Engine.Fate — one execution through one act, and through a run

* `Fate`: what an act does to one execution; `Outline.newborn`: how an execution comes to be.
* `Execution.origin`: what never changes of an execution, `Fate.origin_eq`.
* `orderly_act`: order is kept; `Sound`: the reachable states with a calm bus and writable names, which `Sound.induction`
  and `Reaches.induction` go through act by act.
-/

namespace Stepflow

/-- From `e` to `e'` only detached calls of execution number `x` make notes about it. -/
def Aside (e e' : Engine) (x : Nat) : Prop :=
  ∃ notes, e'.calls = e.calls ++ notes ∧
    ∀ n ∈ notes, n.execution = x → ∃ d ∈ e.deliveries, d.execution = x ∧ d.index = n.index

/-- What an act, from `e` to `e'`, does to execution number `x` and its task. -/
inductive Fate (e e' : Engine) (x : Nat) (c : Course) : Course → Prop
  | kept (away : e.current = some (.course x) → e' = e) (aside : Aside e e' x) : Fate e e' x c c
  | moved {eff : Effect} (current : e.current = some (.course x)) (moved : Moved e x c eff)
      (after : (∃ stage, eff.move = .go stage) → e'.current = some (.course x))
      (calls : e'.calls = e.calls ++ eff.notes)
      (born : ∀ child, eff.born = some child → e'.courses[e.courses.length]? = some (.fresh child)) :
      Fate e e' x c (eff.course c)
  | touched {c' : Course} (touched : Touched e.clock c c')
      (away : e.current = some (.course x) → c.life.isOver = true) (calls : e'.calls = e.calls) : Fate e e' x c c'

/-! ## Origins -/

section Origins

variable {e e' : Engine} {x : Nat} {c c' : Course} {eff : Effect}

theorem Advance.origin_eq {stage : Stage} (h : Advance e x c stage eff) :
    eff.execution.origin = c.execution.origin := by
  cases h <;> rfl

theorem Moved.origin_eq (h : Moved e x c eff) : eff.execution.origin = c.execution.origin := by
  cases h with
  | advanced _ advance => exact advance.origin_eq
  | diverted => rfl

theorem Touched.origin_eq {now : Rat} (h : Touched now c c') : c'.execution.origin = c.execution.origin := by
  rcases h with h | h
  · rw [h.execution]
  · cases h <;> rfl

theorem Fate.origin_eq (h : Fate e e' x c c') : c'.execution.origin = c.execution.origin := by
  cases h with
  | kept => rfl
  | moved _ moved => exact moved.origin_eq
  | touched touched => exact touched.origin_eq

/-- A child is accepted as `Execution.child` of its parent. -/
theorem Moved.born_eq {child : Execution} (h : Moved e x c eff) (born : eff.born = some child) :
    ∃ position workflow rest, c.life = .live (.spawning position (workflow :: rest)) false ∧
      workflow.shouldRun c.execution.state = true ∧ child = c.execution.child e.clock x workflow position := by
  cases h with
  | diverted => simp at born
  | advanced life advance =>
    cases advance <;> simp at born
    case spawned position workflow rest wanted =>
      exact ⟨position, workflow, rest, life, wanted, born.symm⟩

/-- A detached call is queued for the step that the execution that moves has reached. -/
theorem Moved.dispatched_eq {d : Delivery} (h : Moved e x c eff) (dispatched : eff.dispatched = some d) :
    ∃ index step handler, d = ⟨x, index, step, handler, .live .entering false⟩ ∧
      c.life = .live (.reaching index) false ∧ c.execution.workflow.steps[index]? = some step ∧
      e.registry.find? step.stepType = some handler ∧ eff.execution = c.execution.turnTo e.clock index ∧
      eff.move = .yield (.handled index none .dispatched none) := by
  cases h with
  | diverted => simp at dispatched
  | advanced life advance =>
    cases advance <;> simp at dispatched
    case dispatched index step handler at_step bound detached =>
      exact ⟨index, step, handler, dispatched.symm, life, at_step, bound, rfl, rfl⟩

/-- What a move notes is about the execution that moves. -/
theorem Moved.notes_execution (h : Moved e x c eff) : ∀ n ∈ eff.notes, n.execution = x := by
  cases h with
  | diverted => simp
  | advanced life advance => cases advance <;> simp [CallNote.execution]

/-- What a detached call notes is about its step. -/
theorem MovedDelivery.notes_about {d : Delivery} {eff : DeliveryEffect} (h : MovedDelivery e d eff) :
    ∀ n ∈ eff.notes, n.execution = d.execution ∧ n.index = d.index := by
  cases h with
  | diverted => simp
  | delivered life delivers => cases delivers <;> simp [CallNote.execution, CallNote.index]

end Origins

/-! ## Stages -/

section Stages

variable {e e' : Engine}

theorem cancelCourse_fits {stage : Stage} {steps : List Step} (h : stage.Fits steps) {next : Stage}
    {interrupted : Bool} (after : Engine.lifeAfter (Engine.cancelCourse stage) = .live next interrupted) :
    next.Fits steps := by
  cases stage with
  | holding index handler go canceled => cases after; exact h
  | refusing event last => exact h.elim
  | unrecovered index event => exact h.elim
  | _ => cases after <;> trivial

theorem Advance.fits {x : Nat} {c : Course} {eff : Effect} {stage : Stage} (h : Advance e x c stage eff)
    (fits : stage.Fits c.execution.workflow.steps) {next : Stage} {interrupted : Bool}
    (after : Engine.lifeAfter eff.move = .live next interrupted) : next.Fits c.execution.workflow.steps := by
  have lt : ∀ {index : Nat} {step : Step}, c.execution.workflow.steps[index]? = some step →
      index < c.execution.workflow.steps.length := fun h => (List.getElem?_eq_some_iff.mp h).1
  cases h with
  | dispatched at_step => cases after; exact lt at_step
  | called at_step => cases after; exact lt at_step
  | remarked | slept | gaveWay | passed | barred | answered | recovered | resumed => cases after; exact fits
  | closed | left => cases after
  | _ => cases after; trivial

theorem Touched.life_eq {c c' : Course} {now : Rat} (h : Touched now c c') :
    c'.life = c.life ∨ c'.life = c.life.interrupt := by
  rcases h with signaled | marked
  · exact signaled.life
  · cases marked with
    | waiting _ _ life => rw [life]; exact .inr rfl
    | stranded _ _ life => rw [life]; exact .inl rfl

theorem Touched.over_eq {c c' : Course} {now : Rat} (h : Touched now c c') : c'.life.isOver = c.life.isOver := by
  rcases h.life_eq with eq | eq <;> rw [eq]
  exact c.life.isOver_interrupt

/-- A task that is live from outside stands where it stood. -/
theorem Touched.live {c c' : Course} {now : Rat} (h : Touched now c c') {stage : Stage} {interrupted : Bool}
    (life : c'.life = .live stage interrupted) : ∃ interrupted, c.life = .live stage interrupted := by
  rcases h.life_eq with eq | eq
  · exact ⟨_, eq ▸ life⟩
  · rw [eq] at life
    cases hc : c.life with
    | live s b =>
      simp only [hc, Life.interrupt, Life.live.injEq] at life
      exact ⟨b, by rw [life.1]⟩
    | ended ending => simp [hc, Life.interrupt] at life

/-- A task never begins again. -/
theorem Moved.not_opening {x : Nat} {c : Course} {eff : Effect} (h : Moved e x c eff) (interrupted : Bool) :
    Engine.lifeAfter eff.move ≠ .live .opening interrupted := by
  cases h with
  | advanced life advance => cases advance <;> simp [Engine.lifeAfter]
  | @diverted stage life =>
    cases stage with
    | refusing event last => cases last <;> simp [Engine.cancelCourse, Engine.lifeAfter]
    | _ => simp [Engine.cancelCourse, Engine.lifeAfter]

/-- A task that is over stays over. -/
theorem Fate.over {x : Nat} {c c' : Course} (h : Fate e e' x c c') (stopped : c.life.isOver = true) :
    c'.life.isOver = true := by
  cases h with
  | kept => exact stopped
  | moved current moved =>
    cases moved with
    | advanced life | diverted life => simp [life, Life.isOver] at stopped
  | touched touched => exact touched.over_eq.trans stopped

/-- A task that has not begun came from one that had not begun, or is new. -/
theorem Fate.opening {x : Nat} {c c' : Course} (h : Fate e e' x c c') {interrupted : Bool}
    (life : c'.life = .live .opening interrupted) :
    (∃ interrupted, c.life = .live .opening interrupted) ∧ (e.current = some (.course x) → e' = e) := by
  cases h with
  | kept away => exact ⟨⟨_, life⟩, away⟩
  | moved current moved => exact absurd life (moved.not_opening _)
  | touched touched away =>
    obtain ⟨b, before⟩ := touched.live life
    refine ⟨⟨b, before⟩, fun current => ?_⟩
    simpa [before, Life.isOver] using away current

/-- A task stays where its workflow has a step. -/
theorem Fate.fits {x : Nat} {c c' : Course} (h : Fate e e' x c c')
    (fits : ∀ stage interrupted, c.life = .live stage interrupted → stage.Fits c.execution.workflow.steps)
    {stage : Stage} {interrupted : Bool} (life : c'.life = .live stage interrupted) :
    stage.Fits c'.execution.workflow.steps := by
  rw [Execution.workflow_eq h.origin_eq]
  cases h with
  | kept => exact fits _ _ life
  | moved current moved =>
    cases moved with
    | advanced hl advance => exact advance.fits (fits _ _ hl) life
    | diverted hl => exact cancelCourse_fits (fits _ _ hl) life
  | touched touched =>
    obtain ⟨b, before⟩ := touched.live life
    exact fits _ _ before

theorem MovedDelivery.fits {d : Delivery} {eff : DeliveryEffect} (h : MovedDelivery e d eff)
    {next : DeliveryStage} {interrupted : Bool} (after : Engine.lifeAfter eff.move = .live next interrupted) :
    next.Fits := by
  cases h with
  | delivered _ delivers => cases delivers <;> cases after <;> trivial
  | @diverted stage life =>
    cases stage <;> cases after
    trivial

end Stages

namespace Engine

/-! ## Executions through an act -/

section Act

variable {e e' : Engine} {x : Nat} {c c' : Course}

theorem Outline.fate (h : Outline e e') (hx : e.courses[x]? = some c) :
    ∃ c', e'.courses[x]? = some c' ∧ Fate e e' x c c' := by
  cases h with
  | still => exact ⟨c, hx, .kept (fun _ => rfl) ⟨[], by simp, by simp⟩⟩
  | @course y d eff journal log current at_y moved =>
    have calls : ((e.realize y (eff.course d) eff journal log).handOn (.course y) eff.move).calls =
        e.calls ++ eff.notes := handOn_calls _ _ _
    rw [handOn_courses]
    have hlt : x < e.courses.length := (List.getElem?_eq_some_iff.mp hx).1
    simp only [realize] at calls ⊢
    rw [List.getElem?_append_left (by simpa using hlt)]
    -- an execution other than the one that moves is kept, and no note of that move is about it
    by_cases hxy : y = x
    · subst hxy
      obtain rfl : d = c := by simpa [at_y] using hx
      refine ⟨_, set_getElem? at_y, .moved current moved ?_ calls ?_⟩
      · rintro ⟨stage, go⟩
        rw [go]
        exact current
      · intro child born
        rw [handOn_courses]
        simp [born]
    · refine ⟨c, by rw [List.getElem?_set_ne hxy]; exact hx, .kept (fun hy => ?_) ⟨_, calls, fun n hn about => ?_⟩⟩
      · exact absurd (by simpa [current] using hy) hxy
      · exact absurd ((moved.notes_execution n hn).symm.trans about) hxy
  | @delivery k d eff journal log current at_k moved =>
    have calls : ((e.realizeDelivery k { d with life := lifeAfter eff.move } eff journal log).handOn (.delivery k)
        eff.move).calls = e.calls ++ eff.notes := handOn_calls _ _ _
    rw [handOn_courses]
    refine ⟨c, hx, .kept (fun hy => by simp [current] at hy) ⟨_, calls, fun n hn about => ?_⟩⟩
    obtain ⟨execution_eq, index_eq⟩ := moved.notes_about n hn
    exact ⟨d, List.mem_of_getElem? at_k, execution_eq.symm.trans about, index_eq.symm⟩
  | other unmoved elsewhere =>
    obtain ⟨touched, born, courses, pointwise, -⟩ := elsewhere.courses
    obtain ⟨c', hc', hcc'⟩ := pointwise.2 x c hx
    refine ⟨c', ?_, .touched hcc' (fun current => unmoved x c current hx) elsewhere.calls⟩
    rw [courses, List.getElem?_append_left (List.getElem?_eq_some_iff.mp hc').1]
    exact hc'

theorem Outline.length_le (h : Outline e e') : e.courses.length ≤ e'.courses.length := by
  rcases Nat.eq_zero_or_pos e.courses.length with h0 | hpos
  · omega
  · have hlt : e.courses.length - 1 < e.courses.length := by omega
    obtain ⟨c', hc', -⟩ := h.fate (List.getElem?_eq_getElem hlt)
    have := (List.getElem?_eq_some_iff.mp hc').1
    omega

/-- An execution that an act brings is the last one; the host had it accepted, or a parent spawned it. -/
theorem Outline.newborn (h : Outline e e') (hx' : e'.courses[x]? = some c') (hx : e.courses[x]? = none) :
    x = e.courses.length ∧ ∃ execution, c' = .fresh execution ∧
      ((∃ workflow state, execution = .root e.clock workflow state) ∨
        ∃ p c eff, e.current = some (.course p) ∧ e.courses[p]? = some c ∧ Moved e p c eff ∧
          eff.born = some execution) := by
  have hle : e.courses.length ≤ x := List.getElem?_eq_none_iff.mp hx
  -- at most one execution is added, at the end of the list
  have last : ∀ (l : List Course) (born : Option Execution), l.length = e.courses.length →
      (l ++ (born.map Course.fresh).toList)[x]? = some c' →
      x = e.courses.length ∧ ∃ execution, c' = .fresh execution ∧ born = some execution := by
    intro l born hl hget
    rw [List.getElem?_append_right (by omega), hl] at hget
    cases born with
    | none => simp at hget
    | some execution =>
      obtain ⟨hi, heq⟩ := List.getElem?_eq_some_iff.mp hget
      have h0 : x - e.courses.length = 0 := by simp at hi; omega
      refine ⟨by omega, execution, ?_, rfl⟩
      simpa [h0] using heq.symm
  cases h with
  | still => rw [hx] at hx'; cases hx'
  | @course p d eff journal log current at_p moved =>
    rw [handOn_courses] at hx'
    obtain ⟨hlen, execution, rfl, born⟩ := last _ _ (by simp) hx'
    exact ⟨hlen, execution, rfl, .inr ⟨p, d, eff, current, at_p, moved, born⟩⟩
  | @delivery k d eff journal log current at_k moved =>
    rw [handOn_courses] at hx'
    change e.courses[x]? = _ at hx'
    rw [hx] at hx'
    cases hx'
  | other unmoved elsewhere =>
    obtain ⟨touched, born, courses, pointwise, root⟩ := elsewhere.courses
    rw [courses] at hx'
    obtain ⟨hlen, execution, rfl, hborn⟩ := last _ _ pointwise.1 hx'
    exact ⟨hlen, execution, rfl, .inl (root execution hborn)⟩

theorem Outline.frame (h : Outline e e') :
    e'.settings = e.settings ∧ e'.process = e.process ∧ e'.bus = e.bus := by
  cases h with
  | still => exact ⟨rfl, rfl, rfl⟩
  | course | delivery => exact ⟨handOn_settings _ _ _, handOn_process _ _ _, handOn_bus _ _ _⟩
  | other unmoved elsewhere => exact ⟨elsewhere.settings, elsewhere.process, elsewhere.bus⟩

/-- What an act does to a detached call, and how one comes to be. -/
theorem Outline.delivery_fate {k : Nat} {d' : Delivery} (h : Outline e e') (hk : e'.deliveries[k]? = some d') :
    (∃ d, e.deliveries[k]? = some d ∧ (SignaledDelivery d d' ∨ ∃ eff, e.current = some (.delivery k) ∧
      MovedDelivery e d eff ∧ d' = { d with life := lifeAfter eff.move })) ∨
    ∃ x c eff, e.current = some (.course x) ∧ e.courses[x]? = some c ∧ Moved e x c eff ∧ eff.dispatched = some d' ∧
      e'.courses[x]? = some (eff.course c) := by
  cases h with
  | still => exact .inl ⟨d', hk, .inl (.inl rfl)⟩
  | @course x c eff journal log current at_x moved =>
    have after : (e.realize x (eff.course c) eff journal log).courses[x]? = some (eff.course c) := by
      have hlt : x < e.courses.length := (List.getElem?_eq_some_iff.mp at_x).1
      simp [realize, List.getElem?_append_left, hlt]
    rw [handOn_deliveries] at hk
    rw [handOn_courses]
    simp only [realize] at hk
    rcases Nat.lt_or_ge k e.deliveries.length with hlt | hge
    · rw [List.getElem?_append_left hlt] at hk
      exact .inl ⟨d', hk, .inl (.inl rfl)⟩
    · rw [List.getElem?_append_right hge] at hk
      refine .inr ⟨x, c, eff, current, at_x, moved, ?_, after⟩
      simpa using List.mem_of_getElem? hk
  | @delivery j d eff journal log current at_j moved =>
    rw [handOn_deliveries] at hk
    simp only [realizeDelivery] at hk
    by_cases hjk : j = k
    · subst hjk
      rw [set_getElem? at_j] at hk
      exact .inl ⟨d, at_j, .inr ⟨eff, current, moved, by simpa using hk.symm⟩⟩
    · rw [List.getElem?_set_ne hjk] at hk
      exact .inl ⟨d', hk, .inl (.inl rfl)⟩
  | other unmoved elsewhere =>
    have hlt : k < e.deliveries.length := by
      rw [← elsewhere.deliveries.1]
      exact (List.getElem?_eq_some_iff.mp hk).1
    obtain ⟨b, hb, signaled⟩ := elsewhere.deliveries.2 k _ (List.getElem?_eq_getElem hlt)
    obtain rfl : d' = b := by simpa [hk] using hb
    exact .inl ⟨_, List.getElem?_eq_getElem hlt, .inl signaled⟩

/-- Calls are noted one after another, for executions that exist. -/
theorem Outline.calls_append (h : Outline e e') (orderly : e.Orderly) :
    ∃ notes, e'.calls = e.calls ++ notes ∧ ∀ n ∈ notes, n.execution < e.courses.length := by
  cases h with
  | still => exact ⟨[], by simp, by simp⟩
  | @course x c eff journal log current at_x moved =>
    refine ⟨eff.notes, handOn_calls _ _ _, fun n hn => ?_⟩
    rw [moved.notes_execution n hn]
    exact (List.getElem?_eq_some_iff.mp at_x).1
  | @delivery k d eff journal log current at_k moved =>
    refine ⟨eff.notes, handOn_calls _ _ _, fun n hn => ?_⟩
    rw [(moved.notes_about n hn).1]
    exact orderly.delivery_for d (List.mem_of_getElem? at_k)
  | other unmoved elsewhere => exact ⟨[], by simp [elsewhere.calls], by simp⟩

end Act

/-! ## Order is kept -/

section Order

variable {e e' : Engine}

theorem rootName_text {w : Workflow} (h : w.name = .null ∨ ∃ s, w.name = .text s) : ∃ s, w.rootName = .text s := by
  unfold Workflow.rootName
  split
  · exact ⟨_, rfl⟩
  · rcases h with h | h
    · simp_all [Datum.isVacant]
    · exact h

theorem childName_text {w : Workflow} (h : w.name = .null ∨ ∃ s, w.name = .text s) (position : Nat) :
    ∃ s, w.childName position = .text s := by
  unfold Workflow.childName
  split
  · exact ⟨_, rfl⟩
  · rcases h with h | h
    · simp_all [Datum.isVacant]
    · exact h

/-- **Order is kept** by every act after which all names can be part of a path. -/
theorem orderly_act (orderly : e.Orderly) (h : Outline e e') (named : e'.WellNamed) : e'.Orderly where
  texts := by
    intro c' hc'
    obtain ⟨x, hx'⟩ := List.mem_iff_getElem?.mp hc'
    cases hx : e.courses[x]? with
    | some c =>
      obtain ⟨d, hd, fate⟩ := h.fate hx
      obtain rfl : c' = d := by simpa [hx'] using hd
      rw [Execution.path_eq fate.origin_eq]
      exact orderly.texts c (List.mem_of_getElem? hx)
    | none =>
      obtain ⟨-, execution, rfl, ⟨workflow, state, rfl⟩ | ⟨p, c, eff, -, hp, moved, born⟩⟩ := h.newborn hx' hx
      -- a new path is the root name, or the path of the parent with one name more
      · obtain ⟨s, hs⟩ := rootName_text (named _ hc')
        exact ⟨[s], by simpa [Course.fresh, Execution.root, Execution.idle] using hs⟩
      · obtain ⟨position, workflow, rest, -, -, rfl⟩ := moved.born_eq born
        obtain ⟨names, hn⟩ := orderly.texts c (List.mem_of_getElem? hp)
        obtain ⟨s, hs⟩ := childName_text (named _ hc') position
        refine ⟨names ++ [s], ?_⟩
        simp only [Course.fresh, Execution.child, Execution.idle] at hs ⊢
        rw [hn, hs, List.map_append]
        rfl
  fits := by
    intro c' hc' stage interrupted life
    obtain ⟨x, hx'⟩ := List.mem_iff_getElem?.mp hc'
    cases hx : e.courses[x]? with
    | some c =>
      obtain ⟨d, hd, fate⟩ := h.fate hx
      obtain rfl : c' = d := by simpa [hx'] using hd
      exact fate.fits (orderly.fits c (List.mem_of_getElem? hx)) life
    | none =>
      obtain ⟨-, execution, rfl, -⟩ := h.newborn hx' hx
      cases life
      trivial
  delivery_fits := by
    intro d' hd' stage interrupted life
    obtain ⟨k, hk'⟩ := List.mem_iff_getElem?.mp hd'
    rcases h.delivery_fate hk' with ⟨d, hk, (rfl | rfl) | ⟨eff, -, moved, rfl⟩⟩ | ⟨x, c, eff, -, -, moved, born, -⟩
    · exact orderly.delivery_fits _ (List.mem_of_getElem? hk) _ _ life
    · cases hl : d.life with
      | live s i =>
        simp only [hl, Life.interrupt, Life.live.injEq] at life
        exact life.1 ▸ orderly.delivery_fits d (List.mem_of_getElem? hk) s i hl
      | ended ending => simp [hl, Life.interrupt] at life
    · exact moved.fits life
    · obtain ⟨index, step, handler, rfl, -⟩ := moved.dispatched_eq born
      cases life
      trivial
  delivery_for := by
    intro d' hd'
    obtain ⟨k, hk'⟩ := List.mem_iff_getElem?.mp hd'
    refine Nat.lt_of_lt_of_le ?_ h.length_le
    rcases h.delivery_fate hk' with ⟨d, hk, (rfl | rfl) | ⟨eff, -, moved, rfl⟩⟩ | ⟨x, c, eff, -, hx, moved, born, -⟩
    · exact orderly.delivery_for _ (List.mem_of_getElem? hk)
    · exact orderly.delivery_for d (List.mem_of_getElem? hk)
    · exact orderly.delivery_for d (List.mem_of_getElem? hk)
    · obtain ⟨index, step, handler, rfl, -⟩ := moved.dispatched_eq born
      exact (List.getElem?_eq_some_iff.mp hx).1

end Order

/-! ## Induction over runs with a calm bus -/

/-- A state that an engine can be in, with a calm bus and names that can be part of a path. -/
structure Sound (e : Engine) : Prop where
  reachable : e.Reachable
  calm : e.Calm
  named : e.WellNamed
  orderly : e.Orderly

section Induction

variable {P : Engine → Act → Prop} {e e' : Engine} {a : Act}

theorem fresh_orderly (settings : Settings) (process : State → Step → Option Value → Except Raised Transition)
    (bus : Option (Lifecycle → Reaction)) (registry : Registry Handler) :
    (fresh settings process bus registry).Orderly := by
  constructor <;> simp [fresh]

theorem Sound.happens (h : e.Sound) (a : Act) : Happens e a (e.act a) := act_happens h.calm h.orderly a

theorem Sound.outline (h : e.Sound) (a : Act) : Outline e (e.act a) := act_outline h.calm h.orderly a

theorem Reachable.sound (h : e.Reachable) (calm : e.Calm) (named : e.WellNamed) : e.Sound := by
  refine ⟨h, calm, named, ?_⟩
  obtain ⟨settings, process, bus, registry, run⟩ := h
  induction run with
  | refl => exact fresh_orderly settings process bus registry
  | @step e₁ a run _ ih =>
    have last : Reaches anyOrder e₁ (e₁.act a) := .single trivial
    have orderly := ih (last.calm_iff.mp calm) (last.wellNamed named)
    exact orderly_act orderly (act_outline (last.calm_iff.mp calm) orderly _) named

theorem Sound.of_reaches (h : e'.Sound) (reachable : e.Reachable) (run : Reaches P e e') : e.Sound :=
  reachable.sound (run.calm_iff.mp h.calm) (run.wellNamed h.named)

/-- What holds of a fresh engine and is kept by every act holds of every sound state. -/
theorem Sound.induction {I : Engine → Prop}
    (fresh : ∀ settings process bus registry, I (fresh settings process bus registry))
    (step : ∀ e a, e.Sound → (e.act a).Sound → Outline e (e.act a) → I e → I (e.act a)) (h : e.Sound) : I e := by
  obtain ⟨settings, process, bus, registry, run⟩ := h.reachable
  induction run with
  | refl => exact fresh settings process bus registry
  | @step e₁ a before _ ih =>
    have reachable : e₁.Reachable := ⟨settings, process, bus, registry, before⟩
    have sound := h.of_reaches reachable (Reaches.single trivial : Reaches anyOrder e₁ (e₁.act a))
    exact step e₁ a sound h (sound.outline a) (ih sound)

/-- What holds at the beginning of a run and is kept by the acts that the run admits holds at its end. -/
theorem Reaches.induction {I : Engine → Prop} (run : Reaches P e e') (reachable : e.Reachable) (h : e'.Sound)
    (base : I e) (step : ∀ e₁ a, Reaches P e e₁ → e₁.Sound → (e₁.act a).Sound → P e₁ a → Outline e₁ (e₁.act a) →
      I e₁ → I (e₁.act a)) : I e' := by
  induction run with
  | refl => exact base
  | @step e₁ a before admitted ih =>
    have sound := h.of_reaches (reachable.trans (before.mono fun _ _ _ => trivial)) (Reaches.single admitted)
    exact step e₁ a before sound h admitted (sound.outline a) (ih sound)

/-- An execution stays what it was accepted as. -/
theorem Reaches.origin {x : Nat} {c : Course} (run : Reaches P e e') (reachable : e.Reachable)
    (sound : e'.Sound) (at_x : e.courses[x]? = some c) :
    ∃ c', e'.courses[x]? = some c' ∧ c'.execution.origin = c.execution.origin := by
  refine run.induction (I := fun e => ∃ c', e.courses[x]? = some c' ∧ c'.execution.origin = c.execution.origin)
    reachable sound ⟨c, at_x, rfl⟩ ?_
  rintro e₁ a _ _ _ _ outline ⟨c₁, at_x₁, origin⟩
  obtain ⟨c', at_x', fate⟩ := outline.fate at_x₁
  exact ⟨c', at_x', fate.origin_eq.trans origin⟩

end Induction

end Engine

end Stepflow
