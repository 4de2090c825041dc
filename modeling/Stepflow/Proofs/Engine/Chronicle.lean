import Stepflow.Proofs.Engine.Announcing
import Stepflow.Proofs.Engine.Narration
import Stepflow.Proofs.Engine.Statuses

/-!
# Stepflow.Proofs.Engine.Chronicle — all that is announced of an execution

* `Engine.told`: the announcements that the task of an execution makes; `Engine.reported`: those of the recovery of a step.
  What is announced of an execution is told by its task or reported of a step that was given to a detached call.
* `Narrating`: what is told goes with where an execution stands.  `Reporting`: what is reported of a step that was given
  away goes with how the detached call has ended.  `Sound.announced`: so it is in every sound state.
* `chronicle_of_reachable`: what this comes to in every state, in the next act and for good.
-/

namespace Stepflow

/-! ## Who announces -/

/-- A move announces things about the execution that moves, and that a step was recovered only if it has called a resolver
for it and waits. -/
theorem Moved.announces_own {e : Engine} {x : Nat} {c : Course} {eff : Effect} (h : Moved e x c eff) {event : Lifecycle}
    (mem : event ∈ eff.events) : event.execution = x ∧ ∀ y i stepType message,
      event = .stepRecovered y i stepType message → ∃ handler script, c.life = .live (.calling i handler script) false := by
  cases h with
  | diverted => simp at mem
  | advanced life advance =>
    cases advance <;> simp only [List.mem_singleton, List.not_mem_nil] at mem <;> subst mem <;>
      refine ⟨rfl, fun y i stepType message eq => ?_⟩ <;> cases eq
    exact ⟨_, _, life⟩

/-- An execution that has ended announces nothing. -/
theorem Moved.mute_of_finished {e : Engine} {x : Nat} {c : Course} {eff : Effect} {maxDepth : Int} (h : Moved e x c eff)
    (stands : Stands maxDepth c.execution c.scheduled c.life) (finished : c.execution.isFinished = true) :
    eff.events = [] := by
  cases h with
  | diverted => rfl
  | advanced life advance =>
    rw [life] at stands
    cases stands with
    | unbegun unbegun => simp [Execution.isFinished, unbegun.status_eq, Status.isFinished] at finished
    | admitted running | reaching running | calling running | holding running | handled running | dispatched running
    | finishing running | canceling running => simp [running.unfinished] at finished
    | spawning spent | completing spent => simp [spent.unfinished] at finished
    | closing =>
      cases advance with
      | closed => rfl
    | leaving =>
      cases advance with
      | left => rfl

/-- What a detached call that has ended announces. -/
def Delivery.reports (d : Delivery) : List (Except Raised (Option Value)) → List Lifecycle
  | [.error (.failure f)] =>
    match d.handler.resolver.policy with
    | .swallow => [.stepRecovered d.execution d.index d.step.stepType f.message]
    | .propagate => []
  | _ => []

/-- The call has not ended. -/
def Delivery.Underway (d : Delivery) : Prop :=
  ∃ stage interrupted, d.life = .live stage interrupted ∧
    (stage = .entering ∨ (∃ script, stage = .calling script) ∨ ∃ next canceled, stage = .holding next canceled)

/-- What a detached call announces is about its step. -/
theorem MovedDelivery.announces_own {e : Engine} {d : Delivery} {eff : DeliveryEffect} (h : MovedDelivery e d eff)
    {event : Lifecycle} (mem : event ∈ eff.events) :
    ∃ message, event = .stepRecovered d.execution d.index d.step.stepType message := by
  cases h with
  | diverted => simp at mem
  | delivered _ delivers =>
    cases delivers <;> simp only [List.mem_singleton, List.not_mem_nil] at mem
    exact ⟨_, mem⟩

/-- The end of a detached call is announced, if it is, in the move that ends it. -/
theorem MovedDelivery.reports {eff : DeliveryEffect} {endings : List (Except Raised (Option Value))}
    {e : Engine} {d : Delivery} (h : MovedDelivery e d eff) (underway : d.Underway → endings = []) :
    (Delivery.Underway { d with life := Engine.lifeAfter eff.move } →
      endings ++ endingsIn eff.notes d.execution d.index = []) ∧
    (d.reports endings ++ eff.events.filter fun
      | .stepRecovered y j _ _ => y == d.execution && j == d.index
      | _ => false) = d.reports (endings ++ endingsIn eff.notes d.execution d.index) := by
  cases h with
  | @diverted stage life =>
    refine ⟨fun after => ?_, by simp [endingsIn]⟩
    obtain ⟨next, interrupted, life', calls⟩ := after
    cases stage <;> simp [Engine.cancelDelivery, Engine.lifeAfter] at life'
    simp [endingsIn, underway ⟨_, _, life, .inr (.inr ⟨_, _, rfl⟩)⟩]
  | @delivered stage _ life delivers =>
    have calling : ∀ script, stage = .calling script → endings = [] :=
      fun script eq => underway ⟨_, _, life, .inr (.inl ⟨script, eq⟩)⟩
    cases delivers with
    | begun => simp [endingsIn, underway ⟨_, _, life, .inl rfl⟩]
    | remarked | slept | gaveWay | passed | barred => simp [endingsIn, calling _ rfl]
    | resumed => simp [endingsIn, underway ⟨_, _, life, .inr (.inr ⟨_, _, rfl⟩)⟩]
    | closed => simp [endingsIn, Delivery.Underway, Engine.lifeAfter]
    | answered | yielded => simp [endingsIn, calling _ rfl, Delivery.Underway, Engine.lifeAfter, Delivery.reports]
    | recovered swallow =>
      simp [endingsIn, calling _ rfl, Delivery.Underway, Engine.lifeAfter, Delivery.reports, swallow]
    | reported propagate =>
      simp [endingsIn, calling _ rfl, Delivery.Underway, Engine.lifeAfter, Delivery.reports, propagate]

namespace Engine

/-- The steps of executions for which detached calls were queued. -/
def givenAway (e : Engine) : List (Nat × Nat) := e.deliveries.map fun d => (d.execution, d.index)

/-- The announcement is one that a detached call makes. -/
def isReport (e : Engine) : Lifecycle → Bool
  | .stepRecovered x i _ _ => e.givenAway.contains (x, i)
  | _ => false

/-- What is announced of execution number `x`. -/
def heard (e : Engine) (x : Nat) : List Lifecycle := e.events.filter fun event => event.execution == x

/-- What the task of execution number `x` announces. -/
def told (e : Engine) (x : Nat) : List Lifecycle := (e.heard x).filter fun event => !e.isReport event

/-- What is announced of the recovery of a step of execution number `x`. -/
def reported (e : Engine) (x i : Nat) : List Lifecycle :=
  e.events.filter fun
    | .stepRecovered y j _ _ => y == x && j == i
    | _ => false

section Told

variable {e e' : Engine} {x i : Nat} {c c' : Course} {news : List Lifecycle}

theorem heard_append (events : e'.events = e.events ++ news) :
    e'.heard x = e.heard x ++ news.filter fun event => event.execution == x := by
  rw [heard, events, List.filter_append]
  rfl

theorem isReport_congr (same : e'.givenAway = e.givenAway) (event : Lifecycle) : e'.isReport event = e.isReport event := by
  unfold isReport
  rw [same]

theorem told_append (events : e'.events = e.events ++ news)
    (same : ∀ event ∈ e.heard x, e'.isReport event = e.isReport event) :
    e'.told x = e.told x ++ (news.filter fun event => event.execution == x).filter fun event => !e'.isReport event := by
  rw [told, heard_append events, List.filter_append, told]
  congr 1
  exact List.filter_congr fun event mem => by rw [same event mem]

/-- What the task of an execution announces is told. -/
theorem told_own (events : e'.events = e.events ++ news)
    (same : ∀ event ∈ e.heard x, e'.isReport event = e.isReport event)
    (own : ∀ event ∈ news, event.execution = x ∧ e'.isReport event = false) : e'.told x = e.told x ++ news := by
  rw [told_append events same, List.filter_filter, List.filter_eq_self.mpr fun event mem => ?_]
  simp [own event mem]

/-- What others announce is not. -/
theorem told_others (events : e'.events = e.events ++ news)
    (same : ∀ event ∈ e.heard x, e'.isReport event = e.isReport event)
    (others : ∀ event ∈ news, event.execution = x → e'.isReport event = true) : e'.told x = e.told x := by
  rw [told_append events same, List.filter_filter, List.filter_eq_nil_iff.mpr fun event mem => ?_, List.append_nil]
  simpa using fun report about => by simp [others event mem about] at report

/-- What is told and heard when the host cancels an execution. -/
theorem told_of_canceled {y : Nat} {reason : String} (same : e'.givenAway = e.givenAway)
    (events : e'.events = e.events ++ [.canceled y reason]) :
    e'.told y = e.told y ++ [.canceled y reason] ∧ e'.heard y = e.heard y ++ [.canceled y reason] ∧
      ∀ x ≠ y, e'.told x = e.told x ∧ e'.heard x = e.heard x := by
  have told := fun x => told_append (x := x) events fun event _ => isReport_congr same event
  have heard := fun x => heard_append (x := x) events
  refine ⟨?_, ?_, fun x ne => ⟨?_, ?_⟩⟩
  · rw [told y]
    simp [Lifecycle.execution, isReport]
  · rw [heard y]
    simp [Lifecycle.execution]
  · rw [told x]
    simp [Lifecycle.execution, Ne.symm ne]
  · rw [heard x]
    simp [Lifecycle.execution, Ne.symm ne]

theorem told_of_silent (same : e'.givenAway = e.givenAway) (events : e'.events = e.events) (x : Nat) :
    e'.told x = e.told x ∧ e'.heard x = e.heard x := by
  have heard : e'.heard x = e.heard x := by rw [Engine.heard, events]; rfl
  refine ⟨?_, heard⟩
  rw [Engine.told, heard]
  exact List.filter_congr fun event _ => by rw [isReport_congr same event]

theorem reported_append (events : e'.events = e.events ++ news) : e'.reported x i = e.reported x i ++ news.filter fun
    | .stepRecovered y j _ _ => y == x && j == i
    | _ => false := by
  rw [reported, events, List.filter_append]
  rfl

theorem mem_reported {event : Lifecycle} : event ∈ e.reported x i ↔
    event ∈ e.heard x ∧ ∃ stepType message, event = .stepRecovered x i stepType message := by
  cases event <;> simp +contextual [reported, heard, Lifecycle.execution, and_comm, and_assoc]

theorem givenAway_of_signaled (h : Pointwise SignaledDelivery e.deliveries e'.deliveries) : e'.givenAway = e.givenAway := by
  refine List.ext_getElem (by simp [givenAway, h.1]) fun k lt' lt => ?_
  have lt : k < e.deliveries.length := by simpa [givenAway] using lt
  obtain ⟨d', at_k, signaled⟩ := h.2 k _ (List.getElem?_eq_getElem lt)
  obtain ⟨_, rfl⟩ := List.getElem?_eq_some_iff.mp at_k
  simp only [givenAway, List.getElem_map]
  rcases signaled with eq | eq <;> rw [eq]

/-- A detached call stays for the step for which it was queued. -/
theorem givenAway_of_set {k : Nat} {d : Delivery} {life : Life DeliveryStage} (at_k : e.deliveries[k]? = some d)
    (deliveries : e'.deliveries = e.deliveries.set k { d with life := life }) : e'.givenAway = e.givenAway := by
  rw [givenAway, deliveries, List.map_set]
  exact set_self (by simp [at_k])

theorem mem_givenAway : (x, i) ∈ e.givenAway ↔ ∃ d ∈ e.deliveries, d.execution = x ∧ d.index = i := by
  simp [givenAway]

/-- A step that was given away is one that the execution has dealt with or is about to record. -/
theorem Sound.lt_of_givenAway (sound : e.Sound) (hx : e.courses[x]? = some c) (given : (x, i) ∈ e.givenAway) :
    i < c.frontier := by
  obtain ⟨d, hd, rfl, rfl⟩ := mem_givenAway.mp given
  exact (sound.threading.given d c hd hx).lt

end Told

/-! ## Every sound state that announces -/

/-- What is announced of executions goes with where they stand, and their tasks begin it. -/
structure Narrating (e : Engine) : Prop where
  narrates : ∀ (x : Nat) (c : Course), e.courses[x]? = some c →
    Narrates x c.execution c.scheduled c.life (e.told x)
  unborn : ∀ x, e.courses.length ≤ x → e.heard x = []
  begun : ∀ x i, (x, i) ∈ e.givenAway → ∃ path, .started x path ∈ e.told x
  first : ∀ x, (e.heard x).head? = (e.told x).head?

/-- What is announced of the steps that were given to detached calls goes with how these have ended. -/
structure Reporting (e : Engine) : Prop where
  distinct : e.givenAway.Nodup
  underway : ∀ d ∈ e.deliveries, d.Underway → e.endings d.execution d.index = []
  reports : ∀ d ∈ e.deliveries, e.reported d.execution d.index = d.reports (e.endings d.execution d.index)

section Narrating

variable {e e' : Engine} {x : Nat} {c c' : Course} {news : List Lifecycle}

theorem Narrating.told_unborn (h : e.Narrating) (hx : e.courses.length ≤ x) : e.told x = [] := by
  rw [told, h.unborn x hx]
  rfl

/-- Where a task is about to turn to a step, no recovery is announced for that step. -/
theorem Narrating.unreported {index : Nat} (h : e.Narrating) (sound : e.Sound) (hx : e.courses[x]? = some c)
    (life : c.life = .live (.reaching index) false) : (x, index) ∉ e.givenAway ∧ e.reported x index = [] := by
  have stands := sound.standing.stands x c hx
  have narrates := h.narrates x c hx
  have recorded := (sound.threading.threads x c hx).recorded
  rw [life] at stands narrates
  cases stands with
  | reaching running =>
    have given : (x, index) ∉ e.givenAway := by
      intro mem
      have lt := sound.lt_of_givenAway hx mem
      simp [Course.frontier, life, running.status, running.length] at lt
    refine ⟨given, List.eq_nil_iff_forall_not_mem.mpr fun event mem => ?_⟩
    obtain ⟨heard, stepType, message, rfl⟩ := mem_reported.mp mem
    have told : Lifecycle.stepRecovered x index stepType message ∈ e.told x := by
      simp [Engine.told, heard, isReport, given]
    rw [narrates.of_plain running.status trivial] at told
    have lt := index_lt_of_announced recorded told rfl
    have length := running.length
    omega

/-- The step of a detached call that is queued was not given away, and nothing was announced of it. -/
theorem Narrating.isReport_dispatch {y : Nat} {eff : Effect} (h : e.Narrating) (sound : e.Sound)
    (at_y : e.courses[y]? = some c) (moved : Moved e y c eff)
    (deliveries : e'.deliveries = e.deliveries ++ eff.dispatched.toList) {event : Lifecycle} (mem : event ∈ e.heard x) :
    e'.isReport event = e.isReport event := by
  cases dispatched : eff.dispatched with
  | none => exact isReport_congr (by simp [givenAway, deliveries, dispatched]) event
  | some d =>
    obtain ⟨index, step, handler, rfl, life, -⟩ := moved.dispatched_eq dispatched
    obtain ⟨-, silent⟩ := h.unreported sound at_y life
    cases event with
    | stepRecovered z j stepType message =>
      have about : Lifecycle.stepRecovered z j stepType message ∈ e.heard z := by
        simp only [heard, List.mem_filter] at mem ⊢
        exact ⟨mem.1, by simp [Lifecycle.execution]⟩
      have ne : ¬ (z = y ∧ j = index) := by
        rintro ⟨rfl, rfl⟩
        have reported := mem_reported.mpr ⟨about, stepType, message, rfl⟩
        simp [silent] at reported
      simp [isReport, givenAway, deliveries, dispatched, ne]
    | _ => rfl

/-- The task of an execution moves. -/
theorem Narrating.course {y : Nat} {eff : Effect} (h : e.Narrating) (sound : e.Sound)
    (bus : e.bus.isSome = true) (at_y : e.courses[y]? = some c) (moved : Moved e y c eff)
    (deliveries : e'.deliveries = e.deliveries ++ eff.dispatched.toList)
    (events : e'.events = e.events ++ if e.bus.isSome then eff.events else []) :
    e'.told y = e.told y ++ eff.events ∧ e'.heard y = e.heard y ++ eff.events ∧
      ∀ x ≠ y, e'.told x = e.told x ∧ e'.heard x = e.heard x := by
  rw [if_pos bus] at events
  have same := fun x event (mem : event ∈ e.heard x) => h.isReport_dispatch sound at_y moved deliveries mem
  have about := fun event (mem : event ∈ eff.events) => (moved.announces_own mem).1
  refine ⟨told_own events (same y) fun event mem => ⟨about event mem, ?_⟩, ?_, fun x ne => ⟨?_, ?_⟩⟩
  · cases event with
    | stepRecovered z i stepType message =>
      obtain rfl : z = y := about _ mem
      -- a task reports of a step only while it holds the call itself, so the step was not given away
      obtain ⟨handler, script, life⟩ := (moved.announces_own mem).2 _ _ _ _ rfl
      have attached : eff.dispatched = none := by
        by_contra some
        obtain ⟨d, dispatched⟩ := Option.ne_none_iff_exists'.mp some
        obtain ⟨_, _, _, -, other, -⟩ := moved.dispatched_eq dispatched
        rw [life] at other
        cases other
      have stands := sound.standing.stands z c at_y
      rw [life] at stands
      cases stands with
      | calling running =>
        have kept : (z, i) ∉ e.givenAway := by
          intro given
          have lt := sound.lt_of_givenAway at_y given
          simp [Course.frontier, life, running.status, running.length] at lt
        have same : e'.givenAway = e.givenAway := by simp [givenAway, deliveries, attached]
        simp [isReport, same, kept]
    | _ => rfl
  · rw [heard_append events, List.filter_eq_self.mpr fun event mem => by simp [about event mem]]
  · exact told_others events (same x) fun event mem eq => absurd ((about event mem).symm.trans eq) (Ne.symm ne)
  · rw [heard_append events, List.filter_eq_nil_iff.mpr fun event mem => by simp [about event mem, Ne.symm ne],
      List.append_nil]

/-- A detached call moves. -/
theorem told_delivery {k : Nat} {d : Delivery} {eff : DeliveryEffect} (at_k : e.deliveries[k]? = some d)
    (moved : MovedDelivery e d eff)
    (deliveries : e'.deliveries = e.deliveries.set k { d with life := lifeAfter eff.move })
    (events : e'.events = e.events ++ news) (from_call : ∀ event ∈ news, event ∈ eff.events) :
    e'.told x = e.told x ∧ (x ≠ d.execution → e'.heard x = e.heard x) := by
  have same := givenAway_of_set at_k deliveries
  have about : ∀ event ∈ news, event.execution = d.execution ∧ e'.isReport event = true := by
    intro event mem
    have mem := from_call event mem
    obtain ⟨message, rfl⟩ := moved.announces_own mem
    have given : (d.execution, d.index) ∈ e.givenAway := mem_givenAway.mpr ⟨d, List.mem_of_getElem? at_k, rfl, rfl⟩
    exact ⟨rfl, by simp [isReport, same, given]⟩
  refine ⟨told_others events (fun event _ => isReport_congr same event) fun event mem _ => (about event mem).2, fun ne => ?_⟩
  rw [heard_append events, List.filter_eq_nil_iff.mpr fun event mem => by simp [about event mem, Ne.symm ne],
    List.append_nil]

/-- An execution that an act brings has announced nothing. -/
theorem Narrating.newborn (h : e.Narrating) (outline : Outline e e') (hx' : e'.courses[x]? = some c')
    (hx : e.courses[x]? = none) (same : e'.told x = e.told x) :
    Narrates x c'.execution c'.scheduled c'.life (e'.told x) := by
  obtain ⟨-, execution, rfl, -⟩ := outline.newborn hx' hx
  rw [same, h.told_unborn (List.getElem?_eq_none_iff.mp hx)]
  exact .unbegun (outline.newborn_unbegun hx' hx).status_eq

theorem mem_append_of_dispatched {i : Nat} {new : Option Delivery} {d : Delivery} (mem : (x, i) ∈ e'.givenAway)
    (deliveries : e'.deliveries = e.deliveries ++ new.toList) (dispatched : new = some d) :
    (x, i) ∈ e.givenAway ∨ x = d.execution ∧ i = d.index := by
  simpa [givenAway, deliveries, dispatched] using mem

/-- What one act, which makes only execution number `y` announce something, makes of the announcements. -/
theorem Narrating.of_one {y : Nat} (h : e.Narrating) (outline : Outline e e') (old : y < e.courses.length)
    (told_y : e'.told y = e.told y ++ news) (heard_y : e'.heard y = e.heard y ++ news)
    (others : ∀ x ≠ y, e'.told x = e.told x ∧ e'.heard x = e.heard x)
    (given : ∀ x i, (x, i) ∈ e'.givenAway → (x, i) ∈ e.givenAway ∨ x = y ∧ ∃ path, .started y path ∈ e'.told y)
    (stays : ∀ x c, x ≠ y → e.courses[x]? = some c → ∃ c', e'.courses[x]? = some c' ∧ Signaled c c')
    (narrates : ∀ c', e'.courses[y]? = some c' → Narrates y c'.execution c'.scheduled c'.life (e'.told y)) :
    e'.Narrating where
  narrates x c' hx' := by
    by_cases same : x = y
    · exact same ▸ narrates c' (same ▸ hx')
    · cases hx : e.courses[x]? with
      | none => exact h.newborn outline hx' hx (others x same).1
      | some c =>
        obtain ⟨c'', hx'', signaled⟩ := stays x c same hx
        obtain rfl : c' = c'' := Option.some.inj (hx'.symm.trans hx'')
        rw [(others x same).1]
        exact (h.narrates x c hx).signaled signaled
  unborn x hx := by
    have le := Nat.le_trans outline.length_le hx
    rw [(others x (by omega)).2]
    exact h.unborn x le
  begun x i mem := by
    rcases given x i mem with old | ⟨rfl, path, began⟩
    · obtain ⟨path, began⟩ := h.begun x i old
      by_cases same : x = y
      · exact ⟨path, by rw [same, told_y]; exact List.mem_append_left _ (same ▸ began)⟩
      · exact ⟨path, (others x same).1 ▸ began⟩
    · exact ⟨path, began⟩
  first x := by
    by_cases same : x = y
    · rw [same, told_y, heard_y, List.head?_append, List.head?_append, h.first]
    · rw [(others x same).1, (others x same).2]
      exact h.first x

/-- A detached call moves. -/
theorem Narrating.delivered {k : Nat} {d : Delivery} {eff : DeliveryEffect} (h : e.Narrating) (sound : e.Sound)
    (at_k : e.deliveries[k]? = some d) (moved : MovedDelivery e d eff) (courses : e'.courses = e.courses)
    (deliveries : e'.deliveries = e.deliveries.set k { d with life := lifeAfter eff.move })
    (events : e'.events = e.events ++ eff.events) : e'.Narrating := by
  have told := fun x => told_delivery (x := x) at_k moved deliveries events fun _ => id
  have mem := List.mem_of_getElem? at_k
  refine ⟨fun x c hx => ?_, fun x hx => ?_, fun x i given => ?_, fun x => ?_⟩
  · rw [(told x).1]
    exact h.narrates x c (courses ▸ hx)
  · have lt := sound.orderly.delivery_for d mem
    rw [courses] at hx
    rw [(told x).2 (by omega)]
    exact h.unborn x hx
  · rw [(told x).1]
    exact h.begun x i (givenAway_of_set at_k deliveries ▸ given)
  · rw [(told x).1, ← h.first x]
    by_cases same : x = d.execution
    · subst same
      obtain ⟨path, began⟩ := h.begun d.execution d.index (mem_givenAway.mpr ⟨d, mem, rfl, rfl⟩)
      have heard : e.heard d.execution ≠ [] := List.ne_nil_of_mem (List.mem_of_mem_filter began)
      rw [heard_append events, List.head?_append_of_ne_nil _ heard]
    · rw [(told x).2 same]

/-- Nothing is announced. -/
theorem Narrating.silent (h : e.Narrating) (outline : Outline e e') (silent : Silent e e') : e'.Narrating := by
  have same := givenAway_of_signaled silent.deliveries
  have kept := told_of_silent same silent.events
  refine ⟨fun x c' hx' => ?_, fun x hx => ?_, fun x i mem => ?_, fun x => ?_⟩
  · cases hx : e.courses[x]? with
    | none => exact h.newborn outline hx' hx (kept x).1
    | some c =>
      obtain ⟨c'', hx'', signaled⟩ := silent.courses x c hx
      obtain rfl : c' = c'' := Option.some.inj (hx'.symm.trans hx'')
      rw [(kept x).1]
      exact (h.narrates x c hx).signaled signaled
  · rw [(kept x).2]
    exact h.unborn x (Nat.le_trans outline.length_le hx)
  · rw [(kept x).1]
    exact h.begun x i (same ▸ mem)
  · rw [(kept x).1, (kept x).2]
    exact h.first x

theorem Narrating.act (h : e.Narrating) (sound : e.Sound) (bus : e.bus.isSome = true) (a : Act) : (e.act a).Narrating := by
  have outline := sound.outline a
  -- one case for each that can announce: a task, a detached call, a cancellation by the host, nobody
  cases sound.announces a with
  | @course y c eff current at_y moved after others deliveries calls events =>
    obtain ⟨told_y, heard_y, rest⟩ := h.course sound bus at_y moved deliveries events
    have stands := sound.standing.stands y c at_y
    have narrates := h.narrates y c at_y
    refine h.of_one outline (List.getElem?_eq_some_iff.mp at_y).1 told_y heard_y rest (fun x i mem => ?_)
      (fun x c' ne hx => ?_) fun c' hx' => ?_
    · cases dispatched : eff.dispatched with
      | none => exact .inl (by simpa [givenAway, deliveries, dispatched] using mem)
      | some d =>
        obtain ⟨index, step, handler, rfl, life, -⟩ := moved.dispatched_eq dispatched
        refine (mem_append_of_dispatched mem deliveries dispatched).imp id fun ⟨eq, _⟩ => ⟨eq, c.execution.path, ?_⟩
        rw [life] at stands narrates
        cases stands with
        | reaching running =>
          rw [told_y, narrates.of_plain running.status trivial]
          exact List.mem_append_left _ List.mem_cons_self
    · exact ⟨c', (others x ne (List.getElem?_eq_some_iff.mp hx).1).trans hx, .refl c'⟩
    · obtain rfl : c' = eff.course c := Option.some.inj (hx'.symm.trans after)
      rw [told_y]
      exact moved.narrates stands narrates
  | delivery at_k moved courses deliveries calls events =>
    rw [if_pos bus] at events
    exact h.delivered sound at_k moved courses deliveries events
  | @canceled y c c' names reason at_y marked names_eq execution courses deliveries calls events =>
    rw [if_pos bus] at events
    have same := givenAway_of_signaled deliveries
    obtain ⟨told_y, heard_y, others⟩ := told_of_canceled same events
    refine h.of_one outline (List.getElem?_eq_some_iff.mp at_y).1 told_y heard_y others
      (fun x i mem => .inl (same ▸ mem)) (fun x c₁ ne hx => ?_) fun c₁ hx' => ?_
    · exact ⟨c₁, by rw [courses, List.getElem?_set_ne (Ne.symm ne)]; exact hx, .refl c₁⟩
    · obtain rfl : c' = c₁ := by simpa [courses, set_getElem? at_y] using hx'
      rw [told_y]
      exact (h.narrates y c at_y).marked (sound.standing.stands y c at_y) marked execution
  | silent silent => exact h.silent outline silent

end Narrating

section Reporting

variable {e e' : Engine} {x : Nat} {c : Course} {d : Delivery} {news : List Lifecycle}

/-- What an act adds to notes and announcements does not concern a detached call. -/
theorem Reporting.aside (h : e.Reporting) (mem : d ∈ e.deliveries) {notes : List CallNote}
    (calls : e'.calls = e.calls ++ notes) (events : e'.events = e.events ++ news)
    (silent : ∀ result, CallNote.ended d.execution d.index result ∉ notes)
    (mute : ∀ stepType message, Lifecycle.stepRecovered d.execution d.index stepType message ∉ news) :
    (d.Underway → e'.endings d.execution d.index = []) ∧
      e'.reported d.execution d.index = d.reports (e'.endings d.execution d.index) := by
  have endings : e'.endings d.execution d.index = e.endings d.execution d.index := by
    rw [Engine.endings, calls, endingsIn_append, endingsIn_eq_nil silent, List.append_nil]
    rfl
  have reported : e'.reported d.execution d.index = e.reported d.execution d.index := by
    rw [reported_append events, List.filter_eq_nil_iff.mpr fun event mem => ?_, List.append_nil]
    cases event with
    | stepRecovered y j stepType message =>
      intro about
      simp only [Bool.and_eq_true, beq_iff_eq] at about
      obtain ⟨rfl, rfl⟩ := about
      exact mute stepType message mem
    | _ => simp
  rw [endings, reported]
  exact ⟨h.underway d mem, h.reports d mem⟩

/-- A detached call that is sent a cancellation has not ended for that. -/
theorem Reporting.signaled (h : e.Reporting) (deliveries : Pointwise SignaledDelivery e.deliveries e'.deliveries)
    (calls : e'.calls = e.calls) (events : e'.events = e.events ++ news)
    (mute : ∀ x i stepType message, Lifecycle.stepRecovered x i stepType message ∉ news) : e'.Reporting := by
  have all : ∀ d' ∈ e'.deliveries, (d'.Underway → e'.endings d'.execution d'.index = []) ∧
      e'.reported d'.execution d'.index = d'.reports (e'.endings d'.execution d'.index) := by
    intro d' mem'
    obtain ⟨k, at_k'⟩ := List.mem_iff_getElem?.mp mem'
    have lt : k < e.deliveries.length := deliveries.1 ▸ (List.getElem?_eq_some_iff.mp at_k').1
    obtain ⟨d, at_k⟩ : ∃ d, e.deliveries[k]? = some d := ⟨_, List.getElem?_eq_getElem lt⟩
    obtain ⟨d'', at_k'', signaled⟩ := deliveries.2 k d at_k
    obtain rfl : d' = d'' := Option.some.inj (at_k'.symm.trans at_k'')
    obtain ⟨underway, reports⟩ := h.aside (List.mem_of_getElem? at_k) (calls.trans (List.append_nil _).symm) events
      (by simp) fun _ _ => mute _ _ _ _
    -- a signal changes only whether the call is interrupted
    rcases signaled with rfl | rfl
    · exact ⟨underway, reports⟩
    · refine ⟨?_, reports⟩
      rintro ⟨stage, interrupted, life, calling⟩
      cases before : d.life with
      | live stage₀ interrupted₀ =>
        simp only [before, Life.interrupt, Life.live.injEq] at life
        exact underway ⟨stage₀, interrupted₀, before, life.1 ▸ calling⟩
      | ended ending => simp [before, Life.interrupt] at life
  exact ⟨givenAway_of_signaled deliveries ▸ h.distinct, fun d mem => (all d mem).1, fun d mem => (all d mem).2⟩

/-- What a move of an execution notes and announces of recoveries is about no step that was given away. -/
theorem Sound.not_given {y i : Nat} {eff : Effect} (sound : e.Sound) (at_y : e.courses[y]? = some c)
    (h : Moved e y c eff) (given : (y, i) ∈ e.givenAway) :
    (∀ result, CallNote.ended y i result ∉ eff.notes) ∧
      ∀ stepType message, Lifecycle.stepRecovered y i stepType message ∉ eff.events := by
  have lt := sound.lt_of_givenAway at_y given
  have stands := sound.standing.stands y c at_y
  refine ⟨fun result mem => ?_, fun stepType message mem => ?_⟩
  · have index : i = c.frontier := ((h.frontier stands).2 _ mem).1
    omega
  · obtain ⟨handler, script, life⟩ := (h.announces_own mem).2 _ _ _ _ rfl
    rw [life] at stands
    cases stands with
    | calling running =>
      simp [Course.frontier, life, running.status, running.length] at lt

theorem Reporting.course {y : Nat} {eff : Effect} (h : e.Reporting) (narrating : e.Narrating) (sound : e.Sound)
    (bus : e.bus.isSome = true) (at_y : e.courses[y]? = some c) (moved : Moved e y c eff)
    (deliveries : e'.deliveries = e.deliveries ++ eff.dispatched.toList) (calls : e'.calls = e.calls ++ eff.notes)
    (events : e'.events = e.events ++ if e.bus.isSome then eff.events else []) : e'.Reporting := by
  rw [if_pos bus] at events
  -- a move of an execution neither ends nor reports calls that were given away before
  have old : ∀ d ∈ e.deliveries, (d.Underway → e'.endings d.execution d.index = []) ∧
      e'.reported d.execution d.index = d.reports (e'.endings d.execution d.index) := by
    intro d mem
    by_cases ours : d.execution = y
    · have given : (y, d.index) ∈ e.givenAway := mem_givenAway.mpr ⟨d, mem, ours, rfl⟩
      obtain ⟨silent, mute⟩ := sound.not_given at_y moved given
      exact h.aside mem calls events (ours ▸ silent) (ours ▸ mute)
    · refine h.aside mem calls events (fun result mem => ours ?_) fun stepType message mem => ours ?_
      · exact moved.notes_execution _ mem
      · exact (moved.announces_own mem).1
  -- the call that is given away now has no notes yet, and nothing was announced of its step
  cases dispatched : eff.dispatched with
  | none =>
    have same : e'.deliveries = e.deliveries := by simp [deliveries, dispatched]
    refine ⟨?_, fun d mem => (old d (same ▸ mem)).1, fun d mem => (old d (same ▸ mem)).2⟩
    rw [givenAway, same]
    exact h.distinct
  | some d =>
    obtain ⟨index, step, handler, rfl, life, -, -, -, move⟩ := moved.dispatched_eq dispatched
    obtain ⟨kept, silent⟩ := narrating.unreported sound at_y life
    have nothing : eff.notes = [] ∧ eff.events = [] := by
      cases moved with
      | diverted => exact ⟨rfl, rfl⟩
      | advanced _ advance => cases advance <;> first | exact ⟨rfl, rfl⟩ | simp at dispatched
    have endings : e'.endings y index = [] := by
      have stands := sound.standing.stands y c at_y
      rw [Engine.endings, calls, nothing.1, List.append_nil]
      refine (sound.threading.threads y c at_y).silent index ?_
      rw [life] at stands
      cases stands with
      | reaching running => simp [Course.frontier, life, running.status, running.length]
    have reported : e'.reported y index = [] := by
      rw [reported_append events, nothing.2, silent]
      rfl
    have split : ∀ d' ∈ e'.deliveries, d' ∈ e.deliveries ∨ d' = ⟨y, index, step, handler, .live .entering false⟩ := by
      simp [deliveries, dispatched]
    refine ⟨?_, fun d' mem => ?_, fun d' mem => ?_⟩
    · have given : e'.givenAway = e.givenAway ++ [(y, index)] := by simp [givenAway, deliveries, dispatched]
      rw [given]
      exact List.nodup_append.mpr ⟨h.distinct, by simp, by
        rintro _ mem _ new rfl
        exact kept (List.mem_singleton.mp new ▸ mem)⟩
    · rcases split d' mem with mem | rfl
      · exact (old d' mem).1
      · exact fun _ => endings
    · rcases split d' mem with mem | rfl
      · exact (old d' mem).2
      · rw [endings, reported]
        rfl

theorem Reporting.delivery {k : Nat} {eff : DeliveryEffect} (h : e.Reporting) (bus : e.bus.isSome = true)
    (at_k : e.deliveries[k]? = some d) (moved : MovedDelivery e d eff)
    (deliveries : e'.deliveries = e.deliveries.set k { d with life := lifeAfter eff.move })
    (calls : e'.calls = e.calls ++ eff.notes)
    (events : e'.events = e.events ++ if e.bus.isSome then eff.events else []) : e'.Reporting := by
  rw [if_pos bus] at events
  have mem := List.mem_of_getElem? at_k
  have all : ∀ d' ∈ e'.deliveries, (d'.Underway → e'.endings d'.execution d'.index = []) ∧
      e'.reported d'.execution d'.index = d'.reports (e'.endings d'.execution d'.index) := by
    intro d' mem'
    obtain ⟨j, at_j'⟩ := List.mem_iff_getElem?.mp mem'
    rw [deliveries] at at_j'
    by_cases same : k = j
    · subst same
      obtain rfl := Option.some.inj ((set_getElem? at_k).symm.trans at_j')
      obtain ⟨underway, reports⟩ := moved.reports (h.underway d mem)
      have endings : e'.endings d.execution d.index =
          e.endings d.execution d.index ++ endingsIn eff.notes d.execution d.index := by
        rw [Engine.endings, calls, endingsIn_append]
        rfl
      refine ⟨fun after => endings.trans (underway after), ?_⟩
      dsimp only
      rw [reported_append events, h.reports d mem, endings]
      exact reports
    -- no two detached calls share execution and index, so the notes are about `d` alone
    · rw [List.getElem?_set_ne same] at at_j'
      have apart : ¬ (d'.execution = d.execution ∧ d'.index = d.index) := by
        rintro ⟨execution, index⟩
        refine same ((List.getElem?_inj ?_ h.distinct).mp ?_)
        · simpa [givenAway] using (List.getElem?_eq_some_iff.mp at_k).1
        · simp [givenAway, at_k, at_j', execution, index]
      refine h.aside (List.mem_of_getElem? at_j') calls events (fun result mem => ?_) fun stepType message mem => ?_
      · exact apart (moved.notes_about _ mem)
      · obtain ⟨_, eq⟩ := moved.announces_own mem
        injection eq with execution index
        exact apart ⟨execution, index⟩
  refine ⟨?_, fun d mem => (all d mem).1, fun d mem => (all d mem).2⟩
  rw [givenAway_of_set at_k deliveries]
  exact h.distinct

theorem Reporting.act (h : e.Reporting) (narrating : e.Narrating) (sound : e.Sound) (bus : e.bus.isSome = true)
    (a : Act) : (e.act a).Reporting := by
  cases sound.announces a with
  | course current at_y moved after others deliveries calls events =>
    exact h.course narrating sound bus at_y moved deliveries calls events
  | delivery at_k moved courses deliveries calls events => exact h.delivery bus at_k moved deliveries calls events
  | canceled at_y marked names_eq execution courses deliveries calls events =>
    exact h.signaled deliveries calls events (by simp [bus])
  | silent silent =>
    exact h.signaled silent.deliveries silent.calls (silent.events.trans (List.append_nil _).symm) (by simp)

/-- **What is announced**, in every sound state of an engine that announces. -/
theorem Sound.announced (h : e.Sound) : e.bus.isSome = true → e.Narrating ∧ e.Reporting := by
  refine h.induction (I := fun e => e.bus.isSome = true → e.Narrating ∧ e.Reporting) ?_ ?_
  · intro settings process bus registry _
    refine ⟨⟨?_, fun _ _ => rfl, ?_, fun _ => rfl⟩, ⟨List.nodup_nil, ?_, ?_⟩⟩ <;> simp [fresh, givenAway]
  · intro e a sound _ outline before bus
    rw [outline.frame.2.2] at bus
    obtain ⟨narrating, reporting⟩ := before bus
    exact ⟨narrating.act sound bus a, reporting.act narrating sound bus a⟩

end Reporting

/-! ## After the end -/

section Settled

variable {e e' : Engine} {x : Nat} {c c' : Course} {P : Engine → Act → Prop}

/-- An execution that has ended tells nothing more. -/
theorem Sound.told_finished (sound : e.Sound) (bus : e.bus.isSome = true) (hx : e.courses[x]? = some c)
    (finished : c.execution.isFinished = true) (a : Act) : (e.act a).told x = e.told x := by
  have stands := sound.standing.stands x c hx
  cases sound.announces a with
  | @course y c₁ eff current at_y moved after others deliveries calls events =>
    obtain ⟨told_y, -, rest⟩ := (sound.announced bus).1.course sound bus at_y moved deliveries events
    by_cases same : x = y
    · subst same
      obtain rfl : c = c₁ := Option.some.inj (hx.symm.trans at_y)
      rw [told_y, moved.mute_of_finished stands finished, List.append_nil]
    · exact (rest x same).1
  | delivery at_k moved courses deliveries calls events =>
    rw [if_pos bus] at events
    exact (told_delivery at_k moved deliveries events fun _ => id).1
  | @canceled y c₁ c₂ names reason at_y marked names_eq execution courses deliveries calls events =>
    rw [if_pos bus] at events
    refine ((told_of_canceled (givenAway_of_signaled deliveries) events).2.2 x ?_).1
    rintro rfl
    obtain rfl : c = c₁ := Option.some.inj (hx.symm.trans at_y)
    simp [Execution.isFinished, (marked.unbegun stands).status_eq, Status.isFinished] at finished
  | silent silent => exact (told_of_silent (givenAway_of_signaled silent.deliveries) silent.events x).1

/-- **After its end an execution tells nothing**, whatever happens. -/
theorem Reaches.told_finished (run : Reaches P e e') (sound : e'.Sound) (reachable : e.Reachable)
    (bus : e.bus.isSome = true) (hx : e.courses[x]? = some c) (finished : c.execution.isFinished = true) :
    e'.told x = e.told x := by
  refine (run.induction (I := fun e₁ => e₁.told x = e.told x ∧ e₁.bus.isSome = true ∧
    ∃ c₁, e₁.courses[x]? = some c₁ ∧ c₁.execution = c.execution) reachable sound ⟨rfl, bus, c, hx, rfl⟩ ?_).1
  rintro e₁ a - sound₁ - - outline ⟨told, bus₁, c₁, hx₁, same⟩
  have finished₁ : c₁.execution.isFinished = true := same ▸ finished
  refine ⟨(sound₁.told_finished bus₁ hx₁ finished₁ a).trans told, outline.frame.2.2 ▸ bus₁, ?_⟩
  obtain ⟨c₂, hx₂, progresses⟩ := outline.progresses sound₁.standing hx₁
  exact ⟨c₂, hx₂, (progresses.absorbed finished₁).trans same⟩

/-- Of an execution that has not begun nothing is announced. -/
theorem Narrating.heard_of_idle (h : e.Narrating) (hx : e.courses[x]? = some c) (idle : c.execution.status = .idle) :
    e.heard x = [] := by
  have first := h.first x
  rw [(h.narrates x c hx).tale.of_idle idle] at first
  exact List.head?_eq_none_iff.mp first

/-- An execution that is canceled before it begins announces that. -/
theorem Sound.heard_dropped (sound : e.Sound) (bus : e.bus.isSome = true) (hx : e.courses[x]? = some c)
    (idle : c.execution.status = .idle) {a : Act} (hx' : (e.act a).courses[x]? = some c')
    (canceled : c'.execution.status = .canceled) : ∃ reason, (e.act a).heard x = [.canceled x reason] := by
  have changed : c'.execution ≠ c.execution := fun eq => by simp [eq, idle] at canceled
  -- an idle execution is canceled by the host alone; its own task would begin it
  cases sound.announces a with
  | @course y c₁ eff current at_y moved after others =>
    by_cases same : x = y
    · subst same
      obtain rfl : c = c₁ := Option.some.inj (hx.symm.trans at_y)
      obtain rfl : c' = eff.course c := Option.some.inj (hx'.symm.trans after)
      cases moved with
      | diverted => exact absurd rfl changed
      | advanced life advance =>
        have stands := sound.standing.stands x c hx
        rw [life] at stands
        obtain ⟨_, opening⟩ := (stands.of_idle idle).2 rfl
        cases opening
        cases advance
        simp [Effect.course] at canceled
    · have kept := (others x same (List.getElem?_eq_some_iff.mp hx).1).trans hx
      exact absurd (congrArg Course.execution (Option.some.inj (hx'.symm.trans kept))) changed
  | delivery at_k moved courses =>
    rw [courses, hx] at hx'
    exact absurd (congrArg Course.execution (Option.some.inj hx').symm) changed
  | @canceled y c₁ c₂ names reason at_y marked names_eq execution courses deliveries calls events =>
    rw [if_pos bus] at events
    by_cases same : y = x
    · subst same
      refine ⟨reason, ?_⟩
      rw [(told_of_canceled (givenAway_of_signaled deliveries) events).2.1,
        (sound.announced bus).1.heard_of_idle hx idle]
      rfl
    · rw [courses, List.getElem?_set_ne same, hx] at hx'
      exact absurd (congrArg Course.execution (Option.some.inj hx').symm) changed
  | silent silent =>
    obtain ⟨c'', hx'', signaled⟩ := silent.courses x c hx
    obtain rfl : c' = c'' := Option.some.inj (hx'.symm.trans hx'')
    exact absurd signaled.execution changed

/-- Nothing is reported of an execution that never began. -/
theorem Narrating.heard_of_unturned (h : e.Narrating) (hx : e.courses[x]? = some c)
    (canceled : c.execution.status = .canceled) (unturned : c.execution.currentStep = none) : e.heard x = e.told x := by
  -- a step is given away only after the start has been announced
  have never : ∀ i, (x, i) ∉ e.givenAway := by
    intro i given
    obtain ⟨path, began⟩ := h.begun x i given
    have tale := (h.narrates x c hx).tale
    generalize e.told x = events at began tale
    cases tale with
    | stillborn => simp at began
    | canceled _ current => simp [unturned] at current
    | idle status | running status | spawning status | completed status | failed status | unprocessed status =>
      simp [canceled] at status
  refine (List.filter_eq_self.mpr fun event mem => ?_).symm
  cases event with
  | stepRecovered y i stepType message =>
    have about : y = x := by simpa [heard, Lifecycle.execution] using (List.mem_filter.mp mem).2
    simp [isReport, about, never i]
  | _ => rfl

end Settled

end Engine

/-! ## The chronicle of an execution -/

/-- All that is announced of execution number `x`, found as `a`. -/
structure Chronicle (e : Engine) (x : Nat) (a : Execution) : Prop where
  /-- What its own task has announced, with the schedule that its steps have come to. -/
  tale : ∃ scheduled, e.replay x a = some (a.state, scheduled) ∧ Tale x a scheduled (e.told x)
  /-- Steps are announced in their order, each at most once. -/
  ordered : ((e.told x).filterMap Lifecycle.stepIndex?).Pairwise (· < ·)
  /-- Its own task makes the first announcement. -/
  first : (e.heard x).head? = (e.told x).head?
  /-- Until it begins, and if it is canceled before, its own task makes all of them. -/
  alone : a.status = .idle ∨ a.status = .canceled ∧ a.currentStep = none → e.heard x = e.told x
  /-- Of a step that was given to a detached call the failure is announced that the call has ended with, if it is
  swallowed. -/
  reported : ∀ d ∈ e.deliveries, d.execution = x → e.reported x d.index = d.reports (e.endings x d.index)

namespace Engine

/-- **Announcements are faithful**: in every state that an engine with a calm bus and writable names can be in, what is
announced of an execution is what it is and what it has recorded; canceled before it begins, it announces only that; and
once it has ended, its task announces nothing more, whatever happens. -/
theorem chronicle_of_reachable {e : Engine} (reachable : e.Reachable) (calm : e.Calm) (announcing : e.bus.isSome = true)
    (named : e.WellNamed) {x : Nat} {c : Course} (hx : e.courses[x]? = some c) :
    Chronicle e x c.execution ∧
    (∀ a c', c.execution.status = .idle → (e.act a).courses[x]? = some c' → c'.execution.status = .canceled →
      ∃ reason, (e.act a).heard x = [.canceled x reason]) ∧
    ∀ P e', Reaches P e e' → e'.WellNamed → c.execution.isFinished = true → e'.told x = e.told x := by
  have sound := reachable.sound calm named
  obtain ⟨narrating, reporting⟩ := sound.announced announcing
  have threads := sound.threading.threads x c hx
  have tale := (narrating.narrates x c hx).tale
  refine ⟨⟨⟨c.scheduled, threads.replayed, tale⟩, tale.ordered threads.recorded, narrating.first x, ?_, ?_⟩, ?_, ?_⟩
  · rintro (idle | ⟨canceled, unturned⟩)
    · rw [narrating.heard_of_idle hx idle, tale.of_idle idle]
    · exact narrating.heard_of_unturned hx canceled unturned
  · rintro d mem rfl
    exact reporting.reports d mem
  · exact fun a c' idle hx' canceled => sound.heard_dropped announcing hx idle hx' canceled
  · intro P e' run named' finished
    have run' : Reaches anyOrder e e' := run.mono fun _ _ _ => trivial
    have sound' : e'.Sound := Reachable.sound (reachable.trans run') (run.calm_iff.mpr calm) named'
    exact run'.told_finished sound' reachable announcing hx finished

/-- A run in which a detached call waits while the execution that has queued it completes. -/
def newsRun : Engine :=
  let raises (name : String) (detached : Bool) (gating : Rehearsed.Gating) :=
    Rehearsed.resolver name .swallow detached ⟨none, gating, .raises (.failure .tooLarge)⟩ []
  let plans := Rehearsed.resolver "grant" .propagate false ⟨none, .ungated, .returns (.ok none)⟩ []
  let registry := ((Registry.empty.register "call" ⟨0, raises "call" true .gated⟩).register "fix"
    ⟨1, raises "fix" false .ungated⟩).register "grant" ⟨2, plans⟩
  let process (state : State) (step : Step) (_ : Option Value) : Except Raised Transition :=
    .ok ⟨state, if step.stepType = "grant" then
      [⟨[], .text "gift", some ⟨"coupon", none, true⟩, .empty, .empty⟩, ⟨[], .null, none, .empty, .empty⟩] else []⟩
  let steps := [⟨"call", .null, .empty, by decide⟩, ⟨"file", .null, .empty, by decide⟩,
    ⟨"fix", .null, .empty, by decide⟩, ⟨"grant", .null, .empty, by decide⟩]
  (fresh .standard process (some fun _ => .accept) registry).rehearse 40
    [.start ⟨steps, .text "trial", none, .empty, .empty⟩ .null]

/-- The detached call fails after the end; the execution itself has told all. -/
theorem newsRun_chronicle : ∃ c, newsRun.courses[0]? = some c ∧ c.execution.isFinished = true ∧
    Chronicle newsRun 0 c.execution ∧
    (newsRun.heard 0).map Lifecycle.name = ["workflow.started", "step.skipped", "step.error_recovered",
      "workflow.spawning", "workflow.skipped", "workflow.completed"] ∧
    ((newsRun.rehearse 20 [.release 0]).heard 0).map Lifecycle.name = ["workflow.started", "step.skipped",
      "step.error_recovered", "workflow.spawning", "workflow.skipped", "workflow.completed", "step.error_recovered"] ∧
    (newsRun.rehearse 20 [.release 0]).told 0 = newsRun.told 0 := by
  have run : Reaches inOrder _ newsRun := rehearse_reaches _ _ _
  have on : Reaches inOrder newsRun (newsRun.rehearse 20 [.release 0]) := rehearse_reaches _ _ _
  have calm : newsRun.Calm := run.calm_iff.mpr fun react h event => by cases h; rfl
  have finished : newsRun.courses[0]?.map (·.execution.isFinished) = some true := by decide +kernel
  obtain ⟨c, hx, finished⟩ := Option.map_eq_some_iff.mp finished
  obtain ⟨chronicle, -, after⟩ :=
    chronicle_of_reachable run.of_fresh.reachable calm (by decide +kernel) (by decide +kernel) hx
  exact ⟨c, hx, finished, chronicle, by decide +kernel, by decide +kernel,
    after _ _ on (by decide +kernel) finished⟩

end Engine

end Stepflow
