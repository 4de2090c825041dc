import Stepflow.Proofs.Engine.Confinement
import Stepflow.Proofs.Engine.Interpreter
import Stepflow.Proofs.Engine.Unharmed

/-!
# Stepflow.Proofs.Engine.Exhaustion — spawning comes to an end

* `Below.cases_head`: what is below an execution is below one of its children.  `Sound.exists_shows`: so the executions below
  one form a tree, which ends where the settings do.
* `records_after`: an execution whose task is over gets no more records and no more children.
* `exists_ceased`: in a fair run there is a time at which everything below an execution is over, by induction on how much
  deeper it may spawn.
* `Barren`: what is told of an execution that lies too deep.  `spawning_bounded`: the depth of executions is bounded, those
  that lie too deep are barren, and whatever a workflow schedules, again and again, finitely many executions come of it.
* `tardyRun_canceled`: an event bus that takes its time may see such an execution canceled.
-/

namespace Stepflow

/-- The records and the children of an execution whose task is over are its last. -/
theorem Fate.records {e e' : Engine} {x : Nat} {c c' : Course} (h : Fate e e' x c c') (ceased : c.life.isOver = true) :
    c'.execution.history = c.execution.history ∧ c'.execution.children = c.execution.children := by
  cases h with
  | kept => exact ⟨rfl, rfl⟩
  | moved _ moved => exact absurd (moved.live.symm.trans ceased) Bool.false_ne_true
  | touched touched =>
    rcases touched with signaled | marked
    · rw [signaled.execution]
      exact ⟨rfl, rfl⟩
    · cases marked <;> exact ⟨rfl, rfl⟩

/-- The task of an execution announces the start, or has failed since the event bus refused that announcement. -/
def Announcing : Life Stage → Prop
  | .live .admitted _ | .live .canceling _ => True
  | .live (.refusing event _) _ => event.name = "workflow.started"
  | .over ending => ending = .failed (.busRejected "workflow.started")
  | _ => False

/-- Where the body of an execution that lies too deep can have come to, if its path can be written. -/
theorem Stunted.outcome {maxDepth : Int} {c : Course} {names : List String} (h : Stunted maxDepth c)
    (names_eq : c.execution.names = .ok names) :
    c.execution.status = .idle ∨ c.execution.status = .canceled ∨ c.execution.FailedAtDepth maxDepth ∨
      c.execution.status = .running ∧ Announcing c.life := by
  have refuses := h.refuses
  cases life : c.life with
  | ended ending =>
    rw [life] at refuses
    rcases refuses with idle | dismissed | ⟨running, refused | ⟨f, unwritable⟩⟩
    · exact .inl idle
    · exact .inr (dismissed.imp_right .inl)
    · exact .inr (.inr (.inr ⟨running, refused⟩))
    · cases names_eq.symm.trans unwritable
  | live stage interrupted =>
    rw [life] at refuses
    cases stage with
    | opening => exact refuses.imp_right .inl
    | admitted => exact .inr (.inr (.inr ⟨refuses, trivial⟩))
    | canceling =>
      rcases refuses with running | dismissed
      · exact .inr (.inr (.inr ⟨running, trivial⟩))
      · exact .inr (dismissed.imp_right .inl)
    | refusing event last =>
      rcases refuses with ⟨running, name, -⟩ | dismissed
      · exact .inr (.inr (.inr ⟨running, name⟩))
      · exact .inr (dismissed.imp_right .inl)
    | closing | leaving => exact .inr (Or.imp_right .inl refuses)
    | reaching | calling | holding | handled | finishing | spawning | completing | unrecovered => exact refuses.elim

namespace Engine

/-! ## Trees -/

section Trees

variable {e : Engine} {x y : Nat} {c : Course}

/-- What is below an execution and is not that execution is below one of its children. -/
theorem Below.cases_head (below : e.Below x y) :
    y = x ∨ ∃ c z, e.courses[x]? = some c ∧ z ∈ c.execution.children ∧ e.Below z y := by
  induction below with
  | self => exact .inl rfl
  | @child y z c above at_y mem ih =>
    rcases ih with rfl | ⟨d, w, at_x, mem_w, below⟩
    · exact .inr ⟨c, z, at_y, mem, .self⟩
    · exact .inr ⟨d, w, at_x, mem_w, below.child at_y mem⟩

/-- A child lies one deeper than the execution that spawned it. -/
theorem Sound.depth_of_child (sound : e.Sound) (at_x : e.courses[x]? = some c) {z : Nat} (mem : z ∈ c.execution.children) :
    ∃ d, e.courses[z]? = some d ∧ d.execution.depth = c.execution.depth + 1 := by
  have brood := sound.brood at_x
  obtain ⟨k, at_k⟩ := List.mem_iff_getElem?.mp mem
  obtain ⟨lt, eq⟩ := List.getElem?_eq_some_iff.mp at_k
  obtain ⟨d, now, at_z, origin⟩ := brood.get lt (brood.length_eq ▸ lt)
  rw [List.get_eq_getElem, eq] at at_z
  exact ⟨d, at_z, congrArg Execution.depth origin⟩

/-- An execution that lies too deep has no children. -/
theorem Sound.childless_of_deep (sound : e.Sound) (at_x : e.courses[x]? = some c)
    (deep : e.settings.maxDepth < c.execution.depth) : c.execution.children = [] :=
  ((Reachable.confined sound.reachable).stunted c (List.mem_of_getElem? at_x) deep).children

/-- **The executions below one form a tree.** -/
theorem Sound.exists_shows (sound : e.Sound) (at_x : e.courses[x]? = some c) : ∃ tree, e.Shows x tree := by
  -- on how much deeper the settings allow to spawn
  induction room : (e.settings.maxDepth + 1 - c.execution.depth).toNat using Nat.strongRecOn generalizing x c with
  | _ room ih =>
    have shown : ∀ z ∈ c.execution.children, ∃ tree, e.Shows z tree := by
      intro z mem
      obtain ⟨d, at_z, depth⟩ := sound.depth_of_child at_x mem
      have shallow : ¬ e.settings.maxDepth < c.execution.depth := by
        intro deep
        rw [sound.childless_of_deep at_x deep] at mem
        cases mem
      exact ih (e.settings.maxDepth + 1 - d.execution.depth).toNat (by omega) at_z rfl
    have trees : ∀ zs : List Nat, (∀ z ∈ zs, ∃ tree, e.Shows z tree) → ∃ trees, List.Forall₂ e.Shows zs trees := by
      intro zs each
      induction zs with
      | nil => exact ⟨[], .nil⟩
      | cons z zs ih =>
        obtain ⟨tree, first⟩ := each z List.mem_cons_self
        obtain ⟨trees, others⟩ := ih fun w mem => each w (List.mem_cons_of_mem z mem)
        exact ⟨tree :: trees, .cons first others⟩
    obtain ⟨children, below⟩ := trees _ shown
    exact ⟨_, .node at_x below⟩

end Trees

/-! ## Executions whose tasks are over -/

section Over

variable {e : Engine} {acts : Nat → Act} (sound : ∀ n, (e.after acts n).Sound)

include sound

theorem records_after {n m x : Nat} {c : Course} (le : n ≤ m) (at_x : (e.after acts n).courses[x]? = some c)
    (ceased : c.life.isOver = true) : ∃ c', (e.after acts m).courses[x]? = some c' ∧ c'.life.isOver = true ∧
      c'.execution.history = c.execution.history ∧ c'.execution.children = c.execution.children := by
  induction m, le using Nat.le_induction with
  | base => exact ⟨c, at_x, ceased, rfl, rfl⟩
  | succ m le ih =>
    obtain ⟨d, at_x', ceased', history, children⟩ := ih
    obtain ⟨d', at_x'', fate⟩ := ((sound m).outline (acts m)).fate at_x'
    obtain ⟨history', children'⟩ := fate.records ceased'
    exact ⟨d', at_x'', fate.over ceased', history'.trans history, children'.trans children⟩

/-- Everything below an execution stays over. -/
theorem ceased_after {n m x : Nat} (le : n ≤ m) (known : x < (e.after acts n).courses.length)
    (ceased : ∀ y, (e.after acts n).Below x y → (e.after acts n).isOver (.course y) = true) (y : Nat)
    (below : (e.after acts m).Below x y) : (e.after acts m).isOver (.course y) = true :=
  (over_below_after sound le known ceased y below).2

/-- If everything below each of some executions comes to be over, it comes to be over below all of them. -/
theorem exists_ceased_all {n : Nat} {zs : List Nat} (known : ∀ z ∈ zs, z < (e.after acts n).courses.length)
    (each : ∀ z ∈ zs, ∃ m, n ≤ m ∧ ∀ y, (e.after acts m).Below z y → (e.after acts m).isOver (.course y) = true) :
    ∃ m, n ≤ m ∧ ∀ z ∈ zs, ∀ y, (e.after acts m).Below z y → (e.after acts m).isOver (.course y) = true := by
  have later {z m : Nat} (mem : z ∈ zs) (le : n ≤ m) : z < (e.after acts m).courses.length :=
    Nat.lt_of_lt_of_le (known z mem) (length_after_le sound le)
  induction zs with
  | nil => exact ⟨n, le_refl n, fun z mem => by cases mem⟩
  | cons z zs ih =>
    obtain ⟨m, le, others⟩ := ih (fun w mem => known w (List.mem_cons_of_mem z mem))
      (fun w mem => each w (List.mem_cons_of_mem z mem)) fun mem => later (List.mem_cons_of_mem z mem)
    obtain ⟨m', le', first⟩ := each z List.mem_cons_self
    refine ⟨max m m', Nat.le_trans le (Nat.le_max_left m m'), fun w mem => ?_⟩
    rcases List.mem_cons.mp mem with rfl | mem'
    · exact ceased_after sound (Nat.le_max_right m m') (later mem le') first
    · exact ceased_after sound (Nat.le_max_left m m') (later mem le) (others w mem')

variable (fair : e.Fair acts)

include fair

/-- **Everything below an execution comes to be over.** -/
theorem exists_ceased {n x : Nat} {c : Course} (at_x : (e.after acts n).courses[x]? = some c) :
    ∃ m, n ≤ m ∧ ∀ y, (e.after acts m).Below x y → (e.after acts m).isOver (.course y) = true := by
  -- on how much deeper the settings allow to spawn
  induction room : (e.settings.maxDepth + 1 - c.execution.depth).toNat using Nat.strongRecOn generalizing n x c with
  | _ room ih =>
    have known := (List.getElem?_eq_some_iff.mp at_x).1
    obtain ⟨m, le, over_x⟩ := exists_over fair sound n x known
    obtain ⟨d, at_x', origin⟩ := (after_reaches fair.inOrder le).origin (sound n).reachable (sound m) at_x
    have ceased : d.life.isOver = true := by simpa [isOver, at_x'] using over_x
    have settings := (after_reaches (e := e) fair.inOrder (Nat.zero_le m)).settings_eq
    have children_known : ∀ z ∈ d.execution.children, z < (e.after acts m).courses.length := by
      intro z mem
      obtain ⟨f, at_z, -⟩ := (sound m).depth_of_child at_x' mem
      exact (List.getElem?_eq_some_iff.mp at_z).1
    have each : ∀ z ∈ d.execution.children, ∃ j, m ≤ j ∧
        ∀ y, (e.after acts j).Below z y → (e.after acts j).isOver (.course y) = true := by
      intro z mem
      obtain ⟨f, at_z, depth⟩ := (sound m).depth_of_child at_x' mem
      have shallow : ¬ e.settings.maxDepth < d.execution.depth := by
        intro deep
        rw [(sound m).childless_of_deep at_x' (by rw [settings]; exact deep)] at mem
        cases mem
      have same := Execution.depth_eq origin
      exact ih (e.settings.maxDepth + 1 - f.execution.depth).toNat (by omega) at_z rfl
    obtain ⟨j, le', all⟩ := exists_ceased_all sound children_known each
    refine ⟨j, Nat.le_trans le le', fun y below => ?_⟩
    rcases below.cases_head with rfl | ⟨d', z, at_x'', mem, below⟩
    · exact over_after sound le' (List.getElem?_eq_some_iff.mp at_x').1 over_x
    · obtain ⟨d'', at_x₂, -, -, children⟩ := records_after sound le' at_x' ceased
      obtain rfl : d' = d'' := Option.some.inj (at_x''.symm.trans at_x₂)
      exact all z (children ▸ mem) y below

end Over

/-! ## Bounded recursion -/

section Bounded

variable {e : Engine} {x : Nat} {c : Course}

/-- If the event bus is calm and names can be part of paths, an execution that lies too deep and runs has the processor, and
fails in its next move. -/
theorem Sound.fails_of_deep (sound : e.Sound) (at_x : e.courses[x]? = some c)
    (deep : e.settings.maxDepth < c.execution.depth) (running : c.execution.status = .running) :
    e.current = some (.course x) ∧ ∀ place, ∃ c', (e.act (.turn place)).courses[x]? = some c' ∧
      c'.execution.FailedAtDepth e.settings.maxDepth := by
  have stunted := (Reachable.confined sound.reachable).stunted c (List.mem_of_getElem? at_x) deep
  have stands := sound.standing.stands x c at_x
  have refuses := stunted.refuses
  have life : c.life = .live .admitted false := by
    cases life : c.life with
    | ended ending =>
      rw [life] at stands
      cases stands with
      | settled ended =>
        have finished := ended.finished
        simp [Execution.isFinished, running, Status.isFinished] at finished
      | dropped unbegun => cases running.symm.trans unbegun.status_eq
    | live stage interrupted =>
      rw [life] at stands refuses
      cases stands with
      | admitted => rfl
      | unbegun unbegun => cases running.symm.trans unbegun.status_eq
      | stillborn unbegun names_eq eq =>
        rw [eq] at running
        cases running
      | closing ended | leaving _ ended =>
        have finished := ended.finished
        simp [Execution.isFinished, running, Status.isFinished] at finished
      | canceling _ current => cases stunted.step.symm.trans current
      | reaching | calling | holding | handled | dispatched | finishing | spawning | completing => exact refuses.elim
  have current : e.current = some (.course x) := by
    by_contra away
    have rests := sound.standing.rests x c at_x away
    rw [life] at rests
    cases rests
  obtain ⟨names, names_eq⟩ := sound.orderly.names at_x
  obtain ⟨a, recasts, -, failed, -⟩ := checkDepth_recasts at_x deep names_eq
  obtain ⟨reason, settled⟩ := recasts.settle at_x (e.checkDepth x c.execution).2
  have turn (place : Nat) : e.act (.turn place) = settleCourse x (e.checkDepth x c.execution) := by
    simp only [act, turnAt, current, move, at_x, life, moveCourse]
  have after : (settleCourse x (e.checkDepth x c.execution)).courses[x]? =
      some ⟨a, c.scheduled, lifeAfter (e.checkDepth x c.execution).2, reason⟩ := by
    rw [settled.courses]
    exact set_getElem? at_x
  exact ⟨current, fun place => ⟨_, by rw [turn]; exact after, failed⟩⟩

/-- What is told of an execution that lies too deep.  Nobody is called for it, it has no records, no children and the state
it began with.  Once its body runs it fails; only the event bus can keep it from that, if it takes its time until a
cancellation comes, or refuses the announcement of its start. -/
structure Barren (e : Engine) (x : Nat) (c : Course) : Prop where
  silent : ∀ n ∈ e.calls, n.execution ≠ x
  undelivered : ∀ d ∈ e.deliveries, d.execution ≠ x
  history : c.execution.history = []
  children : c.execution.children = []
  state : c.execution.state = c.execution.initialState
  outcome : ∀ names, c.execution.names = .ok names →
    c.execution.status = .idle ∨ c.execution.status = .canceled ∨ c.execution.FailedAtDepth e.settings.maxDepth ∨
      c.execution.status = .running ∧ Announcing c.life
  fails : e.Calm → e.WellNamed → c.execution.status = .running → e.current = some (.course x) ∧
    ∀ place, ∃ c', (e.act (.turn place)).courses[x]? = some c' ∧ c'.execution.FailedAtDepth e.settings.maxDepth

theorem Reachable.barren (reachable : e.Reachable) (at_x : e.courses[x]? = some c)
    (deep : e.settings.maxDepth < c.execution.depth) : e.Barren x c := by
  have confined := Reachable.confined reachable
  have stunted := confined.stunted c (List.mem_of_getElem? at_x) deep
  have unshallow : ¬ e.Shallow x := by
    rintro ⟨d, at_x', shallow⟩
    obtain rfl : c = d := Option.some.inj (at_x.symm.trans at_x')
    omega
  refine ⟨fun n mem about => unshallow ?_, fun d mem for_x => unshallow ?_, stunted.history, stunted.children,
    stunted.state, fun names => stunted.outcome, fun calm named => ?_⟩
  · exact about ▸ confined.calls n mem
  · exact for_x ▸ confined.deliveries d mem
  · exact (Reachable.sound reachable calm named).fails_of_deep at_x deep

/-- **Bounded recursion**, whatever the resolvers answer and the processing schedules: no execution lies deeper than one
below the greatest depth, and those that lie there are barren.  If the event bus is calm, names can be part of paths and
what is waited for comes to pass, then from some time on no execution is accepted below a given one and none there gets
another record: a finite tree is all that comes of it. -/
theorem spawning_bounded (reachable : e.Reachable) :
    (∀ x c, e.courses[x]? = some c → (c.execution.depth : Int) ≤ max 0 (e.settings.maxDepth + 1) ∧
      (e.settings.maxDepth < c.execution.depth → e.Barren x c)) ∧
    ∀ acts : Nat → Act, e.Calm → e.Fair acts → (∀ n, (e.after acts n).WellNamed) → ∀ x < e.courses.length,
      ∃ m, ∀ n, m ≤ n → (∃ tree, (e.after acts n).Shows x tree) ∧ ∀ y, (e.after acts n).Below x y →
        ∃ c d, (e.after acts m).courses[y]? = some c ∧ (e.after acts n).courses[y]? = some d ∧ d.life.isOver = true ∧
          d.execution.history = c.execution.history ∧ d.execution.children = c.execution.children := by
  refine ⟨fun x c at_x => ⟨?_, Reachable.barren reachable at_x⟩, fun acts calm fair named x known => ?_⟩
  · exact (Reachable.confined reachable).depth c (List.mem_of_getElem? at_x)
  · have sound := sound_after reachable calm named
    obtain ⟨m, -, ceased⟩ := exists_ceased sound fair (n := 0) (List.getElem?_eq_getElem known)
    refine ⟨m, fun n le => ⟨?_, fun y below => ?_⟩⟩
    · have known_n := Nat.lt_of_lt_of_le known (length_after_le sound (Nat.zero_le n))
      exact (sound n).exists_shows (List.getElem?_eq_getElem known_n)
    · have known_m := Nat.lt_of_lt_of_le known (length_after_le sound (Nat.zero_le m))
      obtain ⟨early, -⟩ := over_below_after sound le known_m ceased y below
      have at_y := List.getElem?_eq_getElem early
      have stopped := ceased y (below_before sound le below early)
      obtain ⟨d, at_y', over_y, history, children⟩ := records_after sound le at_y (by simpa [isOver, at_y] using stopped)
      exact ⟨_, d, at_y, at_y', over_y, history, children⟩

/-! ### A workflow that schedules itself -/

/-- A workflow of one step. -/
def sprout : Workflow := ⟨[⟨"branch", .null, .empty, by decide⟩], .text "sprout", none, .empty, .empty⟩

/-- An engine that goes one deep and whose processing schedules the same workflow again, which has been started. -/
def sproutedRun : Engine :=
  let resolver : Resolver := ⟨"Plain", "branch", .propagate, false, fun _ _ => .answer none⟩
  (fresh ⟨false, 1, 5⟩ (fun state _ _ => .ok ⟨state, [sprout]⟩) none
    (Registry.empty.register "branch" ⟨0, resolver⟩)).rehearse 0 [.start sprout .null]

theorem sproutedRun_bounded : sproutedRun.Fair (fun _ => .turn 0) ∧
    (sproutedRun.after (fun _ => .turn 0) 40).courses.map (fun c => (c.execution.depth, c.execution.status)) =
      [(0, .completed), (1, .completed), (2, .failed)] ∧
    (∃ c, (sproutedRun.after (fun _ => .turn 0) 40).courses[2]? = some c ∧
      (sproutedRun.after (fun _ => .turn 0) 40).Barren 2 c) ∧
    ∃ m, ∀ n, m ≤ n → ∃ tree, (sproutedRun.after (fun _ => .turn 0) n).Shows 0 tree := by
  have started : Reaches inOrder _ sproutedRun := rehearse_reaches _ 0 _
  have calm : sproutedRun.Calm := started.calm_iff.mpr (fresh_calm _ _ _)
  have quiet : (sproutedRun.after (fun _ => .turn 0) 40).isQuiet = true := by decide +kernel
  have fair : sproutedRun.Fair (fun _ => .turn 0) :=
    fair_of_quiet quiet (fun _ => rfl) (fun _ _ => rfl) (by decide +kernel)
  have named := forall_after_of_quiet (P := WellNamed) quiet (fun _ _ => rfl) (by decide +kernel)
  have onward : Reaches inOrder sproutedRun (sproutedRun.after (fun _ => .turn 0) 40) :=
    after_reaches fair.inOrder (Nat.zero_le 40)
  have reachable : sproutedRun.Reachable := started.of_fresh.reachable
  obtain ⟨m, still⟩ := (spawning_bounded reachable).2 _ calm fair named 0 (by decide +kernel)
  have third : ∃ c, (sproutedRun.after (fun _ => .turn 0) 40).courses[2]? = some c ∧
      (sproutedRun.after (fun _ => .turn 0) 40).settings.maxDepth < c.execution.depth := by
    exact ⟨_, by rfl, by decide +kernel⟩
  obtain ⟨c, at_x, deep⟩ := third
  have later := (spawning_bounded (reachable.trans (onward.mono fun _ _ _ => trivial))).1 2 c at_x
  exact ⟨fair, by decide +kernel, ⟨c, at_x, later.2 deep⟩, m, fun n le => (still n le).1⟩

/-! ### A start that is held until a cancellation comes -/

/-- An engine on which every workflow lies too deep and whose event bus holds the announcement of a start.  A workflow is
started, and its execution is canceled while the announcement is held. -/
def tardyRun : Engine :=
  let bus : Lifecycle → Reaction
    | .started .. => .hold
    | _ => .accept
  (fresh ⟨false, -1, 5⟩ Processing.standard (some bus) Registry.empty).rehearse 10
    [.start ⟨[], .null, none, .empty, .empty⟩ .null, .cancel (some 0) "e0" "enough"]

/-- The body of the execution has run, its start having been announced, and it is canceled. -/
theorem tardyRun_canceled : tardyRun.Reachable ∧ tardyRun.events = [.started 0 [.text "root"], .canceled 0 "enough"] ∧
    ∃ c, tardyRun.courses[0]? = some c ∧ tardyRun.settings.maxDepth < c.execution.depth ∧
      c.life.isOver = true ∧ c.execution.status = .canceled ∧ ¬ c.execution.FailedAtDepth tardyRun.settings.maxDepth := by
  have run : Reaches inOrder _ tardyRun := rehearse_reaches _ 10 _
  refine ⟨run.of_fresh.reachable, by rfl, _, by rfl, by decide +kernel, by rfl, by rfl, ?_⟩
  rintro ⟨failed, -⟩
  cases failed

end Bounded

end Engine

end Stepflow
