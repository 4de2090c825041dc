import Mathlib.Data.List.Nodup
import Stepflow.Proofs.Engine.Alertness
import Stepflow.Proofs.Engine.Ranking

/-!
# Stepflow.Proofs.Engine.Fairness — what comes to pass in an endless run

* `Engine.after`: the engine after the first acts of an endless run.  `Fair`: the queue is served in its order again and
  again, and what executions wait for comes to pass.
* `after_of_quiet`, `fair_of_quiet`: when no task can move nothing changes any more, and a run that comes to that is fair if
  nothing that was waited for is missing then.
* `exists_move`, `exists_free`, `exists_choice`: the task that has the processor moves, the processor becomes free, and the
  head of the queue gets it.
* `exists_current_of_ready`, `exists_current`: a task that is ready gets the processor, and so does one that is live if what
  it waits for comes to pass.
* `exists_over`: the task of every execution ends.  Each of its moves brings its end closer (`Happens.rank_lt`), and it always
  moves again.
-/

namespace Stepflow.Engine

/-- The engine after the first `n` acts of an endless run. -/
def after (e : Engine) (acts : Nat → Act) : Nat → Engine
  | 0 => e
  | n + 1 => (e.after acts n).act (acts n)

/-- An endless run is fair: the ready tasks get the processor in the order of the queue, there is always another turn for
them, besides those of shutdowns that begin, and what executions wait for comes to pass. -/
structure Fair (e : Engine) (acts : Nat → Act) : Prop where
  inOrder : ∀ n, (acts n).InOrder
  turns : ∀ n, ∃ m, n ≤ m ∧ acts m = .turn 0 ∧ ∀ k, (e.after acts m).current ≠ some (.closer k)
  due : ∀ n x on, (TaskId.course x, on) ∈ (e.after acts n).waits → ∃ m, n ≤ m ∧ (e.after acts m).isDue on = true

section Runs

variable {e : Engine} {acts : Nat → Act}

theorem after_succ (e : Engine) (acts : Nat → Act) (n : Nat) :
    e.after acts (n + 1) = (e.after acts n).act (acts n) := rfl

theorem after_reaches (served : ∀ n, (acts n).InOrder) {n m : Nat} (le : n ≤ m) :
    Reaches inOrder (e.after acts n) (e.after acts m) := by
  induction m, le using Nat.le_induction with
  | base => exact .refl
  | succ m le ih => exact ih.step (served m)

/-- In whatever order the tasks get the processor, a run is a run. -/
theorem reaches_after (e : Engine) (acts : Nat → Act) (n : Nat) : Reaches anyOrder e (e.after acts n) := by
  induction n with
  | zero => exact .refl
  | succ n ih => exact ih.step trivial

/-- What an engine with a calm bus comes to is sound as long as its names can be part of paths. -/
theorem sound_after (reachable : e.Reachable) (calm : e.Calm) (named : ∀ n, (e.after acts n).WellNamed) (n : Nat) :
    (e.after acts n).Sound := by
  have run := reaches_after e acts n
  exact Reachable.sound (reachable.trans run) (run.calm_iff.mpr calm) (named n)

/-- An engine in which no task can move stays as it is until the host does something. -/
theorem after_of_quiet {n m : Nat} (le : n ≤ m) (quiet : (e.after acts n).isQuiet = true)
    (turns : ∀ j, n ≤ j → acts j = .turn 0) : e.after acts m = e.after acts n := by
  induction m, le using Nat.le_induction with
  | base => rfl
  | succ m le ih =>
    rw [after_succ, ih, turns m le]
    simp only [isQuiet, Bool.and_eq_true, Option.isNone_iff_eq_none, List.isEmpty_iff] at quiet
    simp [act, turnAt, quiet]

/-- What holds until no task can move holds from then on. -/
theorem forall_after_of_quiet {P : Engine → Prop} {m : Nat} (quiet : (e.after acts m).isQuiet = true)
    (turns : ∀ j, m ≤ j → acts j = .turn 0) (early : ∀ n ≤ m, P (e.after acts n)) (n : Nat) : P (e.after acts n) := by
  rcases Nat.le_total n m with le | le
  · exact early n le
  · rw [after_of_quiet le quiet turns]
    exact early m (le_refl m)

/-- A run that comes to rest is fair if nothing that was waited for is missing then. -/
theorem fair_of_quiet {m : Nat} (quiet : (e.after acts m).isQuiet = true) (inOrder : ∀ n, (acts n).InOrder)
    (turns : ∀ j, m ≤ j → acts j = .turn 0)
    (due : ∀ n ≤ m, ∀ w ∈ (e.after acts n).waits, (e.after acts m).isDue w.2 = true) : e.Fair acts := by
  have last (n : Nat) : e.after acts (n + m) = e.after acts m := after_of_quiet (Nat.le_add_left m n) quiet turns
  refine ⟨inOrder, fun n => ⟨n + m, Nat.le_add_right n m, turns _ (Nat.le_add_left m n), fun k => ?_⟩, fun n x on mem => ?_⟩
  · simp only [isQuiet, Bool.and_eq_true, Option.isNone_iff_eq_none] at quiet
    simp [last, quiet]
  · have due := forall_after_of_quiet (P := fun e' => ∀ w ∈ e'.waits, (e.after acts m).isDue w.2 = true) quiet turns due
    exact ⟨n + m, Nat.le_add_right n m, by rw [last]; exact due n _ mem⟩

end Runs

/-! ## The processor and the queue -/

section Queue

variable {e e' : Engine} {t : TaskId}

/-- The host has to wait as long as a task has the processor. -/
theorem act_host_of_current (current : e.current = some t) (deed : Deed) : e.act (.host deed) = e := by
  have busy : e.current ≠ none := by simp [current]
  exact if_neg busy

/-- The head of the queue is chosen if there is one. -/
theorem chooses_of_free {p : Nat} (free : e.current = none) (at_p : e.ready[p]? = some t) :
    Chooses e (.turn 0) (e.act (.turn 0)) := by
  have pos : 0 < e.ready.length := Nat.lt_of_le_of_lt (Nat.zero_le p) (List.getElem?_eq_some_iff.mp at_p).1
  have head := List.getElem?_eq_getElem pos
  exact ⟨0, _, rfl, free, head, by simp [act, turnAt, free, head]⟩

/-- Whoever is in the queue comes forward when its head is chosen. -/
theorem Chooses.forward {a : Act} {p : Nat} (h : Chooses e a e') (inOrder : a.InOrder) (at_p : e.ready[p]? = some t) :
    e'.current = some t ∨ ∃ q, q < p ∧ e'.ready[q]? = some t := by
  obtain ⟨place, s, rfl, -, at_place, rfl⟩ := h
  obtain rfl : place = 0 := inOrder
  cases p with
  | zero =>
    obtain rfl : s = t := by simpa [at_place] using at_p
    exact .inl rfl
  | succ q =>
    refine .inr ⟨q, Nat.lt_succ_self q, ?_⟩
    cases ready : e.ready with
    | nil => simp [ready] at at_p
    | cons head rest => simpa [ready] using at_p

/-- A task waits for one thing only. -/
theorem Placed.wait_unique (h : e.Placed) {on on' : Wait} (mem : (t, on) ∈ e.waits) (mem' : (t, on') ∈ e.waits) :
    on = on' := by
  have distinct : (e.waits.map Prod.fst).Nodup := by
    refine List.nodup_iff_count_le_one.mpr fun s => ?_
    have once := h.once s
    unfold presence at once
    omega
  have eq := List.inj_on_of_nodup_map distinct mem mem' rfl
  exact congrArg Prod.snd eq

end Queue

/-! ## Fair runs -/

section Fair

variable {e : Engine} {acts : Nat → Act} {t : TaskId}

/-- A task that has the processor moves. -/
theorem exists_move (fair : e.Fair acts) {n : Nat} (current : (e.after acts n).current = some t) :
    ∃ m, n ≤ m ∧ e.after acts m = e.after acts n ∧ acts m = .turn 0 := by
  obtain ⟨m, le, turn, -⟩ := fair.turns n
  obtain ⟨d, rfl⟩ := Nat.exists_eq_add_of_le le
  clear le
  induction d generalizing n with
  | zero => exact ⟨n, le_refl n, rfl, turn⟩
  | succ d ih =>
    have inOrder := fair.inOrder n
    cases act : acts n with
    | turn place =>
      obtain rfl : place = 0 := by simpa [act, Act.InOrder] using inOrder
      exact ⟨n, le_refl n, rfl, act⟩
    | host deed =>
      have still : e.after acts (n + 1) = e.after acts n := by
        rw [after_succ, act]
        exact act_host_of_current current deed
      obtain ⟨m, le, same, turn⟩ := ih (n := n + 1) (by rw [still]; exact current) (by rw [← turn]; congr 1; omega)
      exact ⟨m, by omega, same.trans still, turn⟩

variable (fair : e.Fair acts) (sound : ∀ n, (e.after acts n).Sound)

include fair sound

/-- The processor becomes free: the task that has it comes closer to its end until it gives it away. -/
theorem exists_free (n : Nat) : ∃ m, n ≤ m ∧ (e.after acts m).current = none := by
  have main : ∀ (r : Nat ×ₗ Nat) (n : Nat) (t : TaskId), (e.after acts n).current = some t →
      (e.after acts n).rank t = r → ∃ m, n ≤ m ∧ (e.after acts m).current = none := by
    intro r
    induction r using WellFoundedLT.induction with
    | ind r ih =>
      intro n t current rank_eq
      obtain ⟨m, le, same, turn⟩ := exists_move fair current
      have happens := (sound m).happens (acts m)
      rw [turn] at happens
      have current' : (e.after acts m).current = some t := by rw [same]; exact current
      rcases happens.released (sound m).standing current' with free | ⟨held, closer⟩
      · refine ⟨m + 1, by omega, ?_⟩
        rw [after_succ, turn]
        exact free
      · rw [← turn, ← after_succ] at held closer
        rw [same, rank_eq] at closer
        obtain ⟨j, le', free⟩ := ih _ closer (m + 1) t held rfl
        exact ⟨j, by omega, free⟩
  cases current : (e.after acts n).current with
  | none => exact ⟨n, le_refl n, current⟩
  | some t => exact main _ n t current rfl

/-- The next task is chosen: unless it is for a shutdown that begins, whoever has the processor has been chosen. -/
theorem exists_choice (n : Nat) : ∃ m, n ≤ m ∧ (e.after acts m).current = none ∧ acts m = .turn 0 := by
  obtain ⟨first, le, free⟩ := exists_free fair sound n
  obtain ⟨last, le', turn, closing⟩ := fair.turns first
  obtain ⟨d, rfl⟩ := Nat.exists_eq_add_of_le le'
  have chosen : ∀ d t, (e.after acts (first + d)).current = some t → (∀ k, t ≠ .closer k) →
      ∃ m, first ≤ m ∧ (e.after acts m).current = none ∧ acts m = .turn 0 := by
    intro d
    induction d with
    | zero =>
      intro t current
      simp [free] at current
    | succ d ih =>
      intro t current other
      rcases ((sound (first + d)).happens (acts (first + d))).current with chosen | same | none | ⟨k, closer⟩
      · obtain ⟨place, s, act, idle, -⟩ := chosen
        have inOrder := fair.inOrder (first + d)
        obtain rfl : place = 0 := by simpa [act, Act.InOrder] using inOrder
        exact ⟨first + d, by omega, idle, act⟩
      · exact ih t (same.symm.trans current) other
      · exact absurd (none.symm.trans current) (by simp)
      · exact absurd (Option.some.inj (current.symm.trans closer)) (other k)
  cases current : (e.after acts (first + d)).current with
  | none => exact ⟨first + d, by omega, current, turn⟩
  | some t =>
    obtain ⟨m, le, free, turn⟩ := chosen d t current fun k eq => closing k (by rw [current, eq])
    exact ⟨m, by omega, free, turn⟩

/-- Whoever is in the queue gets the processor. -/
theorem exists_current_of_ready (p n : Nat) (at_p : (e.after acts n).ready[p]? = some t) :
    ∃ m, n ≤ m ∧ (e.after acts m).current = some t := by
  induction p using Nat.strong_induction_on generalizing n with
  | _ p ih =>
    have forward (m : Nat) (le : n ≤ m) (at_p : (e.after acts m).ready[p]? = some t)
        (chooses : Chooses (e.after acts m) (acts m) (e.after acts (m + 1))) :
        ∃ m, n ≤ m ∧ (e.after acts m).current = some t := by
      rcases chooses.forward (fair.inOrder m) at_p with current | ⟨q, lt, at_q⟩
      · exact ⟨m + 1, by omega, current⟩
      · obtain ⟨j, le', current⟩ := ih q lt (m + 1) at_q
        exact ⟨j, by omega, current⟩
    obtain ⟨choice, le, free, turn⟩ := exists_choice fair sound n
    obtain ⟨d, rfl⟩ := Nat.exists_eq_add_of_le le
    -- until the head of the queue is chosen, the queue only grows at its end
    have waits : ∀ i ≤ d, (∃ m, n ≤ m ∧ (e.after acts m).current = some t) ∨ (e.after acts (n + i)).ready[p]? = some t := by
      intro i
      induction i with
      | zero => exact fun _ => .inr at_p
      | succ i ih' =>
        intro lt
        rcases ih' (by omega) with current | at_i
        · exact .inl current
        · rcases ((sound (n + i)).happens (acts (n + i))).shuffles with chooses | shuffles
          · exact .inl (forward (n + i) (by omega) at_i chooses)
          · obtain ⟨more, ready⟩ := shuffles.ready
            refine .inr ?_
            rw [← Nat.add_assoc, after_succ, ← ready, List.getElem?_append_left (List.getElem?_eq_some_iff.mp at_i).1]
            exact at_i
    rcases waits d (le_refl d) with current | at_d
    · exact current
    · refine forward (n + d) (by omega) at_d ?_
      rw [after_succ, turn]
      exact chooses_of_free free at_d

/-- **A live task gets the processor** if whatever it waits for comes to pass. -/
theorem exists_current (n : Nat) (live : ∀ m, n ≤ m → (e.after acts m).isOver t = false)
    (due : ∀ m on, n ≤ m → (t, on) ∈ (e.after acts m).waits → ∃ j, m ≤ j ∧ (e.after acts j).isDue on = true) :
    ∃ m, n ≤ m ∧ (e.after acts m).current = some t := by
  by_contra never
  have away : ∀ m, n ≤ m → (e.after acts m).current ≠ some t := fun m le current => never ⟨m, le, current⟩
  have unready : ∀ m, n ≤ m → t ∉ (e.after acts m).ready := by
    intro m le mem
    obtain ⟨p, at_p⟩ := List.mem_iff_getElem?.mp mem
    obtain ⟨j, le', current⟩ := exists_current_of_ready fair sound p m at_p
    exact away j (by omega) current
  have waits : ∀ m, n ≤ m → ∃ on, (t, on) ∈ (e.after acts m).waits := by
    intro m le
    have present := (sound m).alert.present t (live m le)
    have unready := List.count_eq_zero.mpr (unready m le)
    have idle : (e.after acts m).current.toList.count t = 0 := by
      refine List.count_eq_zero.mpr fun mem => away m le ?_
      simpa using mem
    have pos : 0 < ((e.after acts m).waits.map Prod.fst).count t := by
      unfold presence at present
      omega
    obtain ⟨⟨s, on⟩, mem, rfl⟩ := List.mem_map.mp (List.count_pos_iff.mp pos)
    exact ⟨on, mem⟩
  -- it waits for the same thing all the time, since only whoever has the processor begins to wait
  obtain ⟨on, mem⟩ := waits n (le_refl n)
  have same : ∀ m, n ≤ m → (t, on) ∈ (e.after acts m).waits := by
    intro m le
    induction m, le using Nat.le_induction with
    | base => exact mem
    | succ m le ih =>
      obtain ⟨on', mem'⟩ := waits (m + 1) (by omega)
      rcases ((sound m).happens (acts m)).waits mem' with before | ⟨current, -⟩
      · obtain rfl := (sound m).placed.wait_unique before ih
        exact mem'
      · exact absurd current (away m le)
  obtain ⟨m, le, came⟩ := due n on (le_refl n) mem
  have undue := (sound m).alert.undue _ (same m le)
  exact absurd (undue.symm.trans came) Bool.false_ne_true

/-- The same with the turn that the task then has. -/
theorem exists_turn (n : Nat) (live : ∀ m, n ≤ m → (e.after acts m).isOver t = false)
    (due : ∀ m on, n ≤ m → (t, on) ∈ (e.after acts m).waits → ∃ j, m ≤ j ∧ (e.after acts j).isDue on = true) :
    ∃ m, n ≤ m ∧ (e.after acts m).current = some t ∧ acts m = .turn 0 := by
  obtain ⟨first, le, current⟩ := exists_current fair sound n live due
  obtain ⟨m, le', same, turn⟩ := exists_move fair current
  exact ⟨m, by omega, by rw [same]; exact current, turn⟩

omit fair in
/-- No task of an execution is taken away from its end. -/
theorem rank_after_le {n m x : Nat} (le : n ≤ m) (known : x < (e.after acts n).courses.length) :
    (e.after acts m).rank (.course x) ≤ (e.after acts n).rank (.course x) ∧ x < (e.after acts m).courses.length := by
  induction m, le using Nat.le_induction with
  | base => exact ⟨le_refl _, known⟩
  | succ m le ih =>
    obtain ⟨closer, lt⟩ := ih
    have at_x := List.getElem?_eq_getElem lt
    obtain ⟨c', at_x', fate⟩ := ((sound m).outline (acts m)).fate at_x
    have step := fate.rank_le ((sound m).standing.stands x _ at_x)
    refine ⟨le_trans ?_ closer, (List.getElem?_eq_some_iff.mp at_x').1⟩
    rw [after_succ]
    simpa only [rank, at_x, at_x', Option.map_some, Option.getD_some] using step

/-- **The task of every execution ends.** -/
theorem exists_over (n x : Nat) (known : x < (e.after acts n).courses.length) :
    ∃ m, n ≤ m ∧ (e.after acts m).isOver (.course x) = true := by
  have main : ∀ (r : Nat ×ₗ Nat) (n : Nat), x < (e.after acts n).courses.length →
      (e.after acts n).rank (.course x) = r → ∃ m, n ≤ m ∧ (e.after acts m).isOver (.course x) = true := by
    intro r
    induction r using WellFoundedLT.induction with
    | ind r ih =>
      intro n known rank_eq
      by_contra never
      have live : ∀ m, n ≤ m → (e.after acts m).isOver (.course x) = false := by
        intro m le
        by_contra stopped
        exact never ⟨m, le, by simpa using stopped⟩
      obtain ⟨m, le, current, turn⟩ := exists_turn fair sound n live fun m on _ mem => fair.due m x on mem
      obtain ⟨closer, lt⟩ := rank_after_le sound le known
      have happens := (sound m).happens (acts m)
      rw [turn] at happens
      have moved := happens.rank_lt (sound m).standing current (live m le)
      rw [← turn, ← after_succ] at moved
      rw [rank_eq] at closer
      obtain ⟨-, lt'⟩ := rank_after_le sound (Nat.le_succ m) lt
      obtain ⟨j, le', ceased⟩ := ih _ (lt_of_lt_of_le moved closer) (m + 1) lt' rfl
      exact never ⟨j, by omega, ceased⟩
  exact main _ n known rfl

omit fair in
/-- A task that is over stays over. -/
theorem over_after {n m x : Nat} (le : n ≤ m) (known : x < (e.after acts n).courses.length)
    (ceased : (e.after acts n).isOver (.course x) = true) : (e.after acts m).isOver (.course x) = true := by
  induction m, le using Nat.le_induction with
  | base => exact ceased
  | succ m le ih =>
    obtain ⟨-, lt⟩ := rank_after_le sound le known
    have at_x := List.getElem?_eq_getElem lt
    obtain ⟨c', at_x', fate⟩ := ((sound m).outline (acts m)).fate at_x
    simp only [isOver, at_x, Option.all_some] at ih
    rw [after_succ]
    simpa only [isOver, at_x', Option.all_some] using fate.over ih

end Fair

end Stepflow.Engine
