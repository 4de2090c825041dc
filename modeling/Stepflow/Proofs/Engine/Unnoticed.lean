import Stepflow.Proofs.Engine.Flushing
import Stepflow.Proofs.Engine.Omitting
import Stepflow.Proofs.Engine.Quiescence

/-!
# Stepflow.Proofs.Engine.Unnoticed — a shutdown that does not time out only waits

* `Watching`: whoever waits for tasks waits for executions and detached calls.  `Sound.watching`: so it is in every sound
  state.
* `Forbearing`: a shutdown does not time out.
* `lightened`, `lighten`: what is left of an act, and of a run, without a shutdown.
* `act_lightened`: an act does to the engine without a shutdown what is left of it does, unless the shutdown times out.
  `foldl_lighten`: so it is with runs.  `deedsOf_lighten`: the host does the same.
* `shutdown_flushes`: a shutdown that returns leaves nothing pending; if no shutdown has timed out, every detached call has
  run to its own end; and if this one has not, everything is as it would be without it.
-/

namespace Stepflow

namespace Engine

/-! ## What callers wait for -/

/-- Whoever waits for tasks waits for executions and detached calls. -/
def Watching (e : Engine) : Prop :=
  ∀ w ∈ e.waits, ∀ ids due, w.2 = .tasks ids due → ∀ t ∈ ids, (∃ x, t = .course x) ∨ ∃ k, t = .delivery k

section Watching

variable {e e' : Engine} {k : Nat} {a : Act}

/-- A caller of `shutdown` that begins to wait waits for what is pending. -/
theorem Happens.closer_waits {on : Wait} (h : Happens e a e') (mem : (.closer k, on) ∈ e'.waits) :
    (.closer k, on) ∈ e.waits ∨ ∃ due, on = .tasks e.pending due := by
  rcases h.waits mem with old | ⟨current, -⟩
  · exact .inl old
  cases h with
  | still | vacant => exact .inl mem
  | @closer _ j stage current' life =>
    rcases mem_handOn_waits mem with before | ⟨next, on', move, eq⟩
    · exact .inl (noneWaits_nudging.moveCloser e stage before)
    · cases eq
      cases stage with
      | sweeping => cases move
      | flushing deadline =>
        dsimp only [moveCloser] at move
        split at move
        · cases move
        · split at move <;> cases move <;> exact .inr ⟨_, rfl⟩
  | closerCanceled =>
    rcases mem_handOn_waits mem with before | ⟨_, _, move, -⟩
    · exact .inl before
    · cases move
  | _ => simp_all

/-- **Watching**: in every sound state whoever waits for tasks waits for executions and detached calls. -/
theorem Sound.watching (h : e.Sound) : e.Watching := by
  refine h.induction (I := Watching) (fun settings process bus registry w mem => by cases mem)
    fun e a sound _ _ watching w mem ids due tasks t ht => ?_
  rcases (sound.happens a).waits mem with old | ⟨-, waits⟩
  · exact watching w old ids due tasks t ht
  obtain ⟨s, on⟩ := w
  obtain rfl : on = .tasks ids due := tasks
  cases s with
  | course | delivery => rcases waits with ⟨_, eq⟩ | ⟨_, eq⟩ <;> cases eq
  | caller =>
    obtain ⟨x, eq⟩ := waits
    cases eq
    exact .inl ⟨x, List.mem_singleton.mp ht⟩
  | joiner =>
    obtain ⟨xs, eq⟩ := waits
    cases eq
    obtain ⟨x, -, rfl⟩ := List.mem_map.mp ht
    exact .inl ⟨x, rfl⟩
  | closer =>
    rcases (sound.happens a).closer_waits mem with old | ⟨_, eq⟩
    · exact watching _ old ids due rfl t ht
    · cases eq
      exact (mem_pending_iff.mp ht).2

theorem Watching.bypasses (h : e.Watching) (gone : Nat) : e.Bypasses gone := by
  intro w mem ids due tasks t ht
  rcases h w mem ids due tasks t ht with ⟨x, rfl⟩ | ⟨j, rfl⟩ <;> rfl

end Watching

/-! ## Acts without a shutdown -/

/-- Shutdown number `k` does not time out. -/
def Forbearing (k : Nat) (e : Engine) (a : Act) : Prop := e.current = some (.closer k) → e.Patient a

/-- What is left of an act without shutdown number `gone`: nothing while its caller has the processor, and nothing of the
choice of its caller.  Another task that is chosen may stand further ahead in the queue. -/
def lightened (gone : Nat) (e : Engine) (a : Act) : Option Act :=
  match e.current, a with
  | some t, a => (t.past gone).map fun _ => a
  | none, .host deed => some (.host deed)
  | none, .turn place =>
    match e.ready[place]? with
    | some t => (t.past gone).map fun _ => .turn ((e.ready.take place).filterMap (·.past gone)).length
    | none => some (.turn place)

/-- What is left of a run. -/
def lighten (gone : Nat) : Engine → List Act → List Act
  | _, [] => []
  | e, a :: acts => (e.lightened gone a).toList ++ lighten gone (e.act a) acts

section Acts

variable {e e' : Engine} {gone place : Nat} {t : TaskId} {a : Act}

theorem wake_of_undue (undue : ∀ w ∈ e.waits, e.isDue w.2 = false) : e.wake = e := by
  have none : e.waits.filter (fun w => e.isDue w.2) = [] :=
    List.filter_eq_nil_iff.mpr fun w mem => by simp [undue w mem]
  have all : e.waits.filter (fun w => !e.isDue w.2) = e.waits :=
    List.filter_eq_self.mpr fun w mem => by simp [undue w mem]
  unfold wake
  rw [none, all, List.map_nil, List.append_nil]

theorem eraseIdx_modify {α : Type} (l : List α) (f : α → α) : (l.modify gone f).eraseIdx gone = l.eraseIdx gone := by
  refine List.ext_getElem? fun i => ?_
  rw [List.getElem?_eraseIdx, List.getElem?_eraseIdx, List.getElem?_modify, List.getElem?_modify]
  split
  · have ne : gone ≠ i := by omega
    simp [ne]
  · have ne : gone ≠ i + 1 := by omega
    simp [ne]

/-- The caller of the shutdown gives the processor away, waits or returns: without the shutdown nothing has happened. -/
theorem without_settleCloser_self (current : e.current = some (.closer gone)) (alert : e.Alert) (watching : e.Watching)
    (m : Move CloserStage) : (settleCloser gone (e, m)).without gone = e.without gone := by
  have leaves : (TaskId.closer gone).past gone = none := TaskId.past_self
  cases m with
  | go => simp only [settleCloser, handOn, without, eraseIdx_modify]
  | yield => simp [settleCloser, handOn, without, eraseIdx_modify, current, leaves, List.filterMap_append]
  | wait => simp [settleCloser, handOn, without, eraseIdx_modify, current, leaves, List.filterMap_append, waitPast]
  | stop ending =>
    -- nobody waits for the end of a shutdown
    have awake : wake { e with closers := e.closers.modify gone fun _ => .over ending, current := none } =
        { e with closers := e.closers.modify gone fun _ => .over ending, current := none } := by
      refine wake_of_undue fun w mem => ?_
      have undue := alert.undue w mem
      cases on : w.2 with
      | gate | bus | clock =>
        rw [on] at undue
        exact undue
      | tasks ids due =>
        have same : ids.all (isOver { e with closers := e.closers.modify gone fun _ => .over ending, current := none }) =
            ids.all e.isOver := by
          rw [Bool.eq_iff_iff, List.all_eq_true, List.all_eq_true]
          refine forall₂_congr fun t ht => ?_
          rcases watching w mem ids due on t ht with ⟨x, rfl⟩ | ⟨j, rfl⟩ <;> rfl
        rw [on] at undue
        simp only [isDue, same]
        exact undue
    simp only [settleCloser, handOn, lifeAfter]
    rw [awake]
    simp only [without, eraseIdx_modify, current, Option.bind_some, Option.bind_none, leaves]

/-- While the caller of the shutdown has the processor nothing happens without the shutdown. -/
theorem without_self (sound : e.Sound) (patient : e.Patient a) (current : e.current = some (.closer gone)) :
    (e.act a).without gone = e.without gone := by
  have kept := without_settleCloser_self current sound.alert sound.watching
  have happens := sound.happens a
  generalize e.act a = e' at happens
  cases happens with
  | still => rfl
  | vacant => simp only [without, current, Option.bind_some, Option.bind_none, TaskId.past_self]
  -- a shutdown that has not timed out looks around, and no more
  | @closer _ j stage current' life =>
    obtain rfl : gone = j := by simpa [current] using current'
    have still := moveCloser_of_patient patient current' life
    rw [← Prod.eta (e.moveCloser stage), still]
    exact kept _
  | @closerCanceled _ j _ current' =>
    obtain rfl : gone = j := by simpa [current] using current'
    exact kept _
  | _ => simp_all

theorem exists_split_of_getElem? {α : Type} {l : List α} {i : Nat} {b : α} (at_i : l[i]? = some b) :
    ∃ before after, l = before ++ b :: after ∧ before.length = i := by
  obtain ⟨lt, rfl⟩ := List.getElem?_eq_some_iff.mp at_i
  refine ⟨l.take i, l.drop (i + 1), ?_, List.length_take_of_le (Nat.le_of_lt lt)⟩
  rw [← List.drop_eq_getElem_cons lt, List.take_append_drop]

theorem eraseIdx_append_cons {α : Type} (before after : List α) (b : α) :
    (before ++ b :: after).eraseIdx before.length = before ++ after := by
  rw [List.eraseIdx_append_of_length_le (Nat.le_refl _), Nat.sub_self, List.eraseIdx_cons_zero]

/-- The task at a place of the queue gets the processor. -/
theorem turnAt_lightened (free : e.current = none) (at_place : e.ready[place]? = some t) :
    (e.lightened gone (.turn place)).toList.foldl act (e.without gone) = (e.act (.turn place)).without gone := by
  have chosen : e.act (.turn place) = { e with current := some t, ready := e.ready.eraseIdx place } := by
    simp [act, turnAt, free, at_place]
  have free' : (e.without gone).current = none := by simp [without, free]
  rw [chosen]
  simp only [lightened, free, at_place]
  obtain ⟨before, after, ready, rfl⟩ := exists_split_of_getElem? at_place
  have erased : e.ready.eraseIdx before.length = before ++ after := by
    rw [ready, eraseIdx_append_cons]
  rw [erased]
  cases past : t.past gone with
  | none => simp [without, free, ready, past, List.filterMap_append]
  | some t' =>
    have ready' : (e.without gone).ready = before.filterMap (·.past gone) ++ t' :: after.filterMap (·.past gone) := by
      simp [without, ready, past, List.filterMap_append]
    have before' : (e.ready.take before.length).filterMap (·.past gone) = before.filterMap (·.past gone) := by
      rw [ready, List.take_left]
    have at_place' : (e.without gone).ready[(before.filterMap (·.past gone)).length]? = some t' := by simp [ready']
    have erased' : (e.without gone).ready.eraseIdx (before.filterMap (·.past gone)).length =
        before.filterMap (·.past gone) ++ after.filterMap (·.past gone) := by
      rw [ready', eraseIdx_append_cons]
    simp only [before', Option.map_some, Option.toList_some, List.foldl_cons, List.foldl_nil, act, turnAt, free',
      at_place', erased']
    simp [without, past, List.filterMap_append]

/-- **An act does to the engine without a shutdown what is left of it does**, unless the shutdown times out. -/
theorem act_lightened (sound : e.Sound) (patient : e.Forbearing gone a) (known : gone < e.closers.length) :
    (e.lightened gone a).toList.foldl act (e.without gone) = (e.act a).without gone := by
  have bypasses := sound.watching.bypasses gone
  cases current : e.current with
  | some t =>
    have busy : (e.without gone).current = t.past gone := by simp [without, current]
    cases past : t.past gone with
    | none =>
      obtain rfl := TaskId.past_eq_none past
      simpa [lightened, current, past] using (without_self sound (patient current) current).symm
    | some t' =>
      rw [past] at busy
      have moved := without_move bypasses past
      cases a with
      | turn place => simpa [lightened, past, act, turnAt, current, busy] using moved
      | host deed => simp [lightened, past, act, current, busy]
  | none =>
    have free : (e.without gone).current = none := by simp [without, current]
    cases a with
    | turn place =>
      cases at_place : e.ready[place]? with
      | none =>
        have fewer : (e.without gone).ready[place]? = none := by
          rw [List.getElem?_eq_none_iff] at at_place ⊢
          exact Nat.le_trans (List.length_filterMap_le _ _) at_place
        simp [lightened, act, turnAt, current, at_place, free, fewer]
      | some t => exact turnAt_lightened current at_place
    | host deed => simpa [lightened, act, current, free] using without_undergo bypasses known deed

/-- Callers of `shutdown` are never forgotten. -/
theorem Happens.closers_le (h : Happens e a e') : e.closers.length ≤ e'.closers.length := by
  rcases h.shuffles with ⟨place, t, -, -, -, rfl⟩ | shuffles
  · exact Nat.le_refl _
  · by_contra fewer
    have last : e.Has (.closer (e.closers.length - 1)) := by
      unfold Has
      omega
    have still : e.closers.length - 1 < e'.closers.length := shuffles.has _ last
    omega

/-- What is left of an act in the order of the queue is in the order of the queue. -/
theorem lightened_inOrder {a' : Act} (left : e.lightened gone a = some a') (inOrder : a.InOrder) : a'.InOrder := by
  unfold lightened at left
  split at left
  · obtain ⟨_, -, rfl⟩ := Option.map_eq_some_iff.mp left
    exact inOrder
  · cases left
    exact inOrder
  · next place _ =>
    obtain rfl : place = 0 := inOrder
    split at left
    · obtain ⟨_, -, rfl⟩ := Option.map_eq_some_iff.mp left
      rfl
    · cases left
      rfl

end Acts

/-! ## Runs without a shutdown -/

/-- Each of some acts is one that `P` admits where it takes place. -/
def Admits (P : Engine → Act → Prop) : Engine → List Act → Prop
  | _, [] => True
  | e, a :: acts => P e a ∧ Admits P (e.act a) acts

/-- Whether a run is admitted can be decided act by act. -/
def decideAdmits {P : Engine → Act → Prop} [∀ e a, Decidable (P e a)] : ∀ e acts, Decidable (Admits P e acts)
  | _, [] => .isTrue trivial
  | e, a :: acts => @instDecidableAnd _ _ inferInstance (decideAdmits (e.act a) acts)

instance {P : Engine → Act → Prop} [∀ e a, Decidable (P e a)] (e : Engine) (acts : List Act) :
    Decidable (Admits P e acts) := decideAdmits e acts

/-- The deeds of the host that take place in a run, since no task has the processor. -/
def deedsOf : Engine → List Act → List Deed
  | _, [] => []
  | e, a :: acts =>
    (match a with
      | .host deed => if e.current = none then [deed] else []
      | .turn _ => []) ++ deedsOf (e.act a) acts

section Runs

variable {P : Engine → Act → Prop} {e e' : Engine} {gone : Nat} {acts : List Act}

theorem Admits.reaches (h : Admits P e acts) : Reaches P e (acts.foldl act e) := by
  induction acts generalizing e with
  | nil => exact .refl
  | cons a acts ih => exact (Reaches.single h.1).trans (ih h.2)

theorem Admits.mono {Q : Engine → Act → Prop} (h : Admits P e acts) (implies : ∀ e a, P e a → Q e a) :
    Admits Q e acts := by
  induction acts generalizing e with
  | nil => trivial
  | cons a acts ih => exact ⟨implies e a h.1, ih h.2⟩

theorem foldl_reaches (e : Engine) (acts : List Act) : Reaches anyOrder e (acts.foldl act e) := by
  induction acts generalizing e with
  | nil => exact .refl
  | cons a acts ih => exact (Reaches.single trivial).trans (ih _)

/-- **A run does to the engine without a shutdown what is left of it does**, as long as the shutdown does not time out. -/
theorem foldl_lighten (reachable : e.Reachable) (patient : Admits (Forbearing gone) e acts)
    (sound : (acts.foldl act e).Sound) (known : gone < e.closers.length) :
    (lighten gone e acts).foldl act (e.without gone) = (acts.foldl act e).without gone := by
  induction acts generalizing e with
  | nil => rfl
  | cons a acts ih =>
    have next : Reachable (e.act a) := reachable.trans (.single trivial)
    have sound₁ : e.Sound := sound.of_reaches reachable (foldl_reaches e (a :: acts))
    rw [lighten, List.foldl_append, act_lightened sound₁ patient.1 known, List.foldl_cons]
    exact ih next patient.2 sound (Nat.lt_of_lt_of_le known (sound₁.happens a).closers_le)

theorem lighten_inOrder (inOrder : ∀ a ∈ acts, a.InOrder) : ∀ a ∈ lighten gone e acts, a.InOrder := by
  induction acts generalizing e with
  | nil => simp [lighten]
  | cons a acts ih =>
    intro a' mem
    rcases List.mem_append.mp mem with now | later
    · exact lightened_inOrder (Option.mem_toList.mp now) (inOrder a List.mem_cons_self)
    · exact ih (fun a mem => inOrder a (List.mem_cons_of_mem _ mem)) a' later

theorem deedsOf_append (e : Engine) (acts more : List Act) :
    deedsOf e (acts ++ more) = deedsOf e acts ++ deedsOf (acts.foldl act e) more := by
  induction acts generalizing e with
  | nil => rfl
  | cons a acts ih => simp only [List.cons_append, deedsOf, ih, List.foldl_cons, List.append_assoc]

theorem deedsOf_lightened (e : Engine) (a : Act) :
    deedsOf (e.without gone) (e.lightened gone a).toList = deedsOf e [a] := by
  have turns (e : Engine) {left : Option Act} (turns : ∀ a ∈ left, ∃ place, a = .turn place) :
      deedsOf e left.toList = [] := by
    cases left with
    | none => rfl
    | some a =>
      obtain ⟨place, rfl⟩ := turns a rfl
      rfl
  cases a with
  | turn place =>
    refine turns _ fun a mem => ?_
    unfold lightened at mem
    split at mem
    · obtain ⟨_, -, rfl⟩ := Option.map_eq_some_iff.mp mem
      exact ⟨_, rfl⟩
    · next eq => cases eq
    · split at mem
      · obtain ⟨_, -, rfl⟩ := Option.map_eq_some_iff.mp mem
        exact ⟨_, rfl⟩
      · cases mem
        exact ⟨_, rfl⟩
  | host deed =>
    cases current : e.current with
    | none => simp [lightened, deedsOf, without, current]
    | some t => cases past : t.past gone <;> simp [lightened, deedsOf, without, current, past]

/-- The host does the same. -/
theorem deedsOf_lighten (reachable : e.Reachable) (patient : Admits (Forbearing gone) e acts)
    (sound : (acts.foldl act e).Sound) (known : gone < e.closers.length) :
    deedsOf (e.without gone) (lighten gone e acts) = deedsOf e acts := by
  induction acts generalizing e with
  | nil => rfl
  | cons a acts ih =>
    have next : Reachable (e.act a) := reachable.trans (.single trivial)
    have sound₁ : e.Sound := sound.of_reaches reachable (foldl_reaches e (a :: acts))
    have rest := ih next patient.2 sound (Nat.lt_of_lt_of_le known (sound₁.happens a).closers_le)
    have split : deedsOf e (a :: acts) = deedsOf e [a] ++ deedsOf (e.act a) acts := deedsOf_append e [a] acts
    rw [lighten, deedsOf_append, act_lightened sound₁ patient.1 known, rest, deedsOf_lightened, split]

end Runs

/-! ## A shutdown that returns -/

section Shutdown

variable {e e' : Engine}

/-- Without it a shutdown has not begun. -/
theorem without_beginShutdown_self (placed : e.Placed) (free : e.current = none) (timeout : Option Rat) :
    (e.beginShutdown timeout).without e.closers.length = e := by
  have known (t : TaskId) (present : 1 ≤ e.presence t) : t.past e.closers.length = some t := by
    have has : e.Has t := by
      by_contra missing
      have none := placed.known t missing
      omega
    cases t with
    | closer k => exact TaskId.past_of_lt has
    | course | delivery | caller | joiner => rfl
  have ready : e.ready.filterMap (·.past e.closers.length) = e.ready := by
    refine (List.filterMap_congr fun t mem => known t ?_).trans List.filterMap_some
    have counted := List.count_pos_iff.mpr mem
    simp only [presence]
    omega
  have waits : e.waits.filterMap (waitPast e.closers.length) = e.waits := by
    refine (List.filterMap_congr fun w mem => ?_).trans List.filterMap_some
    have counted := List.count_pos_iff.mpr (List.mem_map_of_mem (f := Prod.fst) mem)
    rw [waitPast, known w.1 (by simp only [presence]; omega), Option.map_some]
  simp only [without, beginShutdown, ready, waits, eraseIdx_append_cons, List.append_nil, Option.bind_some,
    TaskId.past_self, ← free]

/-- **Shutdown is quiescent and flushes**: when a shutdown returns nothing is pending, no reason of a cancellation is on
its way and no call is in progress.  If no shutdown has timed out, every detached call has run to its own end.  If this one
has not, then it has canceled nothing: everything else is as it is after a run without it, in which the host does the
same. -/
theorem shutdown_flushes {timeout : Option Rat} {acts : List Act} (reachable : e.Reachable) (free : e.current = none)
    (run : acts.foldl act (e.act (.host (.shutdown timeout))) = e') (returned : e'.Returned e.closers.length)
    (unsubmitted : ∀ y c, e.courses.length ≤ y → e'.courses[y]? = some c → c.execution.parent ≠ none)
    (calm : e'.Calm) (named : e'.WellNamed) :
    e'.Quiescent ∧
      (e.ReachableBy Patient → Admits Patient (e.act (.host (.shutdown timeout))) acts →
        ∀ d ∈ e'.deliveries, d.Made e'.calls) ∧
      (Admits (Forbearing e.closers.length) (e.act (.host (.shutdown timeout))) acts →
        ∃ plain, plain.foldl act e = e'.without e.closers.length ∧
          deedsOf e plain = deedsOf (e.act (.host (.shutdown timeout))) acts ∧
          ((∀ a ∈ acts, a.InOrder) → ∀ a ∈ plain, a.InOrder)) := by
  subst run
  have first : Reaches anyOrder e (e.act (.host (.shutdown timeout))) := .single trivial
  have on := foldl_reaches (e.act (.host (.shutdown timeout))) acts
  have sound' := Reachable.sound (reachable.trans (first.trans on)) calm named
  have sound := sound'.of_reaches reachable (first.trans on)
  have quiescent := quiescent_of_shutdown reachable free timeout on returned unsubmitted calm named
  refine ⟨quiescent, fun before patient d mem => ?_, fun patient => ?_⟩
  · -- a deed of the host is no turn of a shutdown
    have called : Reaches Patient e (e.act (.host (.shutdown timeout))) := .single id
    refine ((before.trans (called.trans patient.reaches)).unbroken sound' d mem).made ?_
    obtain ⟨k, at_k⟩ := List.mem_iff_getElem?.mp mem
    by_contra live
    have lt := (List.getElem?_eq_some_iff.mp at_k).1
    have mem : k ∈ Engine.dispatches _ :=
      List.mem_filter.mpr ⟨List.mem_range.mpr lt, by simpa [isOver, at_k] using live⟩
    rw [quiescent.dispatches] at mem
    cases mem
  · have begun : e.act (.host (.shutdown timeout)) = e.beginShutdown timeout := by simp [act, free, undergo]
    have known : e.closers.length < (e.act (.host (.shutdown timeout))).closers.length := by
      simp [begun, beginShutdown]
    have before : (e.act (.host (.shutdown timeout))).without e.closers.length = e := by
      rw [begun, without_beginShutdown_self sound.placed free]
    have lightened := foldl_lighten (reachable.trans first) patient sound' known
    have deeds := deedsOf_lighten (reachable.trans first) patient sound' known
    rw [before] at lightened deeds
    exact ⟨_, lightened, deeds, lighten_inOrder⟩

/-! ### A run in which a shutdown waits for detached calls -/

/-- A resolver that is not waited for and takes two seconds. -/
def lagging (slot : Nat) (stepType : String) : Handler :=
  ⟨slot, "Plain", stepType, .propagate, true, fun _ _ => .sleep 2 (.answer none) (.raise .canceled)⟩

/-- An execution has been submitted that leaves its step to a detached call, and schedules another that does so too. -/
def laggingRun : Engine :=
  let afterwards : Workflow := ⟨[⟨"tidy", .null, .empty, by decide⟩], .text "afterwards", none, .empty, .empty⟩
  let process state (step : Step) (_ : Option Value) :=
    .ok ⟨state, if step.stepType = "report" then [afterwards] else []⟩
  let registry := (Registry.empty.register "report" (lagging 0 "report")).register "tidy" (lagging 1 "tidy")
  (fresh .standard process none registry).act
    (.host (.start ⟨[⟨"report", .null, .empty, by decide⟩], .text "trial", none, .empty, .empty⟩ .null))

/-- The tasks have their turns, two seconds pass, and they have more turns. -/
def laggingActs : List Act := List.replicate 40 (.turn 0) ++ .host (.pass 2) :: List.replicate 10 (.turn 0)

/-- The engine when a shutdown has returned that was called at once. -/
def laggingEnd : Engine := laggingActs.foldl act (laggingRun.act (.host (.shutdown (some 10))))

/-- The shutdown waits for the detached calls of both executions. -/
theorem laggingEnd_flushed : laggingEnd.Quiescent ∧ laggingEnd.courses.length = 2 ∧
    laggingEnd.deliveries.length = 2 ∧ (∀ d ∈ laggingEnd.deliveries, d.Made laggingEnd.calls) ∧
    ∃ plain : List Act, plain.foldl act laggingRun = laggingEnd.without 0 := by
  have started : laggingRun.ReachableBy Patient := by
    unfold laggingRun
    exact Reaches.of_fresh (.single id)
  have calm : laggingRun.Calm := by
    unfold laggingRun
    exact (Reaches.single trivial : Reaches anyOrder _ _).calm_iff.mpr (fresh_calm _ _ _)
  have run : Reaches anyOrder laggingRun laggingEnd :=
    (Reaches.single trivial : Reaches anyOrder _ _).trans (foldl_reaches _ laggingActs)
  have spawned : ∀ c ∈ laggingEnd.courses.drop laggingRun.courses.length, c.execution.parent ≠ none := by
    decide +kernel
  have unsubmitted : ∀ y c, laggingRun.courses.length ≤ y → laggingEnd.courses[y]? = some c →
      c.execution.parent ≠ none := by
    intro y c le at_y
    refine spawned c (List.mem_of_getElem? (i := y - laggingRun.courses.length) ?_)
    rwa [List.getElem?_drop, Nat.add_sub_cancel' le]
  have patient : Admits Patient (laggingRun.act (.host (.shutdown (some 10)))) laggingActs := by decide +kernel
  obtain ⟨quiescent, flushed, unnoticed⟩ := shutdown_flushes (started.mono fun _ _ _ => trivial) (by decide +kernel) rfl
    (by decide +kernel) unsubmitted (run.calm_iff.mpr calm) (by decide +kernel : laggingEnd.WellNamed)
  obtain ⟨plain, same, -⟩ := unnoticed (patient.mono fun _ _ patient _ => patient)
  exact ⟨quiescent, by decide +kernel, by decide +kernel, flushed started patient, plain, same⟩

end Shutdown

end Engine

end Stepflow
