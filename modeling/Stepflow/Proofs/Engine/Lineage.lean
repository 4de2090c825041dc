import Mathlib.Data.List.Nodup
import Stepflow.Proofs.Engine.Announcing
import Stepflow.Proofs.Engine.Broods
import Stepflow.Proofs.Engine.Threading

/-!
# Stepflow.Proofs.Engine.Lineage — who spawned whom, and what was passed over

* `Workflow.GoesBy`: what a spawned workflow goes by below its parent, whichever way it is given its name.
* `Engine.passedOver`: what the announcements tell of workflows that an execution had scheduled and did not spawn.
* `Pursues`: what a move of an execution does to the part of its schedule that it has gone through.  `Tells`: the
  announcements name those of that part whose guards do not hold; `Moved.tells` keeps it.
* `Kinship`: children are numbered upwards, and every execution with a parent is a child of that parent.
* `lineage_of_reachable`: what this comes to.  A completed execution has spawned each workflow that its steps scheduled
  and whose guard holds, in order and once, and has announced each other; all other executions have no children.
-/

namespace Stepflow

/-! ## The names of children -/

/-- What a spawned workflow goes by below its parent: the name it brings, and its position among those scheduled if it brings
none or one without characters. -/
inductive Workflow.GoesBy (workflow : Workflow) (position : Nat) : String → Prop
  | name {name : String} (brings : workflow.name = .text name) (nonempty : name ≠ "") : GoesBy workflow position name
  | position (nameless : workflow.name = .null ∨ workflow.name = .text "") :
      GoesBy workflow position (toString position)

/-- A workflow whose name can be part of a path is given the name that it goes by. -/
theorem Workflow.childName_goesBy {workflow : Workflow} (writable : workflow.name = .null ∨ ∃ s, workflow.name = .text s)
    (position : Nat) : ∃ name, workflow.GoesBy position name ∧ workflow.childName position = .text name := by
  unfold childName
  rcases writable with none | ⟨name, brings⟩
  · exact ⟨_, .position (.inl none), by simp [none, Datum.isVacant]⟩
  · by_cases empty : name = ""
    · subst empty
      exact ⟨_, .position (.inr brings), by simp [brings, Datum.isVacant]⟩
    · exact ⟨name, .name brings empty, by simp [brings, Datum.isVacant, empty]⟩

/-! ## What has been passed over -/

/-- The workflow that an announcement says execution number `x` has passed over: its name and its position. -/
def Lifecycle.passedOver? (x : Nat) : Lifecycle → Option (Datum × Nat)
  | .childSkipped y name position => if y = x then some (name, position) else none
  | _ => none

/-- The scheduled workflows whose guards do not hold, with their positions. -/
def unwanted (scheduled : List Workflow) (state : State) : List (Workflow × Nat) :=
  scheduled.zipIdx.filter fun p => !p.1.shouldRun state

theorem unwanted_concat (scheduled : List Workflow) (workflow : Workflow) (state : State) :
    unwanted (scheduled ++ [workflow]) state =
      unwanted scheduled state ++ if workflow.shouldRun state then [] else [(workflow, scheduled.length)] := by
  cases should : workflow.shouldRun state <;>
    simp [unwanted, List.zipIdx_append, List.filter_append, should]

/-- The workflows that execution number `x` has passed over, as the announcements tell. -/
def Engine.passedOver (e : Engine) (x : Nat) : List (Datum × Nat) := e.events.filterMap (Lifecycle.passedOver? x)

/-- Announcements none of which says that a workflow is passed over. -/
def Mute (events : List Lifecycle) : Prop := ∀ x, events.filterMap (Lifecycle.passedOver? x) = []

/-! ## The schedule, gone through -/

/-- What a move of the task of execution number `x` does to the part of its schedule that it has gone through. -/
inductive Pursues (x : Nat) (c : Course) (eff : Effect) : Prop
  | kept (attended : (eff.course c).attended = c.attended)
      (state : c.attended = [] ∨ eff.execution.state = c.execution.state)
      (mute : Mute eff.events)
  | spawned {workflow : Workflow} (attended : (eff.course c).attended = c.attended ++ [workflow])
      (state : eff.execution.state = c.execution.state) (should : workflow.shouldRun c.execution.state = true)
      (mute : Mute eff.events)
  | passed {workflow : Workflow} (attended : (eff.course c).attended = c.attended ++ [workflow])
      (state : eff.execution.state = c.execution.state) (should : workflow.shouldRun c.execution.state = false)
      (events : eff.events = [.childSkipped x workflow.name c.attended.length])

section Pursues

variable {e e' : Engine} {x : Nat} {c c' : Course} {eff : Effect}

/-- Away from its schedule an execution that is not completed has gone through nothing of it. -/
theorem Pursues.of_incomplete (incomplete : c.execution.status ≠ .completed)
    (incomplete' : eff.execution.status ≠ .completed)
    (away : ∀ position rest interrupted, c.life ≠ .live (.spawning position rest) interrupted)
    (before : ∀ interrupted, c.life ≠ .live .completing interrupted)
    (nothing : (eff.course c).attended = if eff.execution.status = .completed then eff.scheduled else [])
    (mute : Mute eff.events) : Pursues x c eff := by
  have attended : c.attended = [] := by
    unfold Course.attended
    split
    · exact absurd ‹_› (away _ _ _)
    · exact absurd ‹_› (before _)
    · exact if_neg incomplete
  exact .kept (by rw [attended, nothing, if_neg incomplete']) (.inl attended) mute

theorem Advance.pursues {stage : Stage} (h : Advance e x c stage eff) (life : c.life = .live stage false)
    (stands : Stands e.settings.maxDepth c.execution c.scheduled c.life) : Pursues x c eff := by
  obtain ⟨a, scheduled, _, reason⟩ := c
  dsimp only at life stands
  subst life
  cases h with
  | @spawned position workflow rest should =>
    cases stands with
    | @spawning _ _ before spent status split length =>
      obtain ⟨taken, taken'⟩ := take_of_split split length
      refine .spawned ?_ rfl should (fun _ => rfl)
      simp only [Course.attended, Effect.course, Engine.lifeAfter, taken, taken']
  | @rejected position workflow rest should =>
    cases stands with
    | @spawning _ _ before spent status split length =>
      obtain ⟨taken, taken'⟩ := take_of_split split length
      refine @Pursues.passed _ _ _ workflow ?_ rfl should ?_
      · simp only [Course.attended, Effect.course, Engine.lifeAfter, taken, taken']
      · simp only [Course.attended, taken, length]
  | @spawnedAll position =>
    cases stands with
    | spawning spent status split length =>
      refine .kept ?_ (.inr rfl) fun _ => rfl
      simp [Course.attended, Effect.course, Engine.lifeAfter, split, ← length]
  -- from here on nothing is spawned: all of the schedule is attended to at completion, and nothing before it
  | unscheduled nothing =>
    cases stands with
    | finishing running =>
      refine .kept ?_ (.inr rfl) fun _ => rfl
      simpa [Course.attended, Effect.course, Engine.lifeAfter, running.status] using nothing
  | scheduled something =>
    cases stands with
    | finishing running =>
      refine .kept ?_ (.inr rfl) fun _ => rfl
      simp [Course.attended, Effect.course, Engine.lifeAfter, running.status]
  | completed => exact .kept rfl (.inr rfl) fun _ => rfl
  | closed => exact .kept rfl (.inr rfl) fun _ => rfl
  | left => exact .kept rfl (.inr rfl) fun _ => rfl
  | begun =>
    cases stands with
    | unbegun unbegun =>
      exact .of_incomplete (by simp [unbegun.status_eq]) (by simp) (by simp) (by simp) rfl fun _ => rfl
  | tooDeep | shallow =>
    cases stands with
    | admitted running =>
      exact .of_incomplete (by simp [running.status]) (by simp [Execution.endWith, running.status]) (by simp) (by simp)
        rfl fun _ => rfl
  | unknown | skipped | dispatched | called | exhausted =>
    cases stands with
    | reaching running =>
      exact .of_incomplete (by simp [running.status]) (by simp [Execution.record, running.status]) (by simp) (by simp)
        rfl fun _ => rfl
  | unresolved | remarked | slept | gaveWay | passed | barred | answered | yielded | recovered =>
    cases stands with
    | calling running =>
      exact .of_incomplete (by simp [running.status]) (by simp [running.status]) (by simp) (by simp) rfl fun _ => rfl
  | resumed =>
    cases stands with
    | holding running =>
      exact .of_incomplete (by simp [running.status]) (by simp [running.status]) (by simp) (by simp) rfl fun _ => rfl
  | unprocessed | adopted | preempted | abandoned =>
    cases stands with
    | handled running | dispatched running =>
      exact .of_incomplete (by simp [running.status]) (by simp [Execution.record, running.status]) (by simp) (by simp)
        rfl fun _ => rfl
  | passedOver | acknowledged =>
    cases stands with
    | canceling running =>
      exact .of_incomplete (by simp [running.status]) (by simp [running.status]) (by simp) (by simp) rfl fun _ => rfl

/-- A cancellation meets a task that has gone through nothing. -/
theorem Moved.pursues (h : Moved e x c eff) (stands : Stands e.settings.maxDepth c.execution c.scheduled c.life) :
    Pursues x c eff := by
  cases h with
  | advanced life advance => exact advance.pursues life stands
  | @diverted stage life =>
    obtain ⟨a, scheduled, _, reason⟩ := c
    dsimp only at life stands
    subst life
    cases stands with
    | unbegun unbegun =>
      exact .of_incomplete (by simp [unbegun.status_eq]) (by simp [unbegun.status_eq]) (by simp) (by simp) rfl
        fun _ => rfl
    | stillborn unbegun names_eq eq =>
      exact .of_incomplete (by simp [eq]) (by simp [eq]) (by simp) (by simp) rfl fun _ => rfl
    | holding running | dispatched running =>
      exact .of_incomplete (by simp [running.status]) (by simp [running.status]) (by simp) (by simp) rfl fun _ => rfl

/-- What comes from outside leaves the schedule of an execution where it is. -/
theorem Touched.attended_eq {maxDepth : Int} {now : Rat} (h : Touched now c c')
    (stands : Stands maxDepth c.execution c.scheduled c.life) :
    c'.attended = c.attended ∧ c'.execution.state = c.execution.state := by
  rcases h with signaled | marked
  · exact ⟨Course.attended_congr signaled.scheduled (congrArg Execution.status signaled.execution) signaled.life,
      congrArg Execution.state signaled.execution⟩
  · cases marked with
    | waiting names_eq idle life =>
      obtain ⟨-, opening⟩ := stands.of_idle idle
      obtain ⟨interrupted, eq⟩ := opening (by rw [life]; rfl)
      rw [life] at eq
      cases eq
      exact ⟨by simp [Course.attended, life, idle], rfl⟩
    | stranded names_eq unfinished life =>
      have unbegun := stands.unbegun_of_over (by rw [life]; rfl) unfinished
      exact ⟨by simp [Course.attended, life, unbegun.status_eq], rfl⟩

/-- An execution that spawns lists the execution that is accepted. -/
theorem Fate.lists {child : Execution} (fate : Fate e e' x c c') (moved : Moved e x c eff)
    (born : eff.born = some child) (current : e.current = some (.course x)) (changed : e' ≠ e) :
    c'.execution.children = c.execution.children ++ [e.courses.length] := by
  obtain ⟨position, workflow, rest, life, should, -⟩ := moved.born_eq born
  cases fate with
  | kept away => exact absurd (away current) changed
  | touched _ away => simp [life, Life.isOver] at away; exact absurd current away
  | moved _ moved =>
    cases moved with
    | diverted life' => rw [life] at life'; cases life'
    | advanced life' advance =>
      rw [life] at life'
      cases life'
      cases advance with
      | spawned => rfl
      | rejected should_not => rw [should] at should_not; cases should_not

/-- An execution has no children while it runs. -/
theorem Moved.childless (h : Moved e x c eff) (stands : Stands e.settings.maxDepth c.execution c.scheduled c.life)
    (before : c.execution.status = .running → c.execution.children = []) (running : eff.execution.status = .running) :
    eff.execution.children = [] := by
  cases h with
  | diverted => exact before running
  | advanced life advance =>
    rw [life] at stands
    cases advance with
    | begun =>
      cases stands with
      | unbegun unbegun => exact unbegun.children_eq
    | spawned =>
      cases stands with
      | spawning spent status => simp [status] at running
    | tooDeep | unknown | unresolved | unprocessed | acknowledged => simp [Execution.endWith] at running
    | scheduled | completed => simp at running
    | _ => exact before running

end Pursues

/-! ## What the announcements tell -/

namespace Engine

/-- The announcements name those of the workflows gone through that execution number `x` has not spawned. -/
def Tells (e : Engine) (x : Nat) (c : Course) : Prop :=
  e.bus.isSome = true →
    e.passedOver x = (unwanted c.attended c.execution.state).map fun p => (p.1.name, p.2)

section Tells

variable {e e' : Engine} {x : Nat} {c c' : Course} {a : Act}

/-- From `e` to `e'` nothing is announced about workflows passed over. -/
def Hushed (e e' : Engine) : Prop := ∃ news, e'.events = e.events ++ news ∧ Mute news

theorem Hushed.passedOver_eq (h : Hushed e e') (x : Nat) : e'.passedOver x = e.passedOver x := by
  obtain ⟨news, events, mute⟩ := h
  rw [passedOver, events, List.filterMap_append, mute x, List.append_nil]
  rfl

/-- Workflows are only ever passed over in a move of the task of the execution that has scheduled them. -/
theorem Announces.hushed (h : Announces e e') :
    (∃ x c eff, e.current = some (.course x) ∧ e.courses[x]? = some c ∧ Moved e x c eff ∧
      e'.courses[x]? = some (eff.course c) ∧ e'.events = e.events ++ if e.bus.isSome then eff.events else []) ∨
    Hushed e e' ∧
      ∀ (x : Nat) (c : Course), e.courses[x]? = some c → ∃ c', e'.courses[x]? = some c' ∧ Touched e.clock c c' := by
  cases h with
  | course current at_x moved after _ _ _ events => exact .inl ⟨_, _, _, current, at_x, moved, after, events⟩
  | @delivery k d eff at_k moved courses _ _ events =>
    refine .inr ⟨⟨_, events, fun x => ?_⟩, fun x c hx => ⟨c, courses ▸ hx, .refl _ c⟩⟩
    split
    · cases moved with
      | delivered _ delivers => cases delivers <;> rfl
      | diverted => rfl
    · rfl
  | canceled at_y marked _ _ courses _ _ events =>
    refine .inr ⟨⟨_, events, fun x => ?_⟩, fun x c hx => touched_of_set marked at_y courses hx⟩
    split <;> rfl
  | silent silent =>
    refine .inr ⟨⟨[], by rw [silent.events, List.append_nil], fun _ => rfl⟩, fun x c hx => ?_⟩
    obtain ⟨c', hx', signaled⟩ := silent.courses x c hx
    exact ⟨c', hx', .inl signaled⟩

theorem passedOver_append {news : List Lifecycle} (events : e'.events = e.events ++ news) (y : Nat) :
    e'.passedOver y = e.passedOver y ++ news.filterMap (Lifecycle.passedOver? y) := by
  rw [passedOver, events, List.filterMap_append]
  rfl

/-- A move tells what it passes over. -/
theorem Tells.moved {eff : Effect} (h : e.Tells x c) (pursues : Pursues x c eff) (bus : e'.bus = e.bus)
    (events : e'.events = e.events ++ if e.bus.isSome then eff.events else []) : e'.Tells x (eff.course c) := by
  intro announced
  rw [bus] at announced
  have told := h announced
  rw [if_pos announced] at events
  rw [passedOver_append events, told]
  cases pursues with
  | kept attended state mute =>
    rw [attended, mute x, List.append_nil]
    rcases state with nothing | same
    · rw [nothing]
      rfl
    · dsimp only [Effect.course]
      rw [same]
  | spawned attended state should mute =>
    dsimp only [Effect.course] at attended ⊢
    rw [attended, mute x, state, unwanted_concat, should]
    simp
  | passed attended state should event =>
    dsimp only [Effect.course] at attended ⊢
    rw [attended, event, state, unwanted_concat, should]
    simp [Lifecycle.passedOver?]

/-- A move tells nothing about other executions. -/
theorem passedOver_of_ne {eff : Effect} (pursues : Pursues x c eff) {y : Nat} (ne : y ≠ x)
    (events : e'.events = e.events ++ if e.bus.isSome then eff.events else []) : e'.passedOver y = e.passedOver y := by
  rw [passedOver_append events]
  split
  · cases pursues with
    | kept _ _ mute => rw [mute y, List.append_nil]
    | spawned _ _ _ mute => rw [mute y, List.append_nil]
    | passed _ _ _ event => simp [event, Lifecycle.passedOver?, Ne.symm ne]
  · simp

/-- The announcements name what each execution has passed over, and nothing else. -/
structure Telling (e : Engine) : Prop where
  tells : ∀ x c, e.courses[x]? = some c → e.Tells x c
  unborn : ∀ x, e.courses.length ≤ x → e.passedOver x = []

/-- An execution that an act leaves where it is in its schedule tells what it told. -/
theorem Tells.congr (h : e.Tells x c) (bus : e'.bus = e.bus) (told : e'.passedOver x = e.passedOver x)
    (attended : c'.attended = c.attended) (state : c'.execution.state = c.execution.state) : e'.Tells x c' := by
  intro announced
  rw [told, attended, state]
  exact h (bus ▸ announced)

/-- Of an execution whose task does not move, the announcements tell the same as before. -/
theorem Telling.stays (h : e.Telling) (sound : e.Sound) (outline : Outline e e') {x : Nat} {c' : Course}
    (hx' : e'.courses[x]? = some c') (same : e'.passedOver x = e.passedOver x)
    (stays : ∀ c, e.courses[x]? = some c → ∃ c', e'.courses[x]? = some c' ∧ Touched e.clock c c') : e'.Tells x c' := by
  obtain ⟨-, -, bus⟩ := outline.frame
  cases hx : e.courses[x]? with
  | none =>
    obtain ⟨-, execution, rfl, -⟩ := outline.newborn hx' hx
    have unbegun := outline.newborn_unbegun hx' hx
    have nothing : (Course.fresh execution).attended = [] := by
      simp [Course.attended, Course.fresh, unbegun.status_eq]
    intro announced
    rw [same, h.unborn x (List.getElem?_eq_none_iff.mp hx), nothing]
    rfl
  | some c =>
    have tells := h.tells x c hx
    obtain ⟨c'', hx'', touched⟩ := stays c hx
    obtain rfl : c' = c'' := by simpa [hx'] using hx''
    obtain ⟨attended, state⟩ := touched.attended_eq (sound.standing.stands x c hx)
    exact tells.congr bus same attended state

theorem Telling.act (h : e.Telling) (sound : e.Sound) (a : Act) : (e.act a).Telling := by
  have outline := sound.outline a
  obtain ⟨-, -, bus⟩ := outline.frame
  have longer := outline.length_le
  rcases (sound.announces a).hushed with ⟨y, d, eff, current, at_y, moved, after, events⟩ | ⟨hushed, touched⟩
  · have pursues := moved.pursues (sound.standing.stands y d at_y)
    have others : ∀ x, x ≠ y → (e.act a).passedOver x = e.passedOver x :=
      fun x ne => passedOver_of_ne pursues ne events
    refine ⟨fun x c' hx' => ?_, fun x le => ?_⟩
    · by_cases same : x = y
      · subst same
        obtain rfl : c' = eff.course d := by simpa [hx'] using after
        exact (h.tells x d at_y).moved pursues bus events
      · refine h.stays sound outline hx' (others x same) fun c hx => ?_
        refine ((sound.announces a).touched hx).resolve_left ?_
        rintro ⟨_, current', -⟩
        exact same (by simpa [current] using current'.symm)
    · have lt := (List.getElem?_eq_some_iff.mp at_y).1
      rw [others x (by omega)]
      exact h.unborn x (by omega)
  · refine ⟨fun x c' hx' => h.stays sound outline hx' (hushed.passedOver_eq x) (touched x), fun x le => ?_⟩
    rw [hushed.passedOver_eq x]
    exact h.unborn x (by omega)

theorem Sound.telling (h : e.Sound) : e.Telling := by
  refine h.induction (I := Telling) ?_ ?_
  · intro settings process bus registry
    exact ⟨by simp [fresh], fun _ _ => rfl⟩
  · intro e a sound _ _ telling
    exact telling.act sound a

end Tells

/-! ## Parents and children -/

/-- Children are numbered upwards, and every execution that has a parent is one of its children. -/
structure Kinship (e : Engine) : Prop where
  upwards : ∀ (x : Nat) (c : Course), e.courses[x]? = some c → c.execution.children.Pairwise (· < ·)
  running : ∀ (x : Nat) (c : Course), e.courses[x]? = some c → c.execution.status = .running →
    c.execution.children = []
  listed : ∀ (y : Nat) (d : Course) (p : Nat), e.courses[y]? = some d → d.execution.parent = some p →
    ∃ c, e.courses[p]? = some c ∧ y ∈ c.execution.children

section Kinship

variable {e e' : Engine} {x y : Nat} {c d : Course}

/-- The children of an execution are executions whose parent it is. -/
theorem Sound.parent_of_child (sound : e.Sound) (hx : e.courses[x]? = some c) (mem : y ∈ c.execution.children) :
    ∃ d, e.courses[y]? = some d ∧ d.execution.parent = some x := by
  have reared := sound.brood hx
  obtain ⟨i, hi, rfl⟩ := List.mem_iff_getElem.mp mem
  have hi' : i < (wanted c.attended c.execution.state).length := reared.length_eq ▸ hi
  obtain ⟨d, now, at_y, origin⟩ := reared.get hi hi'
  exact ⟨d, at_y, congrArg Execution.parent origin⟩

theorem Outline.upwards (outline : Outline e e') (sound : e.Sound) (kinship : e.Kinship)
    (hx' : e'.courses[x]? = some c) : c.execution.children.Pairwise (· < ·) := by
  cases hx : e.courses[x]? with
  | none =>
    obtain ⟨-, execution, rfl, -⟩ := outline.newborn hx' hx
    have unbegun := outline.newborn_unbegun hx' hx
    simp [Course.fresh, unbegun.children_eq]
  | some d =>
    obtain ⟨d', hd', fate⟩ := outline.fate hx
    obtain rfl : c = d' := by simpa [hx'] using hd'
    have sorted := kinship.upwards x d hx
    rcases fate.children_eq with same | more
    · rw [same]
      exact sorted
    · have known : ∀ y ∈ d.execution.children, y < e.courses.length := by
        intro y mem
        obtain ⟨d, at_y, -⟩ := sound.parent_of_child hx mem
        exact (List.getElem?_eq_some_iff.mp at_y).1
      rw [more, List.pairwise_append]
      exact ⟨sorted, by simp, by simpa using known⟩

theorem Outline.childless (outline : Outline e e') (standing : e.Standing) (kinship : e.Kinship)
    (hx' : e'.courses[x]? = some c) (running : c.execution.status = .running) : c.execution.children = [] := by
  cases hx : e.courses[x]? with
  | none =>
    obtain ⟨-, execution, rfl, -⟩ := outline.newborn hx' hx
    exact (outline.newborn_unbegun hx' hx).children_eq
  | some d =>
    have before := kinship.running x d hx
    obtain ⟨d', hd', fate⟩ := outline.fate hx
    obtain rfl : c = d' := by simpa [hx'] using hd'
    cases fate with
    | kept => exact before running
    | moved current moved => exact moved.childless (standing.stands x d hx) before running
    | touched touched =>
      rcases touched with signaled | marked
      · rw [signaled.execution] at running ⊢
        exact before running
      · cases marked <;> simp at running

theorem Outline.listed (outline : Outline e e') (kinship : e.Kinship) {p : Nat}
    (hy : e'.courses[y]? = some d) (parent : d.execution.parent = some p) :
    ∃ c, e'.courses[p]? = some c ∧ y ∈ c.execution.children := by
  cases at_y : e.courses[y]? with
  | none =>
    obtain ⟨rfl, execution, rfl, ⟨workflow, state, rfl⟩ | ⟨q, c, eff, current, at_q, moved, born⟩⟩ :=
      outline.newborn hy at_y
    · simp [Course.fresh, Execution.root, Execution.idle] at parent
    · obtain ⟨position, workflow, rest, -, -, rfl⟩ := moved.born_eq born
      obtain rfl : q = p := by simpa [Course.fresh, Execution.child, Execution.idle] using parent
      obtain ⟨c', at_q', fate⟩ := outline.fate at_q
      have changed : e' ≠ e := by
        rintro rfl
        rw [hy] at at_y
        cases at_y
      exact ⟨c', at_q', by simp [fate.lists moved born current changed]⟩
  | some d₀ =>
    obtain ⟨d', hd', fate⟩ := outline.fate at_y
    obtain rfl : d = d' := by simpa [hy] using hd'
    obtain ⟨c, at_p, mem⟩ := kinship.listed y d₀ p at_y (by rw [← Execution.parent_eq fate.origin_eq]; exact parent)
    obtain ⟨c', at_p', fate'⟩ := outline.fate at_p
    refine ⟨c', at_p', ?_⟩
    rcases fate'.children_eq with same | more
    · rw [same]
      exact mem
    · rw [more]
      exact List.mem_append_left _ mem

theorem Sound.kinship (h : e.Sound) : e.Kinship := by
  refine h.induction (I := Kinship) ?_ ?_
  · intro settings process bus registry
    exact ⟨by simp [fresh], by simp [fresh], by simp [fresh]⟩
  · intro e a sound _ outline kinship
    exact ⟨fun x c hx => outline.upwards sound kinship hx,
      fun x c hx => outline.childless sound.standing kinship hx, fun y d p hy => outline.listed kinship hy⟩

end Kinship

end Engine

/-! ## The law of spawning -/

/-- What is known of execution number `x` and those that it has spawned. -/
structure Lineage (e : Engine) (x : Nat) (a : Execution) : Prop where
  /-- A completed execution has spawned what all its steps scheduled, in order, where the guards hold in its final state, and
  it has announced what it passed over. -/
  spawned : a.status = .completed → a.history.map StepRecord.index = List.range a.workflow.steps.length ∧
    ∃ scheduled, e.replay x a = some (a.state, scheduled) ∧
      List.Forall₂ (fun y p => ∃ d, e.courses[y]? = some d ∧ d.execution.workflow = p.1 ∧
        d.execution.initialState = a.state ∧ d.execution.parent = some x ∧ d.execution.depth = a.depth + 1 ∧
        ∃ name, p.1.GoesBy p.2 name ∧ d.execution.path = a.path ++ [.text name]) a.children
        (wanted scheduled a.state) ∧
      (e.bus.isSome = true → e.passedOver x = (unwanted scheduled a.state).map fun p => (p.1.name, p.2))
  once : a.children.Nodup
  /-- An execution spawns and completes in one turn, so between turns it has children only if it is completed. -/
  childless : a.status ≠ .completed → a.children = [] ∨ a.status = .spawning ∧ e.current = some (.course x)
  /-- An execution with a parent is listed there once, and nowhere else. -/
  listed : ∀ p, a.parent = some p → ∃ c, e.courses[p]? = some c ∧ c.execution.children.count x = 1 ∧
    ∀ q d, e.courses[q]? = some d → x ∈ d.execution.children → q = p

namespace Engine

/-- An execution that is not completed has no children unless it is about to spawn them. -/
theorem Sound.childless {e : Engine} (sound : e.Sound) {x : Nat} {c : Course} (hx : e.courses[x]? = some c)
    (incomplete : c.execution.status ≠ .completed) :
    c.execution.children = [] ∨ c.execution.status = .spawning ∧ e.current = some (.course x) := by
  have stands := sound.standing.stands x c hx
  have brood := sound.brood hx
  have rests := sound.standing.rests x c hx
  unfold Brood Rears Course.attended at brood
  obtain ⟨a, scheduled, life, reason⟩ := c
  dsimp only at incomplete stands brood rests
  have away : ∀ stage, ¬ Resting (.live stage false) → life = .live stage false → e.current = some (.course x) := by
    rintro stage active rfl
    by_contra ne
    exact active (rests ne)
  cases stands with
  | spawning spent status => exact .inr ⟨status, away _ (by rintro ⟨⟩) rfl⟩
  | completing spent =>
    by_cases running : a.status = .running
    · exact .inl (sound.kinship.running x _ hx running)
    · refine .inr ⟨?_, away _ (by rintro ⟨⟩) rfl⟩
      have unfinished := spent.unfinished
      have begun := spent.begun
      cases status : a.status <;> simp_all [Execution.isFinished, Status.isFinished]
  | _ =>
    left
    simpa [incomplete, wanted] using brood

/-- **The law of spawning**: in every state that an engine with a calm bus and writable names can be in, an execution has
spawned what its steps scheduled and its final state wants, each workflow once and in order, if it is completed, and
nothing otherwise; and an execution with a parent is listed there once. -/
theorem lineage_of_reachable {e : Engine} (reachable : e.Reachable) (calm : e.Calm) (named : e.WellNamed) {x : Nat}
    {c : Course} (hx : e.courses[x]? = some c) : Lineage e x c.execution where
  spawned := by
    have sound := reachable.sound calm named
    have stands := sound.standing.stands x c hx
    have threads := sound.threading.threads x c hx
    have brood := sound.brood hx
    have tells := sound.telling.tells x c hx
    intro completed
    have through : c.execution.history.length = c.execution.workflow.steps.length := by
      cases stands.verdict with
      | clean _ _ length => exact length completed
      | step _ _ _ status => simp [completed] at status
      | depth _ status => simp [completed] at status
    have attended : c.attended = c.scheduled := by
      rw [attended_of_finished stands (by simp [Execution.isFinished, completed, Status.isFinished]), if_pos completed]
    unfold Brood at brood
    unfold Tells at tells
    rw [attended] at brood tells
    refine ⟨by rw [threads.recorded.indices, through], c.scheduled, threads.replayed, brood.imp ?_, tells⟩
    rintro y p ⟨d, now, at_y, origin⟩
    have workflow : d.execution.workflow = p.1 := congrArg Execution.workflow origin
    have path : d.execution.path = c.execution.path ++ [p.1.childName p.2] := congrArg Execution.path origin
    -- the child is an execution of this engine itself, so its name can be part of a path
    have writable := named d (List.mem_of_getElem? at_y)
    rw [workflow] at writable
    obtain ⟨name, goesBy, eq⟩ := Workflow.childName_goesBy writable p.2
    exact ⟨d, at_y, workflow, congrArg Execution.initialState origin, congrArg Execution.parent origin,
      congrArg Execution.depth origin, name, goesBy, path.trans (by rw [eq])⟩
  once := ((reachable.sound calm named).kinship.upwards x c hx).imp Nat.ne_of_lt
  childless := (reachable.sound calm named).childless hx
  listed := by
    have sound := reachable.sound calm named
    intro p parent
    obtain ⟨c', at_p, mem⟩ := sound.kinship.listed x c p hx parent
    have once := (sound.kinship.upwards p c' at_p).imp Nat.ne_of_lt
    refine ⟨c', at_p, List.count_eq_one_of_mem once mem, fun q d at_q mem => ?_⟩
    obtain ⟨c'', hx'', parent'⟩ := sound.parent_of_child at_q mem
    obtain rfl : c = c'' := by simpa [hx] using hx''
    simpa [parent] using parent'.symm

/-- A run in which one of three scheduled workflows is not wanted, and of the other two one brings a name. -/
def choosyRun : Engine :=
  let idle := Rehearsed.resolver "plan" .propagate false ⟨none, .ungated, .returns (.ok none)⟩ []
  let process (state : State) (_ : Step) (_ : Option Value) : Except Raised Transition :=
    .ok ⟨state, [⟨[], .text "gift", some ⟨"coupon", none, true⟩, .empty, .empty⟩,
      ⟨[], .text "bill", none, .empty, .empty⟩, ⟨[], .null, none, .empty, .empty⟩]⟩
  (fresh .standard process (some fun _ => .accept) (Registry.empty.register "plan" ⟨0, idle⟩)).rehearse 20
    [.start ⟨[⟨"plan", .null, .empty, by decide⟩], .text "trial", none, .empty, .empty⟩ .null]

/-- The workflow with a name is spawned under it, the last one under its position. -/
theorem choosyRun_lineage : ∃ c d₁ d₂, choosyRun.courses[0]? = some c ∧ choosyRun.courses[1]? = some d₁ ∧
    choosyRun.courses[2]? = some d₂ ∧ c.execution.children = [1, 2] ∧ choosyRun.passedOver 0 = [(.text "gift", 0)] ∧
    d₁.execution.path = [.text "trial", .text "bill"] ∧ d₂.execution.path = [.text "trial", .text "2"] ∧
    Lineage choosyRun 0 c.execution ∧ Lineage choosyRun 1 d₁.execution ∧ Lineage choosyRun 2 d₂.execution := by
  have run : Reaches inOrder _ choosyRun := rehearse_reaches _ _ _
  have reachable : choosyRun.Reachable := run.of_fresh.reachable
  have calm : choosyRun.Calm := run.calm_iff.mpr fun react h event => by cases h; rfl
  have named : choosyRun.WellNamed := by decide +kernel
  have children : choosyRun.courses[0]?.map (·.execution.children) = some [1, 2] := by decide +kernel
  have bill : choosyRun.courses[1]?.map (·.execution.path) = some [.text "trial", .text "bill"] := by rfl
  have last : choosyRun.courses[2]?.map (·.execution.path) = some [.text "trial", .text "2"] := by rfl
  obtain ⟨c, at_0, children⟩ := Option.map_eq_some_iff.mp children
  obtain ⟨d₁, at_1, bill⟩ := Option.map_eq_some_iff.mp bill
  obtain ⟨d₂, at_2, last⟩ := Option.map_eq_some_iff.mp last
  exact ⟨c, d₁, d₂, at_0, at_1, at_2, children, by rfl, bill, last, lineage_of_reachable reachable calm named at_0,
    lineage_of_reachable reachable calm named at_1, lineage_of_reachable reachable calm named at_2⟩

end Engine

end Stepflow
