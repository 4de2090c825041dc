import Stepflow.Proofs.Engine.Nudging
import Stepflow.Proofs.Engine.Working

/-!
# Stepflow.Proofs.Engine.Frame — what no act changes

The settings, the processing and the event bus of an engine stay what they were, and so does the workflow of every
execution; new executions come after the old ones, and the clock never goes back.  Nothing is assumed about the bus or
about names here, so what is assumed of the last state of a run holds all along it (`Reaches.calm_iff`,
`Reaches.wellNamed`).
-/

namespace Stepflow

/-- What an act leaves as it is, up to the workflows of executions that it has accepted. -/
structure Frame where
  settings : Settings
  process : State → Step → Option Value → Except Raised Transition
  bus : Option (Lifecycle → Reaction)
  clock : Rat
  workflows : List Workflow

/-- The frame with further workflows at a time. -/
def Frame.extend (f : Frame) (now : Rat) (workflows : List Workflow) : Frame :=
  { f with clock := now, workflows := f.workflows ++ workflows }

@[simp] theorem Frame.extend_nil (f : Frame) : f.extend f.clock [] = f := by simp [extend]

namespace Engine

/-- The frame of an engine. -/
def frame (e : Engine) : Frame := ⟨e.settings, e.process, e.bus, e.clock, e.courses.map (·.execution.workflow)⟩

/-- From `e` to `e'` further executions may have been accepted and time may have passed, and nothing else of the frame is
different. -/
def Extends (e e' : Engine) : Prop := ∃ now more, e.clock ≤ now ∧ e'.frame = e.frame.extend now more

/-! ## Small changes -/

section Small

variable {e e' e'' : Engine}

theorem Extends.of_eq (h : e'.frame = e.frame) : e.Extends e' := ⟨e.clock, [], Rat.le_refl, h.trans e.frame.extend_nil.symm⟩

theorem Extends.trans (h : e.Extends e') (h' : e'.Extends e'') : e.Extends e'' := by
  obtain ⟨now, more, le, h⟩ := h
  obtain ⟨later, further, le', h'⟩ := h'
  have clock : e'.clock = now := congrArg Frame.clock h
  exact ⟨later, more ++ further, Rat.le_trans le (clock ▸ le'), by rw [h', h]; simp [Frame.extend]⟩

theorem updateCourse_frame (e : Engine) (x : Nat) {f : Course → Course}
    (hf : ∀ c, (f c).execution.workflow = c.execution.workflow) : (e.updateCourse x f).frame = e.frame := by
  have workflows : (e.courses.modify x f).map (·.execution.workflow) = e.courses.map (·.execution.workflow) := by
    refine List.ext_getElem? fun i => ?_
    rw [List.getElem?_map, List.getElem?_map, List.getElem?_modify]
    cases e.courses[i]? with
    | none => rfl
    | some c => by_cases hxi : x = i <;> simp [hxi, hf]
  simp only [frame, updateCourse, workflows]

theorem submit_extends (e : Engine) (x : Execution) : e.Extends (e.submit x) :=
  ⟨e.clock, [x.workflow], Rat.le_refl, by simp [submit, frame, Frame.extend]⟩

theorem announce_frame_eq (e : Engine) (event : Lifecycle) : (e.announce event).1.frame = e.frame := by
  unfold announce
  split <;> rfl

theorem flag_frame (e : Engine) (t : TaskId) : (e.flag t).frame = e.frame := by
  cases t with
  | course x => exact updateCourse_frame e x fun _ => rfl
  | delivery | caller | joiner | closer => rfl

theorem interrupt_frame (e : Engine) (t : TaskId) : (e.interrupt t).frame = e.frame := by
  unfold interrupt
  split
  · rfl
  · dsimp only
    split
    · exact flag_frame e t
    · exact flag_frame e t

theorem frame_nudging : Nudging fun e e' => e'.frame = e.frame where
  refl _ := rfl
  trans h h' := h'.trans h
  report _ _ _ := rfl
  give e x _ := updateCourse_frame e x fun _ => rfl
  send := interrupt_frame
  flag e k := flag_frame e (.joiner k)

/-- Only the acceptance of a child shows in the frame. -/
theorem extends_working (x : Nat) : Working x Extends where
  refl _ := .of_eq rfl
  trans := .trans
  report _ _ _ := .of_eq rfl
  take e r := .of_eq (by cases r <;> rfl)
  announce e event := .of_eq (announce_frame_eq e event)
  note _ _ _ := .of_eq rfl
  update e f hf := .of_eq (updateCourse_frame e x fun c => Execution.workflow_eq (hf c))
  queue _ _ _ := .of_eq rfl
  submit e _ _ _ _ := submit_extends e _

theorem handOn_frame_eq {σ : Type} (e : Engine) (t : TaskId) (m : Move σ) : (e.handOn t m).frame = e.frame := by
  cases m <;> rfl

end Small

/-! ## Acts -/

section Acts

variable (e : Engine)

theorem moveCaller_extends (k : Nat) (stage : CallerStage) : e.Extends (e.moveCaller k stage).1 := by
  cases stage with
  | entering workflow initial =>
    dsimp only [moveCaller]
    split
    · exact .of_eq rfl
    · exact submit_extends e _
  | awaiting | surrendering => exact .of_eq rfl

theorem settleCourse_frame (x : Nat) (r : Engine × Move Stage) : (settleCourse x r).frame = r.1.frame := by
  unfold settleCourse
  rw [handOn_frame_eq]
  exact updateCourse_frame _ x fun _ => rfl

theorem move_extends (t : TaskId) : e.Extends (e.move t) := by
  cases t with
  | course x =>
    dsimp only [move]
    split
    · rename_i c at_x
      split
      · exact ((extends_working x).moveCourse e at_x _).trans (.of_eq (settleCourse_frame x _))
      · exact .of_eq (settleCourse_frame x _)
      · exact .of_eq rfl
    · exact .of_eq rfl
  | delivery k =>
    dsimp only [move]
    split
    · split
      · exact ((extends_working _).moveDelivery e _ rfl _).trans (.of_eq (handOn_frame_eq _ _ _))
      · exact .of_eq (handOn_frame_eq _ _ _)
      · exact .of_eq rfl
    · exact .of_eq rfl
  | caller k =>
    dsimp only [move]
    split
    · split
      · exact (moveCaller_extends e k _).trans (.of_eq (handOn_frame_eq _ _ _))
      · exact .of_eq ((handOn_frame_eq _ _ _).trans (frame_nudging.cancelCaller e _))
      · exact .of_eq rfl
    · exact .of_eq rfl
  | joiner k =>
    dsimp only [move]
    split
    · exact .of_eq ((handOn_frame_eq _ _ _).trans (frame_nudging.moveJoiner e _))
    · exact .of_eq (handOn_frame_eq _ _ _)
    · exact .of_eq rfl
  | closer k =>
    dsimp only [move]
    split
    · exact .of_eq ((handOn_frame_eq _ _ _).trans (frame_nudging.moveCloser e _))
    · exact .of_eq (handOn_frame_eq _ _ _)
    · exact .of_eq rfl

theorem cancel_extends (x : Option Nat) (id reason : String) : e.Extends (e.cancel x id reason).1 := by
  unfold cancel
  split
  · exact .of_eq rfl
  · rename_i y c _
    split
    · exact .of_eq rfl
    · dsimp only
      have sent : ∀ b : Bool, e.Extends (if b = true then (e.setReason y reason).interrupt (.course y) else e) := by
        intro b
        split
        · exact .of_eq ((interrupt_frame _ _).trans (updateCourse_frame e y fun _ => rfl))
        · exact .of_eq rfl
      split
      · split <;> rename_i marked <;>
          exact (sent _).trans ((congrArg Prod.fst marked) ▸ (extends_working y).markCanceled _ _ _)
      · exact sent _

theorem undergo_extends (deed : Deed) : e.Extends (e.undergo deed) := by
  cases deed with
  | start workflow initial =>
    dsimp only [undergo, start]
    cases State.freeze initial with
    | error f => exact .of_eq rfl
    | ok state => exact submit_extends e _
  | cancel x id reason => exact cancel_extends e x id reason
  | cancelRun k => exact .of_eq (interrupt_frame e _)
  | cancelJoin k => exact .of_eq (frame_nudging.cancelJoin e k)
  | register stepType offered =>
    dsimp only [undergo, register]
    split <;> exact .of_eq rfl
  | pass time =>
    dsimp only [undergo]
    split
    · rename_i later
      exact ⟨time, [], later, by simp [tickTo, wake, frame, Frame.extend]⟩
    · exact .of_eq rfl
  | run | join | shutdown | release | releaseBus | unregister => exact .of_eq rfl

/-- **The frame**: an act leaves settings, processing, event bus and the workflows of executions as they are, and the clock
as it is or set forward. -/
theorem act_extends (a : Act) : e.Extends (e.act a) := by
  cases a with
  | turn place =>
    dsimp only [act, turnAt]
    split
    · exact move_extends e _
    · split <;> exact .of_eq rfl
  | host deed =>
    dsimp only [act]
    split
    · exact undergo_extends e deed
    · exact .of_eq rfl

end Acts

/-! ## Runs -/

section Runs

variable {P : Engine → Act → Prop} {e e' : Engine}

theorem Reaches.extends (h : Reaches P e e') : e.Extends e' := by
  induction h with
  | refl => exact .of_eq rfl
  | step _ _ ih => exact ih.trans (act_extends _ _)

/-- The clock never goes back. -/
theorem act_clock_le (e : Engine) (a : Act) : e.clock ≤ (e.act a).clock := by
  obtain ⟨now, more, le, frame⟩ := act_extends e a
  have clock : (e.act a).clock = now := congrArg Frame.clock frame
  rw [clock]
  exact le

theorem Reaches.settings_eq (h : Reaches P e e') : e'.settings = e.settings := by
  obtain ⟨now, more, -, frame⟩ := h.extends
  exact congrArg Frame.settings frame

/-- A bus takes every event at the end of a run if it does so at its beginning. -/
theorem Reaches.calm_iff (h : Reaches P e e') : e'.Calm ↔ e.Calm := by
  obtain ⟨now, more, -, frame⟩ := h.extends
  have bus : e'.bus = e.bus := congrArg Frame.bus frame
  rw [Calm, Calm, bus]

/-- Names that can be part of a path at the end of a run could be so all along. -/
theorem Reaches.wellNamed (h : Reaches P e e') (named : e'.WellNamed) : e.WellNamed := by
  obtain ⟨now, more, -, frame⟩ := h.extends
  have workflows : e'.courses.map (·.execution.workflow) = e.courses.map (·.execution.workflow) ++ more :=
    congrArg Frame.workflows frame
  intro c hc
  have mem : c.execution.workflow ∈ e'.courses.map (·.execution.workflow) := by
    rw [workflows]
    exact List.mem_append_left _ (List.mem_map_of_mem hc)
  obtain ⟨d, hd, eq⟩ := List.mem_map.mp mem
  rw [← eq]
  exact named d hd

end Runs

end Engine

end Stepflow
