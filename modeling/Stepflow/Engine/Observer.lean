import Stepflow.Engine.Course

/-!
# Stepflow.Engine.Observer — the moves of those who wait for executions

A caller of `run` submits an execution and waits for the end of its task; canceling the caller
cancels the execution first.  A caller of `join` waits until no execution is running.  A caller of
`shutdown` waits for everything pending, up to its deadline, and cancels what is left then.
-/

namespace Stepflow.Engine

/-! ### Callers of `run` -/

/-- What a caller gets from the end of the task of its execution: an execution that was canceled
counts as an outcome. -/
def outcome (e : Engine) (x : Nat) : Ending :=
  match e.courses[x]? with
  | some ⟨execution, _, .over .canceled, _⟩ =>
    if execution.status = .canceled then .done else .canceled
  | some ⟨_, _, .over ending, _⟩ => ending
  | _ => .done

/-- The move of a caller of `run` at a stage. -/
def moveCaller (e : Engine) (k : Nat) : CallerStage → Engine × Move CallerStage
  | .entering workflow initial =>
    match State.freeze initial with
    | .error f => (e, .stop (.failed f))
    | .ok state =>
      let x := e.courses.length
      let e := e.submit (.root e.clock workflow state)
      ({ e with callers := e.callers.modify k ({ · with execution := some x }) },
        .wait (.awaiting x) (.tasks [.course x] none))
  | .awaiting x => (e, .stop (e.outcome x))
  | .surrendering _ => (e, .stop .canceled)

/-- Where a cancellation that arrives at a caller of `run` leads: it cancels the execution, if that
is still running, and waits for its end. -/
def cancelCaller (e : Engine) : CallerStage → Engine × Move CallerStage
  | .awaiting x =>
    if e.isOver (.course x) then (e, .stop .canceled)
    else
      ((e.giveReason x callerReason).interrupt (.course x),
        .wait (.surrendering x) (.tasks [.course x] none))
  | _ => (e, .stop .canceled)

/-! ### Callers of `join` -/

/-- The move of a caller of `join`. -/
def moveJoiner (e : Engine) : JoinerStage → Engine × Move JoinerStage
  | .watching =>
    match e.running with
    | [] => (e, .stop .done)
    | xs => (e, .wait .watching (.tasks (xs.map .course) none))

/-! ### Callers of `shutdown` -/

/-- The reason of the cancellations of a shutdown. -/
def shutdownReason : String := "engine shutdown"

/-- Cancel everything that is pending. -/
def sweep (e : Engine) : Engine × Move CloserStage :=
  let pending := e.pending
  let e := e.report .warning
    ("Shutdown timed out with " ++ toString pending.length ++ " pending task(s); canceling")
  let e := e.running.foldl (fun e x => e.giveReason x shutdownReason) e
  (e.interruptAll pending, .wait .sweeping (.tasks pending none))

/-- The move of a caller of `shutdown` at a stage. -/
def moveCloser (e : Engine) : CloserStage → Engine × Move CloserStage
  | .flushing deadline =>
    if e.pending.isEmpty then (e, .stop .done)
    else if deadline ≤ e.clock then e.sweep
    else (e, .wait (.flushing deadline) (.tasks e.pending (some deadline)))
  | .sweeping => (e, .stop .done)

end Stepflow.Engine
