import Stepflow.Engine.Observer
import Stepflow.Engine.Delivery

/-!
# Stepflow.Engine.Turn — who moves next

A turn is one move of the task that holds the processor, or the choice of the task at the head of
the queue.  A task with a cancellation on its way meets it when it is chosen.  The clock stands
still as long as a task is ready.
-/

namespace Stepflow.Engine

/-! ### The effect of a move -/

/-- The life of a task after a move. -/
def lifeAfter {σ : Type} : Move σ → Life σ
  | .go stage | .yield stage | .wait stage _ => .live stage false
  | .stop ending => .over ending

/-- Hand the processor on as a move says; the end of a task wakes those who wait for it. -/
def handOn {σ : Type} (e : Engine) (t : TaskId) : Move σ → Engine
  | .go _ => e
  | .yield _ => { e with current := none, ready := e.ready ++ [t] }
  | .wait _ on => { e with current := none, waits := e.waits ++ [(t, on)] }
  | .stop _ => { e with current := none }.wake

/-- Settle a move of the task of an execution; the reason of its cancellation goes with it. -/
def settleCourse (x : Nat) (r : Engine × Move Stage) : Engine :=
  let reasonAfter : Option String → Option String := match r.2 with
    | .stop _ => fun _ => none
    | _ => id
  (r.1.updateCourse x (fun c => { c with life := lifeAfter r.2, reason := reasonAfter c.reason }))
    |>.handOn (.course x) r.2

/-- Settle a move of a detached call. -/
def settleDelivery (k : Nat) (r : Engine × Move DeliveryStage) : Engine :=
  { r.1 with deliveries := r.1.deliveries.modify k ({ · with life := lifeAfter r.2 }) }
    |>.handOn (.delivery k) r.2

/-- Settle a move of a caller of `run`. -/
def settleCaller (k : Nat) (r : Engine × Move CallerStage) : Engine :=
  { r.1 with callers := r.1.callers.modify k ({ · with life := lifeAfter r.2 }) }
    |>.handOn (.caller k) r.2

/-- Settle a move of a caller of `join`. -/
def settleJoiner (k : Nat) (r : Engine × Move JoinerStage) : Engine :=
  { r.1 with joiners := r.1.joiners.modify k (fun _ => lifeAfter r.2) }
    |>.handOn (.joiner k) r.2

/-- Settle a move of a caller of `shutdown`. -/
def settleCloser (k : Nat) (r : Engine × Move CloserStage) : Engine :=
  { r.1 with closers := r.1.closers.modify k (fun _ => lifeAfter r.2) }
    |>.handOn (.closer k) r.2

/-! ### Moves of tasks -/

/-- One move of a task.  A task that is not live gives the processor away. -/
def move (e : Engine) : TaskId → Engine
  | .course x =>
    match e.courses[x]? with
    | some c =>
      match c.life with
      | .live stage false => settleCourse x (e.moveCourse x c stage)
      | .live stage true => settleCourse x (e, cancelCourse stage)
      | .over _ => { e with current := none }
    | none => { e with current := none }
  | .delivery k =>
    match e.deliveries[k]? with
    | some d =>
      match d.life, e.execution? d.execution with
      | .live stage false, some execution => settleDelivery k (e.moveDelivery d execution stage)
      | .live stage true, _ => settleDelivery k (e, cancelDelivery stage)
      | _, _ => { e with current := none }
    | none => { e with current := none }
  | .caller k =>
    match e.callers[k]? with
    | some c =>
      match c.life with
      | .live stage false => settleCaller k (e.moveCaller k stage)
      | .live stage true => settleCaller k (e.cancelCaller stage)
      | .over _ => { e with current := none }
    | none => { e with current := none }
  | .joiner k =>
    match e.joiners[k]? with
    | some (.live stage false) => settleJoiner k (e.moveJoiner stage)
    | some (.live _ true) => settleJoiner k (e, .stop .canceled)
    | _ => { e with current := none }
  | .closer k =>
    match e.closers[k]? with
    | some (.live stage false) => settleCloser k (e.moveCloser stage)
    | some (.live _ true) => settleCloser k (e, .stop .canceled)
    | _ => { e with current := none }

/-- One turn: a move of the task that holds the processor or, if none does, the choice of the task
at the head of the queue. -/
def turn (e : Engine) : Engine :=
  match e.current, e.ready with
  | some t, _ => e.move t
  | none, t :: rest => { e with current := some t, ready := rest }
  | none, [] => e

/-- Whether no task can move. -/
def isQuiet (e : Engine) : Bool := e.current.isNone && e.ready.isEmpty

/-- Turns until no task can move, at most as many as `fuel` says. -/
def turns : Nat → Engine → Engine
  | 0, e => e
  | fuel + 1, e => if e.isQuiet then e else turns fuel e.turn

/-- More turns than an engine is ever given at once. -/
def turnLimit : Nat := 100000000

/-- Let everything run that can. -/
def settle (e : Engine) : Engine := turns turnLimit e

/-! ### Time -/

/-- The earlier of two times. -/
def earlier (a b : Option Rat) : Option Rat :=
  match a, b with
  | some s, some t => some (if t < s then t else s)
  | some s, none => some s
  | none, b => b

/-- The time at which the first of the waits is over by the clock. -/
def nextDue? (e : Engine) : Option Rat :=
  e.waits.foldl (fun first w => earlier first w.2.due?) none

/-- Set the clock and wake those for whom it is time. -/
def tickTo (e : Engine) (time : Rat) : Engine := { e with clock := time }.wake

/-- Let time pass up to a point, from one due time to the next, at most as many as `fuel` says. -/
def advanceTo : Nat → Rat → Engine → Engine
  | 0, target, e => e.settle.tickTo target
  | fuel + 1, target, e =>
    let e := e.settle
    match e.nextDue? with
    | some due => if due ≤ target then advanceTo fuel target (e.tickTo due) else e.tickTo target
    | none => e.tickTo target

/-- Let some seconds pass. -/
def advance (e : Engine) (seconds : Rat) : Engine :=
  (advanceTo turnLimit (e.clock + seconds) e).settle

/-- Turns until a task has ended; the clock moves only when no task can.  Nothing more happens once
no task can move and no time is due. -/
def turnsUntil (t : TaskId) : Nat → Engine → Engine
  | 0, e => e
  | fuel + 1, e =>
    if e.isOver t then e
    else if e.isQuiet then
      match e.nextDue? with
      | some due => turnsUntil t fuel (e.tickTo due)
      | none => e
    else turnsUntil t fuel e.turn

end Stepflow.Engine
