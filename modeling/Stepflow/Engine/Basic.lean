import Stepflow.Engine.Task
import Stepflow.Lifecycle
import Stepflow.Registry
import Stepflow.Resolver.Basic
import Stepflow.Transition

/-!
# Stepflow.Engine.Basic — executions, tasks and what they share

An engine is a value.  It holds the executions it has accepted, each with the task that runs it,
the tasks of detached resolvers and of callers, the queue of tasks that are ready, and the waits of
those that are not.  This module has the parts of that value and the small changes to it; the moves
of the tasks are in the modules that follow.

All tasks share one processor.  The task that holds it is `current`; the others are ready, in the
order in which they get their turns, or wait, in the order in which they began to.
-/

namespace Stepflow

/-- How an engine is set up. -/
structure Settings where
  /-- Whether a step of unknown type fails the workflow; otherwise it is skipped. -/
  strict : Bool
  /-- The greatest depth at which a spawned workflow runs. -/
  maxDepth : Int
  /-- How many seconds a shutdown waits if its caller does not say. -/
  flushTimeout : Rat

/-- Unknown steps are skipped, spawning goes 16 deep, and a shutdown waits for 5 seconds. -/
def Settings.standard : Settings := ⟨false, 16, 5⟩

/-- How an event bus takes an event. -/
inductive Reaction where
  | accept
  /-- The event bus fails. -/
  | reject
  /-- Whoever announced the event has to wait. -/
  | hold
  /-- Whoever announced the event has to wait, and then the event bus fails. -/
  | holdReject
deriving DecidableEq

/-- How an event bus that has stopped holding takes an event. -/
def Reaction.unheld : Reaction → Reaction
  | .accept | .hold => .accept
  | .reject | .holdReject => .reject

/-- A resolver and the number that tells it from other resolvers. -/
structure Handler where
  slot : Nat
  resolver : Resolver

/-- What is noted about the calls of resolvers for the steps of executions. -/
inductive CallNote where
  | begun (execution : Nat) (index : Nat) (slot : Nat) (payload : Value)
  | ended (execution : Nat) (index : Nat) (result : Except Raised (Option Value))

/-! ### Tasks of an engine -/

/-- Where the task of an execution stands. -/
inductive Stage where
  /-- Not begun. -/
  | opening
  /-- Announced; its depth is to be checked. -/
  | admitted
  /-- The steps before `index` have been dealt with. -/
  | reaching (index : Nat)
  /-- A resolver is in a call. -/
  | calling (index : Nat) (handler : Handler) (script : Script)
  /-- A resolver waits in a call. -/
  | holding (index : Nat) (handler : Handler) (next canceled : Script)
  /-- The resolver has been dealt with; the transition is to be adopted. -/
  | handled (index : Nat) (output : Option Value) (status : StepStatus) (error : Option String)
  /-- All steps have been dealt with. -/
  | finishing
  /-- The scheduled workflows from `position` on are to be spawned. -/
  | spawning (position : Nat) (rest : List Workflow)
  | completing
  /-- The last announcement has been made. -/
  | closing
  /-- A cancellation has come through. -/
  | canceling
  /-- The cancellation has been announced; it is passed on if nobody gave a reason. -/
  | leaving (passOn : Bool)
  /-- The event bus holds an event that it is going to refuse; `last` tells that the event is the
  announcement of a cancellation. -/
  | refusing (event : Lifecycle) (last : Bool)
  /-- The event bus holds the announcement of a recovery that it is going to refuse. -/
  | unrecovered (index : Nat) (event : Lifecycle)

/-- An execution and the task that runs it. -/
structure Course where
  execution : Execution
  /-- The workflows that the steps so far have scheduled. -/
  scheduled : List Workflow
  life : Life Stage
  /-- The reason of a cancellation on its way. -/
  reason : Option String

/-- Where the task of a detached resolver stands. -/
inductive DeliveryStage where
  /-- Not begun. -/
  | entering
  | calling (script : Script)
  | holding (next canceled : Script)
  /-- The failure has been announced. -/
  | closing
  /-- The event bus holds an event that it is going to refuse. -/
  | refusing (event : Lifecycle)

/-- A detached call for a step of an execution. -/
structure Delivery where
  execution : Nat
  index : Nat
  step : Step
  handler : Handler
  life : Life DeliveryStage

/-- Where a caller of `run` stands. -/
inductive CallerStage where
  /-- Not begun. -/
  | entering (workflow : Workflow) (state : Datum)
  | awaiting (x : Nat)
  /-- Canceled; it has canceled the execution and waits for its end. -/
  | surrendering (x : Nat)

/-- A caller of `run`, and its execution once that is accepted. -/
structure Caller where
  execution : Option Nat
  life : Life CallerStage

/-- Where a caller of `join` stands. -/
inductive JoinerStage where
  /-- It waits as long as an execution is running. -/
  | watching

/-- Where a caller of `shutdown` stands. -/
inductive CloserStage where
  /-- It waits for pending tasks until a time. -/
  | flushing (deadline : Rat)
  /-- It has canceled all pending tasks and waits for their end. -/
  | sweeping

/-! ### The engine -/

/-- An engine with everything it has done so far. -/
structure Engine where
  settings : Settings
  /-- The transition of a state by a step and the output of its resolver. -/
  process : State → Step → Option Value → Except Raised Transition
  /-- How the event bus takes events; without a bus nothing is announced. -/
  bus : Option (Lifecycle → Reaction)
  /-- Whether the event bus has stopped holding. -/
  busOpen : Bool
  registry : Registry Handler
  /-- The resolvers whose gates are open. -/
  openGates : List Nat
  courses : List Course
  deliveries : List Delivery
  callers : List Caller
  joiners : List (Life JoinerStage)
  closers : List (Life CloserStage)
  current : Option TaskId
  ready : List TaskId
  waits : List (TaskId × Wait)
  clock : Rat
  calls : List CallNote
  events : List Lifecycle
  journal : List Note
  log : List LogEntry

namespace Engine

/-- An engine that has done nothing. -/
def fresh (settings : Settings)
    (process : State → Step → Option Value → Except Raised Transition)
    (bus : Option (Lifecycle → Reaction)) (registry : Registry Handler) : Engine where
  settings := settings
  process := process
  bus := bus
  busOpen := false
  registry := registry
  openGates := []
  courses := []
  deliveries := []
  callers := []
  joiners := []
  closers := []
  current := none
  ready := []
  waits := []
  clock := 0
  calls := []
  events := []
  journal := []
  log := []

/-! ### Views -/

/-- An execution by its number. -/
def execution? (e : Engine) (x : Nat) : Option Execution := (e.courses[x]?).map Course.execution

/-- The executions in the order in which they were accepted. -/
def executions (e : Engine) : List Execution := e.courses.map Course.execution

/-- The reason of the cancellation on its way to an execution. -/
def reason? (e : Engine) (x : Nat) : Option String := (e.courses[x]?).bind Course.reason

/-- Whether a task has ended; a task that does not exist counts as ended. -/
def isOver (e : Engine) : TaskId → Bool
  | .course x => (e.courses[x]?).all (·.life.isOver)
  | .delivery k => (e.deliveries[k]?).all (·.life.isOver)
  | .caller k => (e.callers[k]?).all (·.life.isOver)
  | .joiner k => (e.joiners[k]?).all (·.isOver)
  | .closer k => (e.closers[k]?).all (·.isOver)

/-- The executions whose tasks have not ended. -/
def running (e : Engine) : List Nat :=
  (List.range e.courses.length).filter (fun x => !e.isOver (.course x))

/-- The detached calls that have not ended. -/
def dispatches (e : Engine) : List Nat :=
  (List.range e.deliveries.length).filter (fun k => !e.isOver (.delivery k))

/-- The tasks that a shutdown waits for. -/
def pending (e : Engine) : List TaskId :=
  e.running.map .course ++ e.dispatches.map .delivery

/-- Whether a wait is over. -/
def isDue (e : Engine) : Wait → Bool
  | .gate slot => e.openGates.contains slot
  | .bus => e.busOpen
  | .clock due => due ≤ e.clock
  | .tasks ids due =>
    ids.all e.isOver || (match due with | some t => decide (t ≤ e.clock) | none => false)

/-- How often a resolver has been called. -/
def callCount (e : Engine) (slot : Nat) : Nat :=
  e.calls.countP (fun
    | .begun _ _ s _ => s == slot
    | .ended .. => false)

/-! ### Small changes -/

/-- Write a record to the log. -/
def report (e : Engine) (level : Level) (message : String) : Engine :=
  { e with log := e.log ++ [⟨level, message⟩] }

/-- Take down a remark. -/
def take (e : Engine) : Remark → Engine
  | .note n => { e with journal := e.journal ++ [n] }
  | .log entry => { e with log := e.log ++ [entry] }

/-- Note something about a call. -/
def note (e : Engine) (n : CallNote) : Engine := { e with calls := e.calls ++ [n] }

/-- Change an execution together with its task. -/
def updateCourse (e : Engine) (x : Nat) (f : Course → Course) : Engine :=
  { e with courses := e.courses.modify x f }

/-- Change an execution. -/
def update (e : Engine) (x : Nat) (f : Execution → Execution) : Engine :=
  e.updateCourse x (fun c => { c with execution := f c.execution })

/-- Announce an event; the reaction says how the bus takes it. -/
def announce (e : Engine) (event : Lifecycle) : Engine × Reaction :=
  match e.bus with
  | none => (e, .accept)
  | some react =>
    ({ e with events := e.events ++ [event] },
      if e.busOpen then (react event).unheld else react event)

/-- Accept an execution and queue its task. -/
def submit (e : Engine) (x : Execution) : Engine :=
  { e with
    courses := e.courses ++ [⟨x, [], .live .opening false, none⟩]
    ready := e.ready ++ [.course e.courses.length] }

/-- End the waits that are over: their tasks are ready, in the order in which they began to
wait. -/
def wake (e : Engine) : Engine :=
  { e with
    ready := e.ready ++ (e.waits.filter (fun w => e.isDue w.2)).map Prod.fst
    waits := e.waits.filter (fun w => !e.isDue w.2) }

/-! ### Cancellation on its way -/

/-- Send a cancellation to a task. -/
def flag (e : Engine) : TaskId → Engine
  | .course x => e.updateCourse x (fun c => { c with life := c.life.interrupt })
  | .delivery k =>
    { e with deliveries := e.deliveries.modify k (fun d => { d with life := d.life.interrupt }) }
  | .caller k =>
    { e with callers := e.callers.modify k (fun c => { c with life := c.life.interrupt }) }
  | .joiner k => { e with joiners := e.joiners.modify k Life.interrupt }
  | .closer k => { e with closers := e.closers.modify k Life.interrupt }

/-- Whether a task waits. -/
def isWaiting (e : Engine) (t : TaskId) : Bool := e.waits.any (fun w => w.1 == t)

/-- Cancel a task: the cancellation reaches it when it next gets its turn, and a wait of it ends
with its turn at the end of the queue.  A task that is over takes no notice. -/
def interrupt (e : Engine) (t : TaskId) : Engine :=
  if e.isOver t then e
  else
    let e := e.flag t
    if e.isWaiting t then
      { e with ready := e.ready ++ [t], waits := e.waits.filter (fun w => w.1 != t) }
    else e

/-- Cancel some tasks one after another. -/
def interruptAll (e : Engine) (ts : List TaskId) : Engine := ts.foldl interrupt e

/-- Give a reason for the cancellation of an execution, unless one is given already. -/
def giveReason (e : Engine) (x : Nat) (reason : String) : Engine :=
  e.updateCourse x (fun c => { c with reason := c.reason.or (some reason) })

/-- Give a reason for the cancellation of an execution in place of any other. -/
def setReason (e : Engine) (x : Nat) (reason : String) : Engine :=
  e.updateCourse x (fun c => { c with reason := some reason })

end Engine

/-- How a task goes on after an announcement: it waits if the bus holds, and fails if the bus
does; `refused` is where it waits for a failure. -/
def Reaction.move {σ : Type} (event : Lifecycle) (next refused : σ) : Reaction → Move σ
  | .accept => .go next
  | .hold => .wait next .bus
  | .holdReject => .wait refused .bus
  | .reject => .stop (.failed (.busRejected event.name))

end Stepflow
