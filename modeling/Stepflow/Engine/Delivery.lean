import Stepflow.Engine.Call

/-!
# Stepflow.Engine.Delivery — the moves of the task of a detached call

A detached call has no workflow left to fail: its failure is announced as recovered or, under the
other policy, reported to the log.
-/

namespace Stepflow.Engine

/-- The end of a detached call. -/
def concludeDelivery (e : Engine) (d : Delivery) (execution : Execution) :
    Except Raised (Option Value) → Engine × Move DeliveryStage
  | .ok _ => (e, .stop .done)
  | .error .canceled => (e, .stop .canceled)
  | .error (.failure f) =>
    match d.handler.resolver.policy with
    | .swallow =>
      match e.recover d.execution execution d.index d.step.stepType f with
      | (e, .error g) => (e, .stop (.failed g))
      | (e, .ok (event, reaction)) => (e, reaction.move event .closing (.refusing event))
    | .propagate =>
      match execution.place with
      | .error g => (e, .stop (.failed g))
      | .ok place =>
        (e.report .error (detachedText place d.index d.step.stepType f), .stop .done)

/-- The move of the task of a detached call at a stage; `execution` is the execution that it is
for. -/
def moveDelivery (e : Engine) (d : Delivery) (execution : Execution) :
    DeliveryStage → Engine × Move DeliveryStage
  | .entering =>
    let (e, script) := e.beginCall d.execution d.index d.handler d.step.payload
    (e, .go (.calling script))
  | .calling script =>
    match e.play d.execution d.index d.handler.slot script with
    | (e, .go next) => (e, .go (.calling next))
    | (e, .yield next canceled) => (e, .yield (.holding next canceled))
    | (e, .wait next canceled on) => (e, .wait (.holding next canceled) on)
    | (e, .done result) => e.concludeDelivery d execution result
  | .holding next _ => (e, .go (.calling next))
  | .closing => (e, .stop .done)
  | .refusing event => (e, .stop (.failed (.busRejected event.name)))

/-- Where a cancellation that arrives at a stage leads. -/
def cancelDelivery : DeliveryStage → Move DeliveryStage
  | .holding _ canceled => .go (.calling canceled)
  | _ => .stop .canceled

end Stepflow.Engine
