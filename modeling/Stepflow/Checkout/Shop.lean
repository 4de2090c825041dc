import Stepflow.Analytics.Recorder
import Stepflow.Checkout.Cart
import Stepflow.Interaction.Transport
import Stepflow.Service.Interface

/-!
# Stepflow.Checkout.Shop — a service that runs a checkout workflow

The shop runs one workflow: it logs that the checkout began, adds up the cart, asks a server for a
quote, and spawns a workflow that logs the arrival of the quote.  Besides the interface of its
service it answers whether it is well, and a checkout with the state that the workflow starts from.
-/

namespace Stepflow.Checkout

/-! ### The server of quotes -/

/-- The currency that a document asks for. -/
def currencyOf : Json → Json
  | .object fields => (fields.lookup "currency").getD (.text "EUR")
  | _ => .text "EUR"

/-- A server that answers a posted document with a quote in its currency. -/
def quoteServer : Interaction.Transport := fun request =>
  ([], .ok (
    if request.path = "/quotes" ∧ request.method = "POST" then
      let quote := Json.object
        [("quote_id", .text "Q-1"), ("currency", currencyOf request.body)]
      ⟨201, Text.encodeUtf8 quote.render.toList⟩
    else ⟨404, []⟩))

/-! ### The workflow -/

/-- A table of text keys. -/
def tableOf (fields : List (String × Datum)) : Datum :=
  .table (fields.map (fun e => (.text e.1, e.2)))

/-- A step as a document. -/
def stepOf (stepType : String) (payload : List (String × Datum)) : Datum :=
  tableOf [("type", .text stepType), ("payload", tableOf payload)]

/-- An item of a cart. -/
def itemOf (price quantity : Int) : Datum :=
  tableOf [("price", .int price), ("quantity", .int quantity)]

/-- The workflow that logs the arrival of the quote. -/
def confirmation : Datum :=
  tableOf [("name", .text "confirmation"), ("condition", tableOf [("key", .text "quote")]),
    ("steps", .list [stepOf "analyticsLog" [("event", .text "quote_received")]])]

/-- The checkout workflow. -/
def checkout : Datum :=
  tableOf [("name", .text "checkout"),
    ("steps", .list [
      stepOf "analyticsLog"
        [("event", .text "checkout_started"), ("eventType", .text "UI_EVENT")],
      stepOf "cartTotal" [("items", .list [itemOf 10 2, itemOf 5 1])],
      stepOf "httpRequest"
        [("path", .text "/quotes"), ("method", .text "POST"),
          ("body", tableOf [("currency", .text "EUR")]), ("stateKey", .text "quote"),
          ("workflowsToRun", .list [confirmation])]])]

/-! ### The shop -/

/-- How the service of the shop is set up. -/
def setup : Service.Setup where
  interactions := some ⟨0, Interaction.resolver quoteServer⟩
  analytics := some ⟨1, Analytics.resolver Analytics.loggingRecorder⟩
  further := [("cartTotal", .resolver ⟨2, cartResolver⟩)]
  mount := some "/bdc"

/-- What the shop answers: what its service does, or an answer of its own. -/
inductive Reply where
  | service (reply : Service.Reply)
  | healthy
  | checkedOut (execution : Execution)

/-- Answer an inquiry. -/
def answer (s : Service) (inquiry : Service.Inquiry) : Service × Reply :=
  match Service.segments inquiry.path, inquiry.method with
  | ["health"], "GET" => (s, .healthy)
  | ["checkout"], "POST" =>
    match Workflow.ofWire checkout with
    | .error f => (s, .service (.ofFailure f))
    | .ok workflow =>
      match s.run workflow inquiry.document with
      | (s, some (.ok (_, execution))) => (s, .checkedOut execution)
      | (s, some (.error f)) => (s, .service (.ofFailure f))
      | (s, none) => (s, .service .broken)
  | ["health"], method | ["checkout"], method =>
    (s, .service (if method = "OPTIONS" then .silent else .notAllowed))
  | _, _ =>
    let (s, reply) := s.answer inquiry
    (s, .service reply)

end Stepflow.Checkout
