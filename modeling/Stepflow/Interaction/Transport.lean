import Stepflow.Resolver.Basic

/-!
# Stepflow.Interaction.Transport — the resolver of server interactions

The resolver sends the request that the payload describes and answers with the body of the
response.  An error of the transport propagates, and so does a response that reports failure.
-/

namespace Stepflow.Interaction

/-- What a transport remarks on a request, and the response or what it raises. -/
abbrev Transport := Request → List Remark × Except Raised Response

/-- The end of an interaction: the body of a successful response. -/
def conclude (request : Request) : Except Raised Response → Script
  | .error r => .raise r
  | .ok response =>
    if response.isSuccess then
      match response.body with
      | .ok body => .answer (some body)
      | .error f => .raise (.failure f)
    else .raise (.failure
      (.transport "request failed" (some request.path) (some response.status)))

/-- The resolver of server interactions over a transport. -/
def resolver (transport : Transport) : Resolver where
  title := "HttpInteractionResolver"
  stepType := "httpRequest"
  policy := .propagate
  detached := false
  respond _ payload :=
    match Request.ofPayload payload with
    | .error f => .raise (.failure f)
    | .ok request =>
      let (remarks, result) := transport request
      .remarks remarks (conclude request result)

end Stepflow.Interaction
