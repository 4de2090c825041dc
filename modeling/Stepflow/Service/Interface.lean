import Stepflow.Interaction.Reference
import Stepflow.Service.Basic

/-!
# Stepflow.Service.Interface — the requests that a service answers

Below its mount the interface runs a workflow, shows an execution by its identifier, and lists the
step types.  A request names what it is about by a reference; its path is read segment by segment,
so slashes may be repeated or stand at the end.  A route takes one method, and needs the engine or
the registry under the name by which it asks for it.  A document that cannot be decoded is the fault
of the request; any other failure is told as a failure of the service.
-/

namespace Stepflow.Service

/-- A request to the host. -/
structure Inquiry where
  method : String
  path : String
  /-- The query of the reference, with escapes. -/
  query : Option String
  /-- The document that comes with the request. -/
  document : Datum

/-- A request that names what it is about by a reference. -/
def Inquiry.ofReference (method reference : String) (document : Datum) :
    Except Failure Inquiry := do
  let target ← Interaction.Target.ofReference reference
  let query := target.query.map (fun cs => String.ofList (Interaction.escapeQuery cs))
  return ⟨String.ofList (Text.upper method.toList), target.path, query, document⟩

/-- What a service answers. -/
inductive Reply where
  /-- A workflow was run, as the execution of a number. -/
  | ran (x : Nat) (execution : Execution)
  | found (x : Nat) (execution : Execution)
  | stepTypes (names : List String)
  /-- There is nothing to tell but that there is a route. -/
  | silent
  | refused (status : Nat) (detail : String)

namespace Reply

/-- There is nothing under the path. -/
def notFound : Reply := .refused 404 "Not Found"

/-- There is something under the path, but not for the method. -/
def notAllowed : Reply := .refused 405 "Method Not Allowed"

/-- The service failed. -/
def broken : Reply := .refused 500 "Internal Server Error"

/-- A failure as a reply. -/
def ofFailure : Failure → Reply
  | .decode expected actual path => .refused 400 (Failure.decode expected actual path).message
  | _ => .broken

/-- The status under which a reply goes out. -/
def status : Reply → Nat
  | .ran .. => 201
  | .found .. | .stepTypes _ => 200
  | .silent => 204
  | .refused status _ => status

end Reply

/-! ### Routes -/

/-- The segments of a path. -/
def segments (path : String) : List String :=
  ((Text.split '/' path.toList).filter (!·.isEmpty)).map String.ofList

/-- A path in its one form, with the query of its request if there is one. -/
def Inquiry.place (inquiry : Inquiry) : String :=
  "/" ++ "/".intercalate (segments inquiry.path) ++
    (match inquiry.query with | some q => if q.isEmpty then "" else "?" ++ q | none => "")

/-- What follows a list of segments, if the path begins with it. -/
def below? : (mount path : List String) → Option (List String)
  | [], path => some path
  | m :: mount, p :: path => if m = p then below? mount path else none
  | _ :: _, [] => none

/-- What the interface has below its mount. -/
inductive Route where
  | run
  | execution (id : String)
  | stepTypes

namespace Route

/-- The route of the segments below the mount. -/
def ofSegments? : List String → Option Route
  | ["run"] => some .run
  | ["executions", id] => some (.execution id)
  | ["step-types"] => some .stepTypes
  | _ => none

/-- The method that a route takes. -/
def method : Route → String
  | .run => "POST"
  | .execution _ | .stepTypes => "GET"

/-- What a route needs of the service. -/
def needs : Route → Part
  | .run | .execution _ => .engine
  | .stepTypes => .registry

/-- The name by which a route asks for what it needs. -/
def asks : Route → String
  | .run | .execution _ => "bdc_engine"
  | .stepTypes => "bdc_registry"

/-- Whether a route names something there can be: an execution goes by an identifier. -/
def isNamed : Route → Bool
  | .execution id => (Identifier.read id).isOk
  | .run | .stepTypes => true

end Route

/-! ### Answers -/

/-- The execution under an identifier. -/
def findExecution (s : Service) (id : String) : Reply :=
  match (List.range s.engine.courses.length).find? (fun x => Identifier.ofNumber x == id) with
  | some x =>
    match s.engine.getExecution (some x) id with
    | .ok execution => .found x execution
    | .error f => .refused 404 f.message
  | none => .refused 404 (Failure.unknownExecution id).message

/-- Run the workflow of a document, from the state of the document. -/
def runDocument (s : Service) (document : Datum) : Service × Reply :=
  let fields := match document with
    | .table entries => entries
    | _ => []
  let field := fun name => ((fields.find? (fun e => e.1 == .text name)).map Prod.snd).getD .null
  match Workflow.ofWire (field "workflow") with
  | .error f => (s, .ofFailure f)
  | .ok workflow =>
    match s.run workflow (field "initial_state") with
    | (s, some (.ok (x, execution))) => (s, .ran x execution)
    | (s, some (.error f)) => (s, .ofFailure f)
    | (s, none) => (s, .broken)

/-- Answer a request on a route that has what it needs. -/
def answerRoute (s : Service) (document : Datum) : Route → Service × Reply
  | .run => s.runDocument document
  | .execution id =>
    match Identifier.read id with
    | .ok id => (s, s.findExecution id)
    | .error _ => (s, .notFound)
  | .stepTypes => (s, .stepTypes s.engine.registry.stepTypes)

/-- Answer a request on a route. -/
def answerOn (s : Service) (inquiry : Inquiry) (route : Route) : Service × Reply :=
  if inquiry.method ≠ "OPTIONS" ∧ inquiry.method ≠ route.method then (s, .notAllowed)
  else if !route.isNamed then (s, .notFound)
  else if inquiry.method = "OPTIONS" then (s, .silent)
  else match s.part? route.asks with
    | none =>
      (s, .refused 400 ("Missing required query parameter '" ++ route.asks ++ "' for path " ++
        inquiry.place))
    | some part =>
      if part = route.needs then s.answerRoute inquiry.document route else (s, .broken)

/-- Answer an inquiry by the interface, if it is enabled. -/
def answer (s : Service) (inquiry : Inquiry) : Service × Reply :=
  match s.setup.mount.bind (fun mount => below? (segments mount) (segments inquiry.path)) with
  | some rest =>
    match Route.ofSegments? rest with
    | some route => s.answerOn inquiry route
    | none => (s, .notFound)
  | none => (s, .notFound)

end Stepflow.Service
