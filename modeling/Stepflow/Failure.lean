/-!
# Stepflow.Failure — what can go wrong, and how it is told

A `Failure` is a cause with its particulars; `Failure.message` is the only place where causes are
put into words.  `Raised` is what can end a computation early: an ordinary failure, which error
handling sees, or a cancellation, which it does not.  What takes down the whole host (an interrupt, an
exit) is not in it: resolvers and processors are taken to raise nothing else.
-/

namespace Stepflow

/-- Failures that come from outside the workflow system and carry nothing but a text. -/
inductive OutsideKind where
  | runtime
  | value
  | connection
  /-- Data of a type that does not fit. -/
  | type
  /-- A position beyond the end of a sequence. -/
  | index
  /-- A key that a table does not have. -/
  | key
  /-- A reference that names no resource. -/
  | reference
  /-- A text that an encoding cannot hold. -/
  | encoding
  /-- A failure that a client of a server has a name of its own for. -/
  | client (name : String)
deriving DecidableEq

/-- A cause of failure. -/
inductive Failure where
  /-- Data of an unexpected shape at a path. -/
  | decode (expected : String) (actual : Option String) (path : String)
  /-- No resolver is registered for a step type. -/
  | unknownStepType (stepType : String)
  /-- A resolver reports that its side effect failed. -/
  | resolver (message : String)
  /-- An interaction with a server failed. -/
  | transport (message : String) (path : Option String) (status : Option Int)
  /-- An analytics event was not recorded. -/
  | analytics (message : String)
  /-- A workflow execution ended by an error or, if `canceled`, by a cancellation. -/
  | execution (canceled : Bool) (message : String) (workflowPath : List String)
      (stepIndex : Option Int) (stepType : Option String) (cause : Option Failure)
  /-- No execution has the given identifier. -/
  | unknownExecution (id : String)
  /-- Data of a type has no member of a name. -/
  | noMember (typeName member : String)
  /-- Data of a type has no parts that can be picked. -/
  | notSubscriptable (typeName : String)
  /-- A sequence was needed; the argument is the type of what was found. -/
  | notIterable (typeName : String)
  /-- Data of a type cannot be a key. -/
  | unhashable (typeName : String)
  /-- A field name is no text. -/
  | keyNotText (typeName : String)
  /-- A function has no parameter of a name. -/
  | unexpectedArgument (function parameter : String)
  /-- A parameter of a function was given no argument. -/
  | missingArgument (function parameter : String)
  /-- A function was given more arguments in order than it has parameters. -/
  | surplusArguments (function : String) (least most given : Nat)
  /-- A part of a workflow path is no text, so the path cannot be written. -/
  | pathPart (position : Nat) (typeName : String)
  /-- Something that is no resolver was to be registered. -/
  | notResolver (typeName : String)
  /-- A resolver has no implementation. -/
  | unimplemented (className : String)
  /-- A whole number is out of the range of doubles. -/
  | tooLarge
  /-- A part of a service was asked for before the service started. -/
  | notStarted (part : String)
  /-- The event bus refused an event. -/
  | busRejected (event : String)
  /-- Any other failure of a collaborator. -/
  | outside (kind : OutsideKind) (message : String)

namespace Failure

instance : Inhabited Failure := ⟨.tooLarge⟩

/-- A decoding failure at the root. -/
def decodeAtRoot (expected actual : String) : Failure := .decode expected (some actual) "$"

/-- The place of an execution error: the path, the index of the step and its type. -/
def placeText (path : List String) (index stepType : Option String) : String :=
  let joined := "/".intercalate path
  let place := if joined.isEmpty then "<root>" else joined
  let place := match index with
    | some i => place ++ "[" ++ i ++ "]"
    | none => place
  match stepType with
  | some t => if t.isEmpty then place else place ++ " (" ++ t ++ ")"
  | none => place

/-- The place of an execution error whose step is known by its number. -/
def location (path : List String) (index : Option Int) (stepType : Option String) : String :=
  placeText path (index.map toString) stepType

/-- The text of a decoding failure. -/
def decodeText (expected : String) (actual : Option String) (path : String) : String :=
  "expected " ++ expected ++ (match actual with | some a => ", got " ++ a | none => "") ++
    " at " ++ path

/-- The text of a failed interaction; an empty path is left out. -/
def transportText (message : String) (path status : Option String) : String :=
  (match path with | some p => if p.isEmpty then "" else p ++ ": " | none => "") ++ message ++
    (match status with | some s => " (status " ++ s ++ ")" | none => "")

/-- The text of the failure of an execution at a place. -/
def executionText (place message : String) (cause : Option String) : String :=
  "Workflow " ++ place ++ " failed: " ++ message ++
    (match cause with | some c => ": " ++ c | none => "")

/-- The text about a step type that has no resolver. -/
def unknownStepTypeText (stepType : String) : String :=
  "No resolver registered for step type '" ++ stepType ++ "'"

/-- The text about an identifier that no execution has. -/
def unknownExecutionText (id : String) : String := "Workflow execution '" ++ id ++ "' not found"

/-- How many arguments in order a function takes, itself counted. -/
def arityText (least most : Nat) : String :=
  if least < most then
    "from " ++ toString (least + 1) ++ " to " ++ toString (most + 1) ++ " positional arguments"
  else if most = 0 then "1 positional argument"
  else toString (most + 1) ++ " positional arguments"

/-- The text of a failure. -/
def message : Failure → String
  | .decode expected actual path => decodeText expected actual path
  | .unknownStepType t => unknownStepTypeText t
  | .resolver m => m
  | .transport m path status => transportText m path (status.map toString)
  | .analytics m => m
  | .execution _ m path index stepType cause =>
    executionText (location path index stepType) m
      (match cause with | some c => some c.message | none => none)
  | .unknownExecution id => unknownExecutionText id
  | .noMember t member => "'" ++ t ++ "' object has no attribute '" ++ member ++ "'"
  | .notSubscriptable t => "'" ++ t ++ "' object is not subscriptable"
  | .notIterable t => "'" ++ t ++ "' object is not iterable"
  | .unhashable t => "unhashable type: '" ++ t ++ "'"
  | .keyNotText t =>
    if t = "bytes" ∨ t = "bytearray" then "cannot use a string pattern on a bytes-like object"
    else "expected string or bytes-like object, got '" ++ t ++ "'"
  | .unexpectedArgument f p => f ++ "() got an unexpected keyword argument '" ++ p ++ "'"
  | .missingArgument f p => f ++ "() missing 1 required positional argument: '" ++ p ++ "'"
  | .surplusArguments f least most given =>
    f ++ "() takes " ++ arityText least most ++ " but " ++ toString (given + 1) ++ " were given"
  | .pathPart i t =>
    "sequence item " ++ toString i ++ ": expected str instance, " ++ t ++ " found"
  | .notResolver t => t ++ " does not implement the StepResolver protocol"
  | .unimplemented c => c ++ " must implement resolve()"
  | .tooLarge => "int too large to convert to float"
  | .notStarted part =>
    "BDCPlugin has not been initialized. Access " ++ part ++ " after app startup."
  | .busRejected event => "bus rejected " ++ event
  | .outside _ m => m

/-! ### Families -/

/-- The families of failures that the workflow system defines. -/
inductive Family where
  | workflows
  | decode
  | unknownStepType
  | resolver
  | transport
  | analytics
  | execution
  | canceled
  | unknownExecution
deriving DecidableEq

/-- The name under which a family is told. -/
def Family.name : Family → String
  | .workflows => "WorkflowsError"
  | .decode => "DecodeError"
  | .unknownStepType => "UnknownStepTypeError"
  | .resolver => "ResolverError"
  | .transport => "TransportError"
  | .analytics => "AnalyticsError"
  | .execution => "EngineError"
  | .canceled => "WorkflowCanceledError"
  | .unknownExecution => "ExecutionNotFoundError"

/-- All families. -/
def Family.all : List Family :=
  [.workflows, .decode, .unknownStepType, .resolver, .transport, .analytics, .execution, .canceled,
    .unknownExecution]

/-- The family that a family belongs to. -/
def Family.parent? : Family → Option Family
  | .workflows => none
  | .transport | .analytics => some .resolver
  | .canceled => some .execution
  | .decode | .unknownStepType | .resolver | .execution | .unknownExecution => some .workflows

/-- A family and all it belongs to, nearest first. -/
def Family.lineage (f : Family) : List Family :=
  match f.parent? with
  | none => [f]
  | some g => match g.parent? with
    | none => [f, g]
    | some h => [f, g, h]

/-- The family of a failure; `none` for failures from outside. -/
def family? : Failure → Option Family
  | .decode .. => some .decode
  | .unknownStepType _ => some .unknownStepType
  | .resolver _ => some .resolver
  | .transport .. => some .transport
  | .analytics _ => some .analytics
  | .execution canceled .. => some (if canceled then .canceled else .execution)
  | .unknownExecution _ => some .unknownExecution
  | _ => none

end Failure

/-- What ends a computation early. -/
inductive Raised where
  | failure (f : Failure)
  | canceled

end Stepflow
