import Stepflow.Engine.Control
import Stepflow.Processing
import Stepflow.Service.Identifier

/-!
# Stepflow.Service.Basic — an engine in a host application

A service is set up with a registry and collaborators and launched once: the resolver of server
interactions, the resolver of analytics events and the further resolvers are registered in this
order, each in place of an earlier one of the same step type.  Where the interface is enabled, the
host answers requests to run a workflow, to show an execution and to list the step types.  At the
end the engine is shut down and the transport closed.
-/

namespace Stepflow

/-- How a service is set up. -/
structure Service.Setup where
  settings : Settings := .standard
  /-- A registry made beforehand. -/
  registry : Registry Handler := .empty
  /-- The resolver of server interactions, if there is a transport. -/
  interactions : Option Handler := none
  /-- The resolver of analytics events, if there is a recorder. -/
  analytics : Option Handler := none
  /-- Further resolvers by step type. -/
  further : List (String × Offer Handler) := []
  interactionType : String := "httpRequest"
  analyticsType : String := "analyticsLog"
  registryKey : String := "bdc_registry"
  engineKey : String := "bdc_engine"
  /-- The path below which the interface is mounted, if it is enabled. -/
  mount : Option String := none

/-- A service that was launched. -/
structure Service where
  setup : Service.Setup
  engine : Engine

namespace Service

/-! ### Launch -/

/-- What a setup registers, in order. -/
def Setup.offers (s : Setup) : List (String × Offer Handler) :=
  (s.interactions.map (fun h => (s.interactionType, Offer.resolver h))).toList ++
    (s.analytics.map (fun h => (s.analyticsType, Offer.resolver h))).toList ++ s.further

/-- Launch a service; what is no resolver keeps it from starting. -/
def launch (setup : Setup) : Except Failure Service := do
  match setup.registry.offerAll setup.offers with
  | (_, _, some f) => throw f
  | (registry, log, none) =>
    let engine := Engine.fresh setup.settings Processing.standard none registry
    let listed := ", ".intercalate registry.stepTypes
    return ⟨setup,
      { engine with log := log ++ [⟨.debug, "Registered step types: " ++ listed⟩] }⟩

/-- The registry of a service that may not be launched yet. -/
def registryOf : Option Service → Except Failure (Registry Handler)
  | some s => .ok s.engine.registry
  | none => .error (.notStarted "registry")

/-- The engine of a service that may not be launched yet. -/
def engineOf : Option Service → Except Failure Engine
  | some s => .ok s.engine
  | none => .error (.notStarted "engine")

/-- What a host hands out. -/
inductive Part where
  | registry
  | engine
deriving DecidableEq

/-- The names under which the host hands out the registry and the engine. -/
def dependencies (s : Service) : List String :=
  [s.setup.registryKey, s.setup.engineKey].eraseDups

/-- What the host hands out under a name; of two parts under one name it is the engine. -/
def part? (s : Service) (name : String) : Option Part :=
  if s.setup.engineKey = name then some .engine
  else if s.setup.registryKey = name then some .registry
  else none

/-! ### Runs -/

/-- What a caller of `run` got: the number of the execution and the execution, or a failure;
nothing if it was never told. -/
def told (e : Engine) (k : Nat) : Option (Except Failure (Nat × Execution)) :=
  match e.callers[k]? with
  | some ⟨some x, .over .done⟩ => (e.execution? x).map (fun execution => .ok (x, execution))
  | some ⟨_, .over (.failed f)⟩ => some (.error f)
  | _ => none

/-- Run a workflow for a caller that waits for it, while time passes as it has to; then let
everything run that can. -/
def run (s : Service) (workflow : Workflow) (initial : Datum) :
    Service × Option (Except Failure (Nat × Execution)) :=
  let k := s.engine.callers.length
  let e := (Engine.turnsUntil (.caller k) Engine.turnLimit (s.engine.run workflow initial)).settle
  (⟨s.setup, e⟩, told e k)

/-- Shut the engine down. -/
def finish (s : Service) : Service := { s with engine := s.engine.shutdown none }

end Service

end Stepflow
