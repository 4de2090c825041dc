import Stepflow.Resolver.Basic

/-!
# Stepflow.Analytics.Recorder — the resolver of analytics events

Analytics never gets in the way: the engine does not wait for the resolver, and its failures are
swallowed.  A recorder's own analytics failures are passed on; any other failure of it is told as
one.
-/

namespace Stepflow.Analytics

/-- What a recorder remarks on an event, and whether it raises. -/
abbrev Recorder := Event → List Remark × Except Raised Unit

/-- The recorder that writes events to the log. -/
def loggingRecorder : Recorder := fun e =>
  ([.log ⟨.info, "analytics " ++ e.eventType ++ " " ++ e.name ++ " " ++ e.propertiesData.quoted⟩],
    .ok ())

/-- The end of recording an event. -/
def conclude (e : Event) : Except Raised Unit → Script
  | .ok _ => .answer none
  | .error .canceled => .raise .canceled
  | .error (.failure (.analytics m)) => .raise (.failure (.analytics m))
  | .error (.failure f) =>
    .raise (.failure (.analytics ("Failed to record '" ++ e.name ++ "': " ++ f.message)))

/-- The resolver of analytics events over a recorder. -/
def resolver (recorder : Recorder) : Resolver where
  title := "AnalyticsLogResolver"
  stepType := "analyticsLog"
  policy := .swallow
  detached := true
  respond _ payload :=
    match Event.ofPayload payload with
    | .error f => .raise (.failure f)
    | .ok e =>
      let (remarks, result) := recorder e
      .remarks remarks (conclude e result)

end Stepflow.Analytics
