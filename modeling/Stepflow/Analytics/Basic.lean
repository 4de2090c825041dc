import Stepflow.FieldName

/-!
# Stepflow.Analytics.Basic — events that a payload describes

An event has a name, a type, which is that of a function call unless the payload says otherwise,
and properties.
-/

namespace Stepflow.Analytics

/-- An event to be recorded. -/
structure Event where
  name : String
  eventType : String
  properties : Fields Value

/-- The type of an event whose payload names none. -/
def defaultType : String := "SDK_FUNCTION_EVENT"

/-- Decode an event from a payload. -/
def Event.ofPayload (payload : Value) : Except Failure Event := do
  let eventType ← FieldName.find? payload "event_type"
  let properties ← FieldName.find? payload "properties"
  let name ← (← payload.require "event").asText
  let eventType ← match eventType with
    | some t => t.asText
    | none => .ok defaultType
  let properties ← match properties with
    | some p => if p.isNull then .ok Fields.empty else p.asObject
    | none => .ok Fields.empty
  return ⟨name, eventType, properties⟩

/-- The properties as plain data. -/
def Event.propertiesData (e : Event) : Datum := State.thaw e.properties

end Stepflow.Analytics
