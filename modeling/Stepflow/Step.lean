import Stepflow.Arguments
import Stepflow.Datum.Items
import Stepflow.FieldName

/-!
# Stepflow.Step — one unit of work that the backend declares

A step names its type, which is opaque and never empty, and carries a payload for the resolver of
that type.  Fields of the document that are not understood are kept and written back.
-/

namespace Stepflow

/-- A step of a workflow. -/
structure Step where
  stepType : String
  payload : Value
  extra : Fields Datum
  named : stepType ≠ ""

namespace Step

/-- A step from its parts: the type is checked before the payload. -/
def make (stepType payload : Datum) (extra : Fields Datum) : Except Failure Step :=
  match stepType with
  | .text t =>
    if h : t ≠ "" then (Value.wrap payload).map (fun v => ⟨t, v, extra, h⟩)
    else .error (Failure.decodeAtRoot "non-empty step type" stepType.quoted)
  | _ => .error (Failure.decodeAtRoot "non-empty step type" stepType.quoted)

/-- The parts of a step. -/
def signature : List Parameter :=
  [.needed "type", .optional "payload" .null, .optional "extra" (.table [])]

/-- The text under which an entry that was not understood is written. -/
def extraKey : Datum → String
  | .null => "null"
  | .bool b => if b then "true" else "false"
  | d => d.shown

/-- A step of named parts; what was not understood may be anything that a table can be made from. -/
def ofParts (entries : List (Datum × Datum)) : Except Failure Step := do
  let parts ← Parameter.bind "Step.__init__" signature [] (← Parameter.named entries)
  let part := fun (i : Nat) => (parts[i]?).getD .null
  let step ← make (part 0) (part 1) Fields.empty
  let extra ← (part 2).entriesOf
  return { step with extra := Fields.ofList (extra.map (fun e => (extraKey e.1, e.2))) }

/-- Decode a step: the payload is checked before the type. -/
def ofWire (d : Datum) : Except Failure Step := do
  let fields ← FieldName.ofRecord "step object" d
  match fields.get? "type" with
  | none => throw (.decode "field 'type'" (some "nothing") "$.step")
  | some stepType =>
    let payload ← Value.wrap ((fields.get? "payload").getD .null)
    make stepType (.value payload) ((fields.erase "type").erase "payload")

/-- The fields of a step as a document: what was not understood, then the step's own. -/
def wireFields (s : Step) : Fields Datum :=
  (s.extra.insert "type" (.text s.stepType)).insert "payload" s.payload.toDatum

/-- A step as a document. -/
def toWire (s : Step) : Datum := Datum.ofTextFields s.wireFields

/-- Equality of type and payload. -/
def same (a b : Step) : Bool := a.stepType == b.stepType && a.payload.same b.payload

end Step

end Stepflow
