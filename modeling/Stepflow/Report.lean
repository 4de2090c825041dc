import Stepflow.Arguments
import Stepflow.Datum.Items
import Stepflow.Execution

/-!
# Stepflow.Report — a failure told from its particulars

A collaborator tells a failure by its kind and the particulars of that kind, which may be any data.
A report has the text of the failure, the particulars under their names, and the families that the
failure belongs to.  Where the particulars are of the usual types, the text is that of the failure
made from them.
-/

namespace Stepflow

/-- What a failure is told as. -/
structure Report where
  text : String
  particulars : List (String × Datum)
  families : List Failure.Family

namespace Report

/-! ### Kinds -/

/-- The particulars of a family; nothing for a family whose failures carry any data. -/
def signature? : Failure.Family → Option (List Parameter)
  | .decode =>
    some [.needed "expected", .optional "actual" .null, .optional "path" (.text "$")]
  | .unknownStepType => some [.needed "step_type"]
  | .transport => some [.needed "message", .optional "path" .null, .optional "status_code" .null]
  | .execution | .canceled =>
    some [.needed "message", .optional "workflow_path" (.tuple []), .optional "step_index" .null,
      .optional "step_type" .null, .optional "cause" .null]
  | .unknownExecution => some [.needed "execution_id"]
  | .workflows | .resolver | .analytics => none

/-- The family whose particulars a family has. -/
def maker (family : Failure.Family) : Failure.Family :=
  if family = .canceled then .execution else family

/-! ### Texts -/

/-- A particular that may be missing. -/
def given? : Datum → Option Datum
  | .null => none
  | d => some d

/-- The text of data that a failure carries: none, a single one, or several. -/
def carriedText : List Datum → String
  | [] => ""
  | [d] => d.shown
  | ds => (Datum.tuple ds).quoted

/-- The report of a decoding failure. -/
def ofDecode (expected actual path : Datum) : Report :=
  ⟨Failure.decodeText expected.shown ((given? actual).map Datum.shown) path.shown,
    [("expected", expected), ("actual", actual), ("path", path)], Failure.Family.decode.lineage⟩

/-- The report of a failed interaction; a path that counts as nothing is left out. -/
def ofTransport (message path status : Datum) : Report :=
  ⟨Failure.transportText message.shown (if path.isVacant then none else some path.shown)
      ((given? status).map Datum.shown),
    [("path", path), ("status_code", status)], Failure.Family.transport.lineage⟩

/-- The report of the failure of an execution; a step type that counts as nothing is left out. -/
def ofExecution (family : Failure.Family) (message path index stepType cause : Datum) :
    Except Failure Report := do
  let parts ← path.allItems
  let texts ← Execution.pathTexts 0 parts
  let place := Failure.placeText texts ((given? index).map Datum.shown)
    (if stepType.isVacant then none else some stepType.shown)
  return ⟨Failure.executionText place message.shown ((given? cause).map Datum.shown),
    [("workflow_path", .list parts), ("step_index", index), ("step_type", stepType),
      ("cause", cause)], family.lineage⟩

/-! ### Reports -/

/-- The report of a family from its particulars in order. -/
def ofParticulars (family : Failure.Family) (ds : List Datum) : Except Failure Report :=
  match family, ds with
  | .decode, [expected, actual, path] => .ok (ofDecode expected actual path)
  | .transport, [message, path, status] => .ok (ofTransport message path status)
  | .unknownStepType, [t] =>
    .ok ⟨Failure.unknownStepTypeText t.shown, [("step_type", t)], family.lineage⟩
  | .unknownExecution, [id] =>
    .ok ⟨Failure.unknownExecutionText id.shown, [("execution_id", id)], family.lineage⟩
  | .execution, [message, path, index, stepType, cause]
  | .canceled, [message, path, index, stepType, cause] =>
    ofExecution family message path index stepType cause
  | _, ds => .ok ⟨carriedText ds, [], family.lineage⟩

/-- The report of a kind from particulars in order and by name.  A kind that is no family, and a
family without particulars of its own, carries any data in order and a message. -/
def make (kind : String) (ordered : List Datum) (named : List (String × Datum)) :
    Except Failure Report :=
  let carried := ordered ++ (named.lookup "message").toList
  match Failure.Family.all.find? (·.name == kind) with
  | none => .ok ⟨carriedText carried, [], []⟩
  | some family =>
    match signature? family with
    | none => ofParticulars family carried
    | some parameters => do
      ofParticulars family
        (← Parameter.bind ((maker family).name ++ ".__init__") parameters ordered named)

end Report

end Stepflow
