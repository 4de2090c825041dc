import Stepflow.FieldName
import Stepflow.Json.Reader

/-!
# Stepflow.Interaction.Basic — requests to a server and its responses

A step payload describes a request by its path and, optionally, method, body, headers and query.  A response succeeds
below status 400.  Its body is null where it is blank, the decoded value where it is JSON, and its text where it does not
decode; it fails where a whole number in it is too long to be read, since that is no failure of decoding.
-/

namespace Stepflow.Interaction

/-- A request to a server; no body is a null body. -/
structure Request where
  path : String
  method : String
  body : Json
  headers : Fields String
  query : Fields String

/-- A response of a server. -/
structure Response where
  status : Int
  content : List UInt8

/-! ### Requests -/

/-- Project entries to texts one after another. -/
def textEntries (texts : Fields String) : List (String × Value) → Except Failure (Fields String)
  | [] => .ok texts
  | (k, v) :: rest =>
    match v.asText with
    | .ok s => textEntries (texts.insert k s) rest
    | .error f => .error f

/-- An object of texts; nothing where the field is missing or null. -/
def textFields : Option Value → Except Failure (Fields String)
  | none => .ok Fields.empty
  | some v =>
    if v.isNull then .ok Fields.empty
    else do
      let fields ← v.asObject
      textEntries Fields.empty fields.entries

/-- Decode a request from a payload.  Methods are written in capitals. -/
def Request.ofPayload (payload : Value) : Except Failure Request := do
  let method ← FieldName.find? payload "method"
  let body ← FieldName.find? payload "body"
  let path ← (← payload.require "path").asText
  let method ← match method with
    | some m => m.asText.map (fun s => String.ofList (Text.upper s.toList))
    | none => .ok "GET"
  let headers ← textFields (← FieldName.find? payload "headers")
  let query ← textFields (← FieldName.find? payload "query")
  return ⟨path, method, match body with | some b => b.json | none => .null, headers, query⟩

/-! ### Responses -/

/-- Whether a response reports success. -/
def Response.isSuccess (r : Response) : Bool := r.status < 400

/-- The bytes that count as blank: the ASCII blanks. -/
def isBlankByte (b : UInt8) : Bool := b == 32 || (9 ≤ b && b ≤ 13)

/-- The body of a response as a value.  Only failures of decoding make it a text. -/
def Response.body (r : Response) : Except Failure Value :=
  if r.content.all isBlankByte then .ok Value.null
  else match Value.ofBytes r.content Json.digitLimit with
    | .ok v => .ok v
    | .error f =>
      if f.family? = some .decode then
        .ok (Value.text Value.rootPath (String.ofList (Text.decodeUtf8Lenient r.content)))
      else .error f

end Stepflow.Interaction
