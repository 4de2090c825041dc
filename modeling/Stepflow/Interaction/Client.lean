import Stepflow.Arguments
import Stepflow.Datum.Items
import Stepflow.Interaction.Basic
import Stepflow.Interaction.Reference

/-!
# Stepflow.Interaction.Client — how a request goes over the wire

A client talks to one server.  A draft is a request as it was handed over, whose parts are checked
one after another when it is sent: the path is a reference to a resource of the server, headers are
texts in ASCII, and the query replaces the one that the path may hold.  A body goes as compact
JSON.  When no response comes, the failure tells why.
-/

namespace Stepflow.Interaction

/-- A request as it was handed over. -/
structure Draft where
  path : Datum
  method : Datum
  body : Datum
  headers : Datum
  query : Datum

/-- A request as the server gets it. -/
structure Sent where
  method : String
  path : String
  query : List (String × String)
  content : String
  contentType : Option String
  headers : Fields String

/-! ### Drafts -/

/-- The parts of a draft. -/
def Draft.signature : List Parameter :=
  [.needed "path", .optional "method" (.text "GET"), .optional "body" .null,
    .optional "headers" (.table []), .optional "query" (.table [])]

/-- The draft of named parts. -/
def Draft.ofParts (entries : List (Datum × Datum)) : Except Failure Draft := do
  let parts ← Parameter.bind "HttpRequest.__init__" signature [] (← Parameter.named entries)
  let part := fun (i : Nat) => (parts[i]?).getD .null
  return ⟨part 0, part 1, part 2, part 3, part 4⟩

/-! ### Queries -/

/-- The parameter of one part of a query; a plus sign is a space. -/
def parameter (part : List Char) : String × String :=
  let plain := part.map (fun c => if c = '+' then ' ' else c)
  let (name, value) := Text.cut '=' plain
  (unescape name, unescape (value.getD []))

/-- The parameters in the order in which their names occur first. -/
def groupByName (parameters : List (String × String)) : List (String × String) :=
  (parameters.map Prod.fst).eraseDups.flatMap (fun name => parameters.filter (·.1 == name))

/-- The parameters of a query. -/
def parameters (query : List Char) : List (String × String) :=
  groupByName (((Text.split '&' query).filter (!·.isEmpty)).map parameter)

/-- A datum as the value of a parameter. -/
def parameterText : Datum → String
  | .null => ""
  | .bool b => if b then "true" else "false"
  | d => d.shown

/-- The values that the parameter of a datum has: a sequence has one for each of its items. -/
def parameterValues : Datum → List Datum
  | .list items | .tuple items => items
  | d => [d]

/-- Put a value under a key, after those that the key has. -/
def putUnder (k d : Datum) : List (Datum × List Datum) → List (Datum × List Datum)
  | [] => [(k, [d])]
  | (j, ds) :: rest => if j.sameKey k then (j, ds ++ [d]) :: rest else (j, ds) :: putUnder k d rest

/-- The values of items under their keys: the first part of an item is a key, the second a value. -/
def underKeys (groups : List (Datum × List Datum)) :
    List Datum → Except Failure (List (Datum × List Datum))
  | [] => .ok groups
  | item :: rest => do
    let k ← (← item.partAt 0).asKey
    underKeys (putUnder k (← item.partAt 1) groups) rest

/-- The parameters of values under their keys; of keys with one text the last gives the values. -/
def parametersUnder (groups : List (Datum × List Datum)) : List (String × String) :=
  (Fields.ofList (groups.map (fun g => (g.1.shown, g.2.map parameterText)))).entries.flatMap
    (fun e => e.2.map ((e.1, ·)))

/-- The parameters of data that are given as a query; data that count as nothing give none. -/
def givenParameters (d : Datum) : Except Failure (Option (List (String × String))) :=
  if d.isVacant then .ok none
  else match d with
    | .text s => .ok (some (parameters s.toList))
    | .table entries =>
      .ok (some (parametersUnder (entries.map (fun e => (e.1, parameterValues e.2)))))
    | .list items | .tuple items => do
      return some (parametersUnder (← underKeys [] items))
    | d => .error (.noMember d.typeName "items")

/-! ### Headers -/

/-- The failure of characters that ASCII does not hold, if there are any: it tells the first of
them, and the last of those that follow one another. -/
def asciiFailure? (cs : List Char) : Option Failure :=
  let isWide := fun (c : Char) => 0x80 ≤ c.toNat
  let start := (cs.takeWhile (!isWide ·)).length
  let tell := fun (what : String) => some (Failure.outside .encoding
    ("'ascii' codec can't encode " ++ what ++ ": ordinal not in range(128)"))
  match (cs.drop start).takeWhile isWide with
  | [] => none
  | [c] =>
    tell ("character '" ++ String.ofList (Text.escapedCode c) ++ "' in position " ++ toString start)
  | run => tell ("characters in position " ++ toString start ++ "-" ++
      toString (start + run.length - 1))

/-- The text of a header name. -/
def headerName : Datum → Except Failure String
  | .text s => match asciiFailure? s.toList with
    | some f => .error f
    | none => .ok s
  | d => .error (.noMember d.typeName "encode")

/-- The text of a header value. -/
def headerValue : Datum → Except Failure String
  | .text s => match asciiFailure? s.toList with
    | some f => .error f
    | none => .ok s
  | d => .error (.outside .type
      ("Header value must be str or bytes, not <class '" ++ d.typeName ++ "'>"))

/-- Headers one after another, the name of each before its value. -/
def headerTexts : List (Datum × Datum) → Except Failure (List (String × String))
  | [] => .ok []
  | (k, d) :: rest => do
    let name ← headerName k
    let value ← headerValue d
    return (name, value) :: (← headerTexts rest)

/-- The headers of data that are given as such; data that count as nothing give none. -/
def givenHeaders (d : Datum) : Except Failure (List (String × String)) :=
  if d.isVacant then .ok []
  else match d with
    | .table entries => headerTexts entries
    | d => do headerTexts (← (← d.allItems).mapM Datum.pairOf)

/-- The header of a name in any letter case; several of one name are one with commas. -/
def header? (headers : List (String × String)) (name : String) : Option String :=
  let lowered := fun (s : String) => s.toList.map Char.toLower
  match headers.filter (fun e => lowered e.1 == lowered name) with
  | [] => none
  | found => some (", ".intercalate (found.map Prod.snd))

/-! ### Sending -/

/-- The target of a path. -/
def targetOf : Datum → Except Failure Target
  | .text s => Target.ofReference s
  | d => .error (.outside .type ("Invalid type for url.  Expected str or httpx.URL, got <class '" ++
      d.typeName ++ "'>: " ++ d.quoted))

/-- A method in capitals. -/
def methodOf : Datum → Except Failure String
  | .text s => .ok (String.ofList (Text.upper s.toList))
  | d => .error (.noMember d.typeName "upper")

/-- The text of a body; nothing for null. -/
def contentOf : Datum → Except Failure (Option String)
  | .null => .ok none
  | d =>
    match Value.wrap d with
    | .ok v => .ok (some v.render)
    | .error _ => .error (.outside .value "Out of range float values are not JSON compliant")

/-- What the server gets of a draft. -/
def Draft.sent (r : Draft) : Except Failure Sent := do
  let target ← targetOf r.path
  let headers ← givenHeaders r.headers
  let query ← givenParameters r.query
  let method ← methodOf r.method
  let content ← contentOf r.body
  let joined := headers.map (fun e => (e.1, (header? headers e.1).getD e.2))
  return {
    method := method
    path := target.path
    query := query.getD (parameters (target.query.getD []))
    content := content.getD ""
    contentType := (header? headers "content-type").or (content.map (fun _ => "application/json"))
    headers := Fields.ofList joined }

/-! ### Responses -/

/-- Why no response came: a kind of failure and a text. -/
structure Interruption where
  kind : String
  message : String

/-- The kinds of failures that are no failed interactions, and are told as they are. -/
def ownKinds : List String := ["InvalidURL", "CookieConflict", "StreamError"]

/-- The kinds of failures that carry no text. -/
def textlessKinds : List String :=
  ["StreamConsumed", "StreamClosed", "ResponseNotRead", "RequestNotRead"]

/-- The kinds of failures that need more than a text. -/
def furtherKinds : List String := ["HTTPStatusError"]

/-- What a draft that was sent comes to: the response, or the failure that tells why there is
none. -/
def Draft.conclude (r : Draft) : Except Interruption Response → Except Failure Response
  | .ok response => .ok response
  | .error ⟨kind, message⟩ =>
    if ownKinds.contains kind then .error (.outside (.client kind) message)
    else if textlessKinds.contains kind then .error (.surplusArguments (kind ++ ".__init__") 0 0 1)
    else if furtherKinds.contains kind then .error (.outside .type
      (kind ++ ".__init__() missing 2 required keyword-only arguments: 'request' and 'response'"))
    else .error
      (.transport (if message.isEmpty then kind else message) (some r.path.shown) none)

/-! ### Connections -/

/-- The connections of a client, which belong to it or are borrowed. -/
structure Connections where
  owned : Bool
  isOpen : Bool

/-- Leave a client: it closes its own connections, not those that are borrowed. -/
def Connections.leave (c : Connections) : Connections :=
  { c with isOpen := c.isOpen && !c.owned }

end Stepflow.Interaction
