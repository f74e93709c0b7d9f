import HttpWorkflow.Json.Reader
import HttpWorkflow.Query
import HttpWorkflow.Step.Method

/-! Requests, made from the evaluated fields of a step, and responses. -/

set_option autoImplicit false

namespace HttpWorkflow

structure Request where
  method : Method
  url : String
  headers : List (String × String)
  body : Option String
  options : Members
  deriving Inhabited

/-- Why no request can be made: the headers are no JSON text, or not of an object. -/
inductive RequestError where
  | unreadableHeaders
  | headersNotObject (text : String)

namespace RequestError

/-- The message, apart from what the reader of JSON says. -/
def message? : RequestError → Option String
  | unreadableHeaders => none
  | headersNotObject text => some s!"headers do not resolve to a JSON object: `{text}`"

end RequestError

namespace Request

def headerList (members : Members) : List (String × String) :=
  members.map fun (name, v) => (name, v.stringify)

/-- Headers of a value: an object, the JSON text of one, or nothing. -/
def headersOf (v : Json) : Except RequestError (List (String × String)) :=
  match v with
  | .object members => .ok (headerList members)
  | .string text =>
    match Json.parse? text with
    | none => .error .unreadableHeaders
    | some (.object members) => .ok (headerList members)
    | some (.string _) => .error (.headersNotObject text)
    | some v => if v.isFalsy then .ok [] else .error (.headersNotObject v.compress)
  | v => if v.isFalsy then .ok [] else .error (.headersNotObject v.compress)

def encodeUri (url : String) : String := String.ofList (Percent.encodeUri url.toList)

def urlText (url : Json) : String := if url.isFalsy then "" else url.stringify

/-- The payload as it stands in the query of a URL. -/
def queryText : Json → String
  | .string raw => raw
  | .object fields => Query.serialize fields
  | _ => ""

/-- A payload that is present becomes the body or the query of the URL, as the verb has it. -/
def build (method : Method) (url headers payload : Json) (options : Members) :
    Except RequestError Request := do
  let headers ← headersOf headers
  let text := urlText url
  let request : Request := ⟨method, encodeUri text, headers, none, options⟩
  if payload.isFalsy then return request
  else if method.carriesBody then return { request with body := some payload.stringify }
  else return { request with url := encodeUri (text ++ "?" ++ queryText payload) }

end Request

structure Response where
  status : Nat
  body : String
  deriving Inhabited

namespace Response

def ok (r : Response) : Bool := 200 ≤ r.status && r.status < 300

def json? (r : Response) : Option Json := Json.parse? r.body

end Response

end HttpWorkflow
