import HttpWorkflow.Run
import HttpWorkflow.Url.Parse

/-! Sending requests over HTTP.

A request is checked here; what is left to do with it is a `Call`, which a connection answers or
not.
-/

set_option autoImplicit false

namespace HttpWorkflow

/-- A base that is no URL. -/
structure BaseUrlError where
  url : String
  reason : UrlError
  deriving DecidableEq, Repr

def BaseUrlError.message (e : BaseUrlError) : String :=
  s!"invalid base url `{e.url}`: {e.reason.message}"

inductive TransportError where
  | invalidUrl (url : String) (reason : UrlError)
  | invalidHeader (name : String)
  | noResponse
  deriving DecidableEq, Repr

def TransportError.message? : TransportError → Option String
  | invalidUrl url reason => some s!"invalid request url `{url}`: {reason.message}"
  | invalidHeader name => some s!"invalid header `{name}`"
  | noResponse => none

/-- A request with its URL resolved. The timeout is in milliseconds. -/
structure Call where
  method : Method
  url : Url
  headers : List (String × String)
  body : Option String
  timeout : Nat

/-- Makes a call; `none` when no response arrives. -/
abbrev Connection (m : Type → Type) := Call → m (Option Response)

namespace Config

/-- The base that relative URLs of steps refer to. -/
def base (c : Config) : Except BaseUrlError (Option Url) :=
  match c.baseUrl with
  | none => .ok none
  | some text =>
    match Url.parse none text with
    | .ok u => .ok (some u)
    | .error reason => .error ⟨text, reason⟩

end Config

namespace Header

def isNameChar (c : Char) : Bool := c.isAlphanum || "!#$%&'*+-.^_`|~".toList.contains c

/-- The name of a header in small letters. -/
def name? (name : String) : Option String :=
  let cs := name.toList
  if cs.isEmpty || 65535 < cs.length || !cs.all isNameChar then none
  else some (String.ofList (cs.map Char.toLower))

/-- Values have no control characters apart from tabs. -/
def isValue (value : String) : Bool :=
  value.toList.all fun c => c = '\t' || (32 ≤ c.toNat && c.toNat ≠ 127)

def check (header : String × String) : Except TransportError (String × String) :=
  match name? header.1 with
  | none => .error (.invalidHeader header.1)
  | some name => if isValue header.2 then .ok (name, header.2) else .error (.invalidHeader name)

end Header

namespace Request

/-- The call for a request. An option `timeout` goes before the one of the settings. -/
def toCall (r : Request) (base : Option Url) (timeout : Nat) : Except TransportError Call := do
  let url ← match Url.parse base r.url with
    | .ok u => pure u
    | .error reason => throw (.invalidUrl r.url reason)
  let headers ← r.headers.mapM Header.check
  let timeout := match r.options.lookup "timeout" with
    | some (.int n) => if 0 ≤ n then n.toNat else timeout
    | _ => timeout
  return ⟨r.method, url, headers, r.body, timeout⟩

end Request

namespace Connection

variable {m : Type → Type} [Monad m]

/-- The connection for a program that keeps what is printed. -/
def keeping (connect : Connection m) : Connection (StateT String m) := fun call => connect call

/-- Check a request, then make the call. -/
def send (connect : Connection m) (base : Option Url) (timeout : Nat) (r : Request) :
    ExceptT TransportError m Response := do
  let call ← r.toCall base timeout
  match ← (connect call : m (Option Response)) with
  | some response => return response
  | none => throw .noResponse

/-- The transport over a connection. -/
def transport (connect : Connection m) (base : Option Url) (timeout : Nat) : Transport m :=
  fun r => Except.toOption <$> (connect.send base timeout r).run

end Connection

end HttpWorkflow
