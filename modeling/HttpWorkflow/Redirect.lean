import HttpWorkflow.Message

/-! Redirections, which a caller follows a limited number of times. -/

set_option autoImplicit false

namespace HttpWorkflow.Call

def maxRedirects : Nat := 10

/-- Headers that no other server may see. -/
def secretHeaders : List String :=
  ["authorization", "cookie", "cookie2", "proxy-authorization", "www-authenticate"]

/-- Headers that describe a body. -/
def bodyHeaders : List String :=
  ["transfer-encoding", "content-encoding", "content-type", "content-length"]

def without (names : List String) (headers : List (String × String)) : List (String × String) :=
  headers.filter fun h => !names.contains h.1

def sameServer (a b : Url) : Bool :=
  let port (u : Url) : Option Nat := u.port.or (Url.defaultPort? u.scheme)
  a.host == b.host && port a == port b

/-- The URL that the next server is told; none when it is less safe than this one. -/
def referer? (here next : Url) : Option String :=
  if here.scheme = "https" && next.scheme = "http" then none
  else some { here with username := "", password := "", fragment := none }.text

/-- The same call of another URL. -/
def moved (c : Call) (next : Url) : Call :=
  let kept := if sameServer c.url next then c.headers else without secretHeaders c.headers
  let referer := (referer? c.url next).toList.map fun v => ("referer", v)
  let kept := if referer.isEmpty then kept else without ["referer"] kept ++ referer
  { c with url := next, headers := kept }

/-- The call as a plain question, without its body. -/
def bare (c : Call) : Call :=
  { c with method := .get, body := none, headers := without bodyHeaders c.headers }

/-- The call that a reply asks for in place of this one. -/
def next? (c : Call) (reply : Message.Reply) : Option Call := do
  let location ← reply.location
  let url ← (Url.parse (some c.url) location).toOption
  match reply.response.status with
  | 301 | 302 | 303 => return (c.moved url).bare
  | 307 | 308 => return c.moved url
  | _ => none

theorem url_next? {c n : Call} {reply : Message.Reply} (found : c.next? reply = some n) :
    ∃ location, reply.location = some location ∧
      Url.parse (some c.url) location = .ok n.url := by
  simp only [next?, Option.bind_eq_bind, Option.bind_eq_some_iff] at found
  obtain ⟨location, given, url, parsed, result⟩ := found
  refine ⟨location, given, ?_⟩
  have same : n.url = url := by
    split at result <;> first | (cases result; rfl) | cases result
  rw [same]
  cases inner : Url.parse (some c.url) location with
  | error e => rw [inner] at parsed; cases parsed
  | ok u => rw [inner] at parsed; cases parsed; rfl

end HttpWorkflow.Call
