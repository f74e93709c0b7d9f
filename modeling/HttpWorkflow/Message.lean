import HttpWorkflow.Text.Base64
import HttpWorkflow.Transport

/-! Calls and replies as the octets of HTTP/1.1.

A reply is complete when its own octets say so: after the chunks of its body, after a stated
length, or else at the end of the connection.
-/

set_option autoImplicit false

namespace HttpWorkflow.Message

abbrev Octets := List Nat

def ofText (s : String) : Octets := Utf8.encode s.toList

/-- The name of the server as a header gives it. -/
def authority (u : Url) : String :=
  (u.host.elim "" Host.text) ++ match u.port with
    | some n => ":" ++ toString n
    | none => ""

/-- The user and the password of a URL, which travel in a header. -/
def credentials? (u : Url) : Option String :=
  if u.username.isEmpty && u.password.isEmpty then none
  else
    let plain (s : String) : Octets := Percent.decode (ofText s)
    let secret := plain u.username ++ ofText ":" ++ plain u.password
    some ("Basic " ++ String.ofList (Base64.encode secret))

/-- The headers of a call: its own, and those that every call needs. -/
def headers (c : Call) : List (String × String) :=
  let missing (name value : String) : List (String × String) :=
    if (c.headers.lookup name).isSome then [] else [(name, value)]
  let secret := (credentials? c.url).toList.map fun v => ("authorization", v)
  let length := c.body.toList.flatMap fun b => missing "content-length" (toString b.utf8ByteSize)
  secret ++ c.headers ++ missing "accept" "*/*" ++ missing "host" (authority c.url) ++ length

def headerText (header : String × String) : String := header.1 ++ ": " ++ header.2 ++ "\r\n"

/-- A call as it goes to the server. -/
def ofCall (c : Call) : Octets :=
  ofText (c.method.name ++ " " ++ c.url.target ++ " HTTP/1.1\r\n"
    ++ String.join ((headers c).map headerText) ++ "\r\n" ++ c.body.getD "")

/-- The octets before the end of a line, and those after it. -/
def line? : Octets → Option (Octets × Octets)
  | [] => none
  | 13 :: 10 :: rest | 10 :: rest => some ([], rest)
  | b :: rest => (line? rest).map fun (l, after) => (b :: l, after)

theorem length_line? {octets l after : Octets} (found : line? octets = some (l, after)) :
    after.length < octets.length := by
  fun_induction line? octets generalizing l with
  | case1 => cases found
  | case2 rest => cases found; simp only [List.length_cons]; omega
  | case3 rest => cases found; exact Nat.lt_succ_self _
  | case4 b rest _ _ ih =>
    obtain ⟨⟨m, a⟩, inner, same⟩ := Option.map_eq_some_iff.1 found
    cases same
    exact Nat.lt_succ_of_lt (ih inner)

/-- The lines up to an empty one, and the octets after that. -/
def section? (octets : Octets) : Option (List Octets × Octets) :=
  match _h : line? octets with
  | none => none
  | some ([], after) => some ([], after)
  | some (l, after) => (section? after).map fun (ls, rest) => (l :: ls, rest)
termination_by octets.length
decreasing_by exact length_line? ‹_›

theorem length_section? {octets rest : Octets} {ls : List Octets}
    (found : section? octets = some (ls, rest)) : rest.length < octets.length := by
  fun_induction section? octets generalizing ls with
  | case1 => cases found
  | case2 octets after h => cases found; exact length_line? h
  | case3 octets l after _ h ih =>
    obtain ⟨⟨m, r⟩, inner, same⟩ := Option.map_eq_some_iff.1 found
    cases same
    exact Nat.lt_trans (ih inner) (length_line? h)

def isPad (b : Nat) : Bool := b = 32 || b = 9

def trim (octets : Octets) : Octets :=
  ((octets.dropWhile isPad).reverse.dropWhile isPad).reverse

def toText (octets : Octets) : String := String.ofList (Utf8.decodeLossy octets)

/-- The name of a header in small letters, and its value. -/
def header (l : Octets) : String × Octets :=
  let name := l.takeWhile (· ≠ 58)
  (String.ofList ((toText name).toList.map Char.toLower), trim (l.drop (name.length + 1)))

/-- The status in the first line of a reply. -/
def status? (l : Octets) : Option Nat := do
  guard ((ofText "HTTP/1.").isPrefixOf l)
  let digits := (l.drop 9).take 3
  guard (digits.length = 3 && digits.all fun b => 48 ≤ b && b ≤ 57)
  return digits.foldl (fun n b => n * 10 + (b - 48)) 0

structure Head where
  status : Nat
  headers : List (String × Octets)

/-- The head of a reply, after any that only announce it. -/
def head? (octets : Octets) : Option (Head × Octets) :=
  match _h : section? octets with
  | none | some ([], _) => none
  | some (first :: ls, rest) =>
    match status? first with
    | none => none
    | some n => if n < 200 then head? rest else some (⟨n, ls.map header⟩, rest)
termination_by octets.length
decreasing_by exact length_section? ‹_›

/-- The number at the head of a chunk, in hexadecimal digits. -/
def chunkSize? (l : Octets) : Option Nat := do
  let digits := (trim (l.takeWhile (· ≠ 59)))
  guard !digits.isEmpty
  digits.foldlM (fun n b => (Percent.hexValue b).map (n * 16 + ·)) 0

/-- A body in chunks, of which the last is empty. -/
def chunks? (octets : Octets) : Option Octets :=
  match _h : line? octets with
  | none => none
  | some (l, after) =>
    match chunkSize? l with
    | none => none
    | some 0 => (section? after).map fun _ => []
    | some n =>
      if (after.drop n).take 2 = [13, 10] then
        (chunks? (after.drop (n + 2))).map (after.take n ++ ·)
      else none
termination_by octets.length
decreasing_by
  have := length_line? ‹_›
  simp only [List.length_drop]
  omega

def length? (v : Octets) : Option Nat :=
  if v.isEmpty || !v.all (fun b => 48 ≤ b && b ≤ 57) then none
  else some (v.foldl (fun n b => n * 10 + (b - 48)) 0)

def isChunked (h : Head) : Bool :=
  ((h.headers.lookup "transfer-encoding").map fun v => (toText v).toLower.endsWith "chunked")
    |>.getD false

/-- The body after a head; `ended` when no more octets come. -/
def body? (ended : Bool) (h : Head) (rest : Octets) : Option Octets :=
  if h.status = 204 || h.status = 304 then some []
  else if isChunked h then chunks? rest
  else match h.headers.lookup "content-length" with
    | some v => do
      let n ← length? v
      if n ≤ rest.length then some (rest.take n) else none
    | none => if ended then some rest else none

/-- What a server answers, and where it sends the caller instead. -/
structure Reply where
  response : Response
  location : Option String

/-- The reply that octets hold, once it is complete. -/
def reply? (ended : Bool) (octets : Octets) : Option Reply := do
  let (h, rest) ← head? octets
  let body ← body? ended h rest
  let location := ((h.headers.lookup "location").bind Utf8.decode).map String.ofList
  return ⟨⟨h.status, toText body⟩, location⟩

end HttpWorkflow.Message
