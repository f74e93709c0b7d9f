import HttpWorkflow.Url.Host

/-! Reading URLs, alone and relative to another one. -/

set_option autoImplicit false

namespace HttpWorkflow.Url

/-- Escape control characters, characters beyond ASCII and some others. -/
def escapeSome (others : String) (cs : List Char) : List Char :=
  cs.flatMap fun c =>
    if c.toNat < 32 || 126 < c.toNat || others.toList.contains c then Percent.escapeChar c else [c]

def fragmentSigns : String := " \"<>`"

def pathSigns : String := " \"<>`#?\x7b\x7d"

def userinfoSigns : String := pathSigns ++ "/:;=@[\\]^|"

def querySigns (scheme : String) : String :=
  if isSpecialScheme scheme then " \"#<>'" else " \"#<>"

def trimControls (cs : List Char) : List Char :=
  let isControl (c : Char) : Bool := c.toNat ≤ 32
  ((cs.dropWhile isControl).reverse.dropWhile isControl).reverse

/-- The characters of a text that count: tabs and line breaks do not. -/
def significant (text : String) : List Char :=
  (trimControls text.toList).filter fun c => c ≠ '\t' && c ≠ '\n' && c ≠ '\r'

/-- A scheme before a colon, and what follows it. -/
def scheme? (cs : List Char) : Option (String × List Char) :=
  let name := cs.takeWhile fun c => c.isAlphanum || c = '+' || c = '-' || c = '.'
  match name, cs.drop name.length with
  | first :: _, ':' :: rest =>
    if first.isAlpha then some (String.ofList (name.map Char.toLower), rest) else none
  | _, _ => none

/-- Whether a character separates segments of the path. -/
def isSlash (scheme : String) (c : Char) : Bool := c = '/' || (isSpecialScheme scheme && c = '\\')

/-- A segment with the escapes of points undone. -/
def pointsOf (cs : List Char) : List Char :=
  match cs with
  | '%' :: '2' :: e :: rest =>
    if e = 'e' || e = 'E' then '.' :: pointsOf rest else '%' :: pointsOf ('2' :: e :: rest)
  | c :: rest => c :: pointsOf rest
  | [] => []

/-- Follow segments from a path: one point stays, two points go up. -/
def follow (path : List String) : List (List Char) → List String
  | [] => path
  | [last] =>
    match pointsOf last with
    | ['.', '.'] => path.dropLast ++ [""]
    | ['.'] => path ++ [""]
    | _ => path ++ [String.ofList (escapeSome pathSigns last)]
  | first :: rest =>
    match pointsOf first with
    | ['.', '.'] => follow path.dropLast rest
    | ['.'] => follow path rest
    | _ => follow (path ++ [String.ofList (escapeSome pathSigns first)]) rest

/-- The text up to a query or a fragment. -/
def untilQuery (cs : List Char) : List Char := cs.takeWhile fun c => c ≠ '?' && c ≠ '#'

/-- Take the query and the fragment at the head of a text into a URL. -/
def withTail (u : Url) (cs : List Char) : Url :=
  let beforeFragment := cs.takeWhile (· ≠ '#')
  let query := match beforeFragment with
    | '?' :: rest => some (String.ofList (escapeSome (querySigns u.scheme) rest))
    | _ => u.query
  let fragment := match cs.dropWhile (· ≠ '#') with
    | _ :: rest => some (String.ofList (escapeSome fragmentSigns rest))
    | [] => none
  { u with query := query, fragment := fragment }

/-- Take path segments, a query and a fragment into a URL whose path goes so far. -/
def withPath (u : Url) (path : List String) (cs : List Char) : Url :=
  let body := untilQuery cs
  withTail { u with path := .segments (follow path (body.splitOnP (isSlash u.scheme))), query := none }
    (cs.drop body.length)

/-- Read the path after an authority. A special scheme always has one. -/
def withRootedPath (u : Url) (cs : List Char) : Url :=
  match cs with
  | c :: rest =>
    if isSlash u.scheme c then withPath u [] rest
    else if u.isSpecial then withPath u [] cs
    else withTail { u with path := .segments [], query := none } cs
  | [] => { u with path := .segments (if u.isSpecial then [""] else []), query := none }

def port? (scheme : String) (cs : List Char) : Except UrlError (Option Nat) :=
  if !cs.all Char.isDigit then .error .invalidPort
  else
    let n := cs.foldl (fun n c => n * 10 + (c.toNat - 48)) 0
    if 65535 < n then .error .invalidPort
    else .ok (if cs.isEmpty || defaultPort? scheme = some n then none else some n)

/-- The host at the head of an authority, up to a colon outside of brackets, and the rest. -/
def splitHost : Bool → List Char → List Char × List Char
  | _, [] => ([], [])
  | inBrackets, c :: rest =>
    if c = ':' && !inBrackets then ([], c :: rest)
    else
      let (host, after) := splitHost (if c = '[' then true else if c = ']' then false else inBrackets) rest
      (c :: host, after)

/-- Read an authority, a path, a query and a fragment. -/
def readAuthority (scheme : String) (cs : List Char) : Except UrlError Url := do
  let authority := cs.takeWhile fun c => !isSlash scheme c && c ≠ '?' && c ≠ '#'
  let rest := cs.drop authority.length
  let server := (authority.reverse.takeWhile (· ≠ '@')).reverse
  let user := authority.take (authority.length - server.length - 1)
  let hasUser := server.length < authority.length
  if hasUser && server.isEmpty then throw .emptyHost
  let escaped (cs : List Char) : String := String.ofList (escapeSome userinfoSigns cs)
  let (hostText, afterHost) := splitHost false server
  let special := isSpecialScheme scheme
  if hostText.isEmpty && (special || !afterHost.isEmpty || hasUser) then throw .emptyHost
  let host ← if special then Host.parse hostText else Host.parseKept hostText
  let port ← port? scheme (afterHost.drop 1)
  return withRootedPath {
    scheme := scheme
    username := escaped (user.takeWhile (· ≠ ':'))
    password := escaped ((user.dropWhile (· ≠ ':')).drop 1)
    host := some host
    port := port } rest

/-- The host and the path of a file, which may have no host. -/
def readLocal (cs : List Char) : Except UrlError Url := do
  let slashes := (cs.takeWhile (isSlash "file")).length
  if slashes < 2 then return withRootedPath { scheme := "file", host := some (.domain "") } cs
  let hostText := (cs.drop 2).takeWhile fun c => !isSlash "file" c && c ≠ '?' && c ≠ '#'
  let rest := cs.drop (2 + hostText.length)
  let host ← if hostText.isEmpty then pure (.domain "") else Host.parse hostText
  let host := if host = .domain "localhost" then .domain "" else host
  return withRootedPath { scheme := "file", host := some host } rest

/-- Read a reference without a scheme. -/
def readRelative (base : Url) (cs : List Char) : Except UrlError Url :=
  match base.path with
  | .rootless _ =>
    if cs.head? = some '#' then .ok (withTail base cs) else .error .relativeToRootless
  | .segments names =>
    match cs with
    | [] => .ok { base with fragment := none }
    | '#' :: _ => .ok (withTail base cs)
    | '?' :: _ => .ok (withTail { base with query := none } cs)
    | c :: rest =>
      if isSlash base.scheme c then
        if (rest.head?.map (isSlash base.scheme)).getD false then
          if base.scheme = "file" then readLocal cs
          else if c = '/' && rest.head? = some '/' then readAuthority base.scheme (rest.drop 1)
          else readAuthority base.scheme (rest.dropWhile (isSlash base.scheme))
        else .ok (withPath base [] rest)
      else .ok (withPath base names.dropLast cs)

/-- Read a text, relative to a base if there is one. -/
def parse (base : Option Url) (text : String) : Except UrlError Url :=
  let cs := significant text
  match scheme? cs, base with
  | some (scheme, rest), base =>
    let slashes := (rest.takeWhile (isSlash scheme)).length
    if scheme = "file" then
      match base with
      | some b => if slashes = 0 && b.scheme = "file" then readRelative b rest else readLocal rest
      | none => readLocal rest
    else if isSpecialScheme scheme then
      match base with
      | some b =>
        if slashes < 2 && b.scheme = scheme then readRelative b rest
        else readAuthority scheme (rest.drop slashes)
      | none => readAuthority scheme (rest.drop slashes)
    else if rest.take 2 = ['/', '/'] then readAuthority scheme (rest.drop 2)
    else match rest with
      | '/' :: path => .ok (withPath { scheme := scheme } [] path)
      | rest =>
        let body := untilQuery rest
        .ok (withTail { scheme := scheme, path := .rootless (String.ofList (escapeSome "" body)) }
          (rest.drop body.length))
  | none, some base => readRelative base cs
  | none, none => .error .relativeWithoutBase

end HttpWorkflow.Url
