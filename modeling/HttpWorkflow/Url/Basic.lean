import HttpWorkflow.Text.Percent

/-! URLs in their parts, and their text. -/

set_option autoImplicit false

namespace HttpWorkflow

inductive Host where
  | domain (name : String)
  | ipv4 (address : Nat)
  /-- Eight pieces of 16 bits. -/
  | ipv6 (pieces : List Nat)
  deriving DecidableEq, Repr

/-- Why a text is no URL. -/
inductive UrlError where
  | relativeWithoutBase
  | relativeToRootless
  | emptyHost
  | invalidDomain
  | invalidCharacter
  | invalidIpv4
  | invalidIpv6
  | invalidPort
  deriving DecidableEq, Repr

def UrlError.message : UrlError → String
  | relativeWithoutBase => "relative URL without a base"
  | relativeToRootless => "relative URL with a cannot-be-a-base base"
  | emptyHost => "empty host"
  | invalidDomain => "invalid international domain name"
  | invalidCharacter => "invalid domain character"
  | invalidIpv4 => "invalid IPv4 address"
  | invalidIpv6 => "invalid IPv6 address"
  | invalidPort => "invalid port number"

/-- The path after an authority or a slash in segments, or any other text after the scheme. -/
inductive UrlPath where
  | segments (names : List String)
  | rootless (text : String)
  deriving DecidableEq, Repr

structure Url where
  scheme : String
  username : String := ""
  password : String := ""
  host : Option Host := none
  port : Option Nat := none
  path : UrlPath := .segments []
  query : Option String := none
  fragment : Option String := none
  deriving DecidableEq, Repr

namespace Host

def ipv4Text (address : Nat) : String :=
  ".".intercalate ([3, 2, 1, 0].map fun i => toString (address / Nat.pow 256 i % 256))

/-- Where the first of the longest runs of two or more zeros begins, and its length. -/
def longestZeros (pieces : List Nat) : Option (Nat × Nat) :=
  let runs := (List.range pieces.length).map fun i =>
    (i, ((pieces.drop i).takeWhile (· = 0)).length)
  let longest := runs.foldl (fun best run => if best.2 < run.2 then run else best) (0, 0)
  if 2 ≤ longest.2 then some longest else none

def pieceTexts (pieces : List Nat) : String :=
  ":".intercalate (pieces.map fun n => String.ofList (Nat.toDigits 16 n))

def ipv6Text (pieces : List Nat) : String :=
  match longestZeros pieces with
  | some (i, n) => pieceTexts (pieces.take i) ++ "::" ++ pieceTexts (pieces.drop (i + n))
  | none => pieceTexts pieces

def text : Host → String
  | domain name => name
  | ipv4 address => ipv4Text address
  | ipv6 pieces => "[" ++ ipv6Text pieces ++ "]"

end Host

namespace Url

def isSpecialScheme (scheme : String) : Bool :=
  ["http", "https", "ws", "wss", "ftp", "file"].contains scheme

def isSpecial (u : Url) : Bool := isSpecialScheme u.scheme

def defaultPort? (scheme : String) : Option Nat :=
  match scheme with
  | "http" | "ws" => some 80
  | "https" | "wss" => some 443
  | "ftp" => some 21
  | _ => none

def pathText (u : Url) : String :=
  match u.path with
  | .segments names => String.join (names.map ("/" ++ ·))
  | .rootless text => text

/-- The path and the query, as they go to a server. -/
def target (u : Url) : String :=
  u.pathText ++ match u.query with
    | some q => "?" ++ q
    | none => ""

def userinfo (u : Url) : String :=
  if u.username.isEmpty && u.password.isEmpty then ""
  else u.username ++ (if u.password.isEmpty then "" else ":" ++ u.password) ++ "@"

def text (u : Url) : String :=
  u.scheme ++ ":"
    ++ (match u.host with
      | some h => "//" ++ u.userinfo ++ h.text ++ (match u.port with
        | some n => ":" ++ toString n
        | none => "")
      | none => if u.pathText.startsWith "//" then "/." else "")
    ++ u.target
    ++ match u.fragment with
      | some f => "#" ++ f
      | none => ""

end Url

end HttpWorkflow
