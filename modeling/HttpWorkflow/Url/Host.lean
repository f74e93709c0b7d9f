import HttpWorkflow.Url.Basic

/-! Hosts, as they are read from the text of a URL. -/

set_option autoImplicit false

namespace HttpWorkflow.Host

/-- A number in base sixteen after `0x`, eight after `0`, and else ten. -/
def number? (cs : List Char) : Option Nat :=
  let digits (base : Nat) (cs : List Char) : Option Nat :=
    (cs.mapM fun c => (Percent.hexValue c.toNat).filter (· < base)).map fun ds =>
      ds.foldl (fun n d => n * base + d) 0
  match cs with
  | [] => none
  | '0' :: 'x' :: rest | '0' :: 'X' :: rest => digits 16 rest
  | '0' :: second :: rest => digits 8 (second :: rest)
  | cs => digits 10 cs

/-- The parts between points, without an empty one at the end. -/
def parts (cs : List Char) : List (List Char) :=
  let all := cs.splitOnP (· = '.')
  if 1 < all.length && all.getLast? = some [] then all.dropLast else all

/-- Names that end in a number are addresses. -/
def endsInNumber (cs : List Char) : Bool :=
  match (parts cs).getLast? with
  | none | some [] => false
  | some last => last.all Char.isDigit
    || (number? last).isSome && (last.take 2 = ['0', 'x'] || last.take 2 = ['0', 'X'])

/-- An address of up to four numbers, of which the last fills what the others leave. -/
def ipv4? (cs : List Char) : Option Nat := do
  let ps := parts cs
  guard (ps.length ≤ 4)
  let ns ← ps.mapM number?
  let (front, last) ← match ns.getLast? with
    | some last => some (ns.dropLast, last)
    | none => none
  guard (front.all (· ≤ 255))
  guard (last < Nat.pow 256 (5 - ns.length))
  return front.zipIdx.foldl (fun n (d, i) => n + d * Nat.pow 256 (3 - i)) last

/-- Pieces of up to four hexadecimal digits between colons; an address of the older kind may stand
for the last two. -/
def pieces? (cs : List Char) : Option (List Nat) :=
  if cs.isEmpty then some []
  else
    let texts := cs.splitOnP (· = ':')
    let piece (t : List Char) : Option Nat := do
      guard (!t.isEmpty && t.length ≤ 4)
      return (← t.mapM fun c => Percent.hexValue c.toNat).foldl (fun n d => n * 16 + d) 0
    match texts.getLast? with
    | some last =>
      if last.contains '.' then do
        let front ← texts.dropLast.mapM piece
        let octets := last.splitOnP (· = '.')
        guard (octets.length = 4)
        let ns ← octets.mapM fun o => do
          guard (!o.isEmpty && o.all Char.isDigit && (o.length = 1 || o.head? ≠ some '0'))
          number? o
        guard (ns.all (· ≤ 255))
        match ns with
        | [a, b, c, d] => return front ++ [a * 256 + b, c * 256 + d]
        | _ => none
      else texts.mapM piece
    | none => none

/-- The text before and after the first pair of colons. -/
def splitAtColons : List Char → Option (List Char × List Char)
  | ':' :: ':' :: rest => some ([], rest)
  | c :: rest => (splitAtColons rest).map fun (before, after) => (c :: before, after)
  | [] => none

def ipv6? (cs : List Char) : Option (List Nat) := do
  match splitAtColons cs with
  | some (before, after) =>
    guard (!before.contains '.')
    let front ← pieces? before
    let back ← pieces? after
    guard (front.length + back.length < 8)
    return front ++ List.replicate (8 - front.length - back.length) 0 ++ back
  | none =>
    let all ← pieces? cs
    guard (all.length = 8)
    return all

/-- Characters that no name of a host holds. -/
def isForbidden (c : Char) : Bool :=
  c.toNat ≤ 32 || c.toNat = 127 || "#/:<>?@[\\]^|%".toList.contains c

/-- The host of a URL whose scheme has hosts with names. -/
def parse (cs : List Char) : Except UrlError Host :=
  match cs with
  | '[' :: rest =>
    if rest.getLast? = some ']' then
      match ipv6? rest.dropLast with
      | some pieces => .ok (.ipv6 pieces)
      | none => .error .invalidIpv6
    else .error .invalidIpv6
  | cs =>
    match Utf8.decode (Percent.decode (Utf8.encode cs)) with
    | none => .error .invalidDomain
    | some decoded =>
      let name := decoded.map Char.toLower
      if name.any isForbidden then .error .invalidDomain
      else if name.isEmpty then .error .emptyHost
      else if endsInNumber name then
        match ipv4? name with
        | some address => .ok (.ipv4 address)
        | none => .error .invalidIpv4
      else .ok (.domain (String.ofList name))

/-- Characters that no host holds, whatever the scheme. -/
def isBarred (c : Char) : Bool := "\x00\t\n\r #/:<>?@[\\]^|".toList.contains c

/-- The host of a URL with any other scheme, whose name is kept with its escapes. -/
def parseKept (cs : List Char) : Except UrlError Host :=
  match cs with
  | '[' :: _ => parse cs
  | cs =>
    if cs.any isBarred then .error .invalidCharacter
    else .ok (.domain (String.ofList (cs.flatMap fun c =>
      if c.toNat < 32 || 126 < c.toNat then Percent.escapeChar c else [c])))

end HttpWorkflow.Host
