import HttpWorkflow.Decimal.Notation
import HttpWorkflow.Json.Basic
import HttpWorkflow.Text.Percent

/-! Reading JSON text.

`Json.tree?` gives the tree as written, with repeated keys; `Json.parse?` gives the value. Integers
of 64 bits are exact. Any other number is scaled from its first digits that fit 64 bits by one
power of ten; one too large for a finite value is refused, and so is nesting beyond 127 levels.
-/

set_option autoImplicit false

namespace HttpWorkflow.Json

def isBlank (c : Char) : Bool := c = ' ' || c = '\n' || c = '\t' || c = '\r'

def skipBlanks (cs : List Char) : List Char := cs.dropWhile isBlank

def wordLimit : Nat := Nat.pow 2 64

/-- `significand * 10 ^ exponent`, rounded once by the conversion and once by each scaling; `none`
when it leaves the finite range. Beyond the greatest power of ten, division goes in two steps. -/
def scale (significand : Nat) (exponent : Int) : Option Float :=
  let power (n : Nat) : Float := Float.ofScientific 1 false n
  let start := significand.toUInt64.toFloat
  let finite (x : Float) : Option Float := if x.isInf then none else some x
  if start == 0 then some 0
  else if 308 < exponent then none
  else if 0 ≤ exponent then finite (start * power exponent.toNat)
  else if -308 ≤ exponent then some (start / power exponent.natAbs)
  else if -616 ≤ exponent then some (start / power 308 / power (exponent.natAbs - 308))
  else some 0

/-- The digits that fit 64 bits, and how many were left out. -/
def fitWord (start : Nat) : List Char → Nat × Nat
  | [] => (start, 0)
  | c :: rest =>
    let next := start * 10 + (c.toNat - 48)
    if next < wordLimit then fitWord next rest else (start, rest.length + 1)

/-- The number with these digits before and after its point, and this exponent if it has one. -/
def number? (negative : Bool) (whole fraction : List Char) (exponent : Option Int) : Option Json :=
  let signed (x : Float) : Float := if negative then -x else x
  let (head, dropped) := fitWord 0 whole
  if fraction.isEmpty && exponent.isNone then
    if dropped = 0 then
      if negative then
        if 0 < head && head ≤ Nat.pow 2 63 then some (int (-(head : Int)))
        else some (float (-head.toUInt64.toFloat))
      else some (int head)
    else (scale head dropped).map fun x => float (signed x)
  else
    let (significand, cut) := fitWord head fraction
    let power : Int := dropped - ((fraction.length - cut : Nat) : Int)
    (scale significand (power + exponent.getD 0)).map fun x => float (signed x)

def readSign : List Char → Bool × List Char
  | '-' :: rest => (true, rest)
  | rest => (false, rest)

/-- Exponents may have a plus sign, which other numbers may not. -/
def readExponentSign : List Char → Bool × List Char
  | '+' :: rest => (false, rest)
  | cs => readSign cs

def readExponent (cs : List Char) : Option (Int × List Char) :=
  let (negative, rest) := readExponentSign cs
  let digits := rest.takeWhile Char.isDigit
  if digits.isEmpty then none
  else
    let magnitude : Int := Decimal.natOfDigits digits
    some (if negative then -magnitude else magnitude, rest.dropWhile Char.isDigit)

/-- The digits after a point; none if there is no point. -/
def readFraction : List Char → Option (List Char × List Char)
  | '.' :: rest =>
    let digits := rest.takeWhile Char.isDigit
    if digits.isEmpty then none else some (digits, rest.dropWhile Char.isDigit)
  | rest => some ([], rest)

def readPower : List Char → Option (Option Int × List Char)
  | 'e' :: rest | 'E' :: rest => (readExponent rest).map fun (e, rest) => (some e, rest)
  | rest => some (none, rest)

def readNumber (cs : List Char) : Option (Json × List Char) := do
  let (negative, unsigned) := readSign cs
  let whole := unsigned.takeWhile Char.isDigit
  guard (!whole.isEmpty && (whole.length = 1 || whole.head? ≠ some '0'))
  let (fraction, rest) ← readFraction (unsigned.dropWhile Char.isDigit)
  let (exponent, rest) ← readPower rest
  let value ← number? negative whole fraction exponent
  return (value, rest)

/-- The value of four hexadecimal digits. -/
def hexWord : List Char → Option (Nat × List Char)
  | a :: b :: c :: d :: rest => do
    let digit (c : Char) : Option Nat := Percent.hexValue c.toNat
    return (((← digit a) * 16 + (← digit b)) * 256 + (← digit c) * 16 + (← digit d), rest)
  | _ => none

/-- The character that `\u` begins; the second half of a surrogate pair must follow the first. -/
def readUnicode (cs : List Char) : Option (Char × List Char) := do
  let (n, rest) ← hexWord cs
  if 0xD800 ≤ n ∧ n < 0xDC00 then
    match rest with
    | '\\' :: 'u' :: rest =>
      let (low, rest) ← hexWord rest
      guard (0xDC00 ≤ low ∧ low < 0xE000)
      return (Char.ofNat (0x10000 + (n - 0xD800) * 1024 + (low - 0xDC00)), rest)
    | _ => none
  else
    guard (¬(0xDC00 ≤ n ∧ n < 0xE000))
    return (Char.ofNat n, rest)

def simpleEscape : Char → Option Char
  | '"' => some '"'
  | '\\' => some '\\'
  | '/' => some '/'
  | 'b' => some (Char.ofNat 8)
  | 'f' => some (Char.ofNat 12)
  | 'n' => some '\n'
  | 'r' => some '\r'
  | 't' => some '\t'
  | _ => none

/-- The contents of a string after its opening quote, and what follows its closing quote. -/
def readString : Nat → List Char → Option (List Char × List Char)
  | 0, _ => none
  | fuel + 1, cs =>
    match cs with
    | [] => none
    | '"' :: rest => some ([], rest)
    | '\\' :: 'u' :: rest => do
      let (c, rest) ← readUnicode rest
      let (s, rest) ← readString fuel rest
      return (c :: s, rest)
    | '\\' :: e :: rest => do
      let c ← simpleEscape e
      let (s, rest) ← readString fuel rest
      return (c :: s, rest)
    | c :: rest => do
      guard (32 ≤ c.toNat ∧ c ≠ '\\')
      let (s, rest) ← readString fuel rest
      return (c :: s, rest)

def readWord (word : String) (value : Json) (cs : List Char) : Option (Json × List Char) :=
  if word.toList.isPrefixOf cs then some (value, cs.drop word.length) else none

mutual

/-- A value at the head of the text. `depth` is how many more levels may open, and `fuel` bounds
the number of calls, each of which reads a character or hands on to one that does. -/
def readValue : Nat → Nat → List Char → Option (Json × List Char)
  | 0, _, _ => none
  | fuel + 1, depth, cs =>
    match skipBlanks cs with
    | [] => none
    | '"' :: rest => do
      let (s, rest) ← readString (rest.length + 1) rest
      return (string (String.ofList s), rest)
    | '[' :: rest => do
      guard (0 < depth)
      let (items, rest) ← match skipBlanks rest with
        | ']' :: rest => some ([], rest)
        | rest => readItems fuel (depth - 1) rest
      return (array items, rest)
    | '{' :: rest => do
      guard (0 < depth)
      let (members, rest) ← match skipBlanks rest with
        | '}' :: rest => some ([], rest)
        | rest => readMembers fuel (depth - 1) rest
      return (object members, rest)
    | 'n' :: rest => readWord "null" null ('n' :: rest)
    | 't' :: rest => readWord "true" (bool true) ('t' :: rest)
    | 'f' :: rest => readWord "false" (bool false) ('f' :: rest)
    | rest => readNumber rest

def readItems : Nat → Nat → List Char → Option (List Json × List Char)
  | 0, _, _ => none
  | fuel + 1, depth, cs => do
    let (item, rest) ← readValue fuel depth cs
    match skipBlanks rest with
    | ',' :: rest =>
      let (items, rest) ← readItems fuel depth rest
      return (item :: items, rest)
    | ']' :: rest => return ([item], rest)
    | _ => none

def readMembers : Nat → Nat → List Char → Option (List (String × Json) × List Char)
  | 0, _, _ => none
  | fuel + 1, depth, cs =>
    match skipBlanks cs with
    | '"' :: rest => do
      let (key, rest) ← readString (rest.length + 1) rest
      match skipBlanks rest with
      | ':' :: rest =>
        let (value, rest) ← readValue fuel depth rest
        match skipBlanks rest with
        | ',' :: rest =>
          let (members, rest) ← readMembers fuel depth rest
          return ((String.ofList key, value) :: members, rest)
        | '}' :: rest => return ([(String.ofList key, value)], rest)
        | _ => none
      | _ => none
    | _ => none

end

def nestingLimit : Nat := 127

/-- The tree that a text writes, repeated keys included. -/
def tree? (text : String) : Option Json := do
  let cs := text.toList
  let (value, rest) ← readValue (2 * cs.length + 2) nestingLimit cs
  guard (skipBlanks rest).isEmpty
  return value

/-- The value that a text denotes. -/
def parse? (text : String) : Option Json := (tree? text).map collapse

end HttpWorkflow.Json
