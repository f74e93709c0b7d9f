import HttpWorkflow.Decimal.Notation
import HttpWorkflow.Document.Data
import HttpWorkflow.Text.Percent

/-! What scalars without quotes stand for.

Nothing at all and the words for null are null, then come flags, integers with base ten, sixteen,
eight or two, decimal fractions, infinities and NaN. Everything else is a text, also digits after
a leading zero.
-/

set_option autoImplicit false

namespace HttpWorkflow.Document

/-- The kinds of scalars. Integers that fit no word of 64 bits are numbers of no use to a field. -/
inductive Scalar where
  | null
  | flag (value : Bool)
  | int (value : Int)
  | wide
  | float (value : Float)
  | text (value : String)

namespace Scalar

def digitValue? (base : Nat) (c : Char) : Option Nat :=
  (Percent.hexValue c.toNat).filter (· < base)

/-- A number of digits in a base; at least one is due. -/
def natural? (base : Nat) (cs : List Char) : Option Nat :=
  if cs.isEmpty then none
  else (cs.mapM (digitValue? base)).map fun ds => ds.foldl (fun n d => n * base + d) 0

/-- Digits after a leading zero, which stay a text. -/
def isPaddedDigits (cs : List Char) : Bool :=
  let digits := match cs with
    | '-' :: rest | '+' :: rest => rest
    | cs => cs
  match digits with
  | '0' :: second :: rest => (second :: rest).all Char.isDigit
  | _ => false

/-- The digits of an unsigned number with their base. -/
def based (cs : List Char) : Option Nat :=
  match cs with
  | '0' :: 'x' :: rest => natural? 16 rest
  | '0' :: 'o' :: rest => natural? 8 rest
  | '0' :: 'b' :: rest => natural? 2 rest
  | cs => natural? 10 cs

def wholeNumber? (cs : List Char) : Option Int :=
  if isPaddedDigits cs then none
  else match cs with
    | '-' :: rest => (based rest).map fun n => -(n : Int)
    | '+' :: rest => (based rest).map Int.ofNat
    | cs => (based cs).map Int.ofNat

/-- A whole number as a scalar; beyond 128 bits it is none. -/
def ofInt? (n : Int) : Option Scalar :=
  if -(Nat.pow 2 63) ≤ n ∧ n < Nat.pow 2 64 then some (int n)
  else if -(Nat.pow 2 127) ≤ n ∧ n < Nat.pow 2 128 then some wide
  else none

/-- The digits of an exponent, with a sign or not. -/
def exponent? (cs : List Char) : Option Int :=
  match cs with
  | '-' :: rest => (natural? 10 rest).map fun n => -(n : Int)
  | '+' :: rest => (natural? 10 rest).map Int.ofNat
  | cs => (natural? 10 cs).map Int.ofNat

/-- A finite decimal fraction. A point may have digits on one side only. -/
def fraction? (cs : List Char) : Option Float := do
  let (negative, cs) := match cs with
    | '-' :: rest => (true, rest)
    | cs => (false, cs)
  let isMark (c : Char) : Bool := c = 'e' || c = 'E'
  let mantissa := cs.takeWhile (!isMark ·)
  let whole := mantissa.takeWhile (· ≠ '.')
  let fraction := (mantissa.dropWhile (· ≠ '.')).drop 1
  guard (whole.all Char.isDigit && fraction.all Char.isDigit)
  guard !(whole.isEmpty && fraction.isEmpty)
  let exponent ← match cs.dropWhile (!isMark ·) with
    | [] => some 0
    | _ :: rest => exponent? rest
  let x := (Decimal.ofParts whole fraction exponent).toFloat
  guard x.isFinite
  return if negative then -x else x

def isInfinityWord (cs : List Char) : Bool :=
  cs == ".inf".toList || cs == ".Inf".toList || cs == ".INF".toList

def float? (cs : List Char) : Option Float :=
  let unsigned? : Option (List Char) := match cs with
    | '+' :: '-' :: _ | '+' :: '+' :: _ => none
    | '+' :: rest => some rest
    | cs => some cs
  match unsigned? with
  | none => none
  | some rest =>
    if isInfinityWord rest then some (1 / 0)
    else if cs.head? = some '-' && isInfinityWord (cs.drop 1) then some (-1 / 0)
    else if [".nan", ".NaN", ".NAN"].contains (String.ofList cs) then some (0 / 0)
    else fraction? rest

/-- The kind of a scalar without quotes. -/
def ofPlain (s : String) : Scalar :=
  let cs := s.toList
  if s.isEmpty || Data.isNullWord s then null
  else match Data.flagWord? s with
    | some b => flag b
    | none =>
      match (wholeNumber? cs).bind ofInt? with
      | some n => n
      | none =>
        if isPaddedDigits cs then text s
        else match float? cs with
          | some x => float x
          | none => text s

def flagTag : String := "tag:yaml.org,2002:bool"

def intTag : String := "tag:yaml.org,2002:int"

def floatTag : String := "tag:yaml.org,2002:float"

/-- A scalar with a tag. Tags for null, flags and numbers ask for a scalar of that kind, tags of
the document's own have no meaning, and any other tag marks a text. -/
def ofTagged? (tag s : String) : Option Scalar :=
  if tag == flagTag then (Data.flagWord? s).map flag
  else if tag == intTag then (wholeNumber? s.toList).bind ofInt?
  else if tag == floatTag then (float? s.toList).map float
  else if tag == Data.nullTag then if Data.isNullWord s then some null else none
  else if tag.startsWith "!" then none
  else some (text s)

/-- The JSON value of a scalar. Infinities and NaN are null. -/
def toJson? : Scalar → Option Json
  | null => some .null
  | flag b => some (.bool b)
  | int n => some (.int n)
  | wide => none
  | float x => some (if x.isFinite then .float x else .null)
  | text s => some (.string s)

end Scalar

namespace Data

def scalar? : Data → Option Scalar
  | null => some .null
  | flag b => some (.flag b)
  | int n => some (.int n)
  | float x => some (.float x)
  | text s => some (.text s)
  | plain s => some (.ofPlain s)
  | tagged tag (text s) | tagged tag (plain s) => Scalar.ofTagged? tag s
  | _ => none

/-- The text of a key that must be a text by its form too. -/
def strictText? (d : Data) : Option String :=
  match d.scalar? with
  | some (.text s) => some s
  | _ => none

mutual

/-- The JSON value of a tree. Keys may be any scalars, unless they are to be `strict`. -/
def toJson? (strict : Bool) : Data → Option Json
  | list items => (toItems? strict items).map .array
  | map entries => (toMembers? strict entries).map fun ms => .object (insertMembers [] ms)
  | tagged tag (list items) =>
    if tag.startsWith "!" then none else (toItems? strict items).map .array
  | tagged tag (map entries) =>
    if tag.startsWith "!" then none
    else (toMembers? strict entries).map fun ms => .object (insertMembers [] ms)
  | d => d.scalar?.bind Scalar.toJson?

def toItems? (strict : Bool) : List Data → Option (List Json)
  | [] => some []
  | item :: rest => do return (← toJson? strict item) :: (← toItems? strict rest)

def toMembers? (strict : Bool) : List (Data × Data) → Option Members
  | [] => some []
  | (k, v) :: rest => do
    let key ← if strict then k.strictText? else k.text?
    return (key, ← toJson? strict v) :: (← toMembers? strict rest)

end

end Data

end HttpWorkflow.Document
