import HttpWorkflow.Script.Library.Reply
import HttpWorkflow.Text.Blank
import HttpWorkflow.Text.Case

/-! Functions on texts and characters. Positions count characters. -/

set_option autoImplicit false

namespace HttpWorkflow.Script.Library

/-- The position of the first occurrence of `part` at or after `from`. -/
def findFrom (part : List Char) : Nat → List Char → Option Nat
  | at_, [] => if part.isEmpty then some at_ else none
  | at_, c :: rest =>
    if part.isPrefixOf (c :: rest) then some at_ else findFrom part (at_ + 1) rest

def ofPosition (p : Option Nat) : Value :=
  match p with
  | some n => .int n
  | none => .int (-1)

/-- The pieces between separators. An empty separator stands before, after and between all
characters. -/
def split (s separator : String) : List String :=
  if separator.isEmpty then "" :: s.toList.map String.singleton ++ [""] else s.splitOn separator

def backwards (s : String) : String := String.ofList s.toList.reverse

/-- The pieces from the last to the first, with separators found from the end. -/
def splitBack (s separator : String) : List String :=
  (split (backwards s) (backwards separator)).map backwards

/-- At most `count` pieces: the last one keeps what is left, joined again. -/
def atMost (count : Int) (join : List String → String) (pieces : List String) : List String :=
  let whole := count.toNat - 1
  match pieces.drop whole with
  | [] => pieces
  | left => pieces.take whole ++ [join left]

def texts (pieces : List String) : Value := .array (pieces.map .text)

/-- Repeat a text until it has `length` characters, the last time in part. -/
def repeated (part : List Char) (length : Nat) : List Char :=
  if part.isEmpty then [] else
    (List.replicate (length / part.length + 1) part).flatten.take length

/-- The runs of characters that are not white space. -/
def words (cs : List Char) : List Value :=
  ((cs.splitOnP Text.isBlank).filter (!·.isEmpty)).map fun w => .text (String.ofList w)

def digitIn (base : Nat) (c : Char) : Option Nat :=
  let n := c.toNat
  let v := if 48 ≤ n ∧ n ≤ 57 then n - 48
    else if 65 ≤ n ∧ n ≤ 90 then n - 55
    else if 97 ≤ n ∧ n ≤ 122 then n - 87
    else base
  if v < base then some v else none

/-- An integer in a base, after at most one sign. -/
def parseInt (cs : List Char) (base : Nat) : Option Int := do
  let (negative, digits) := match cs with
    | '-' :: rest => (true, rest)
    | '+' :: rest => (false, rest)
    | rest => (false, rest)
  guard !digits.isEmpty
  let n ← digits.foldlM (fun n c => (digitIn base c).map (n * base + ·)) 0
  let value : Int := if negative then -n else n
  guard (Value.least ≤ value ∧ value ≤ Value.greatest)
  return value

/-- A decimal number: digits with a point and an exponent, both optional. -/
def parseFloat (cs : List Char) : Option Float := do
  let (negative, cs) := match cs with
    | '-' :: rest => (true, rest)
    | '+' :: rest => (false, rest)
    | rest => (false, rest)
  let whole := cs.takeWhile Char.isDigit
  let rest := cs.dropWhile Char.isDigit
  let (fraction, rest) := match rest with
    | '.' :: rest => (rest.takeWhile Char.isDigit, rest.dropWhile Char.isDigit)
    | rest => ([], rest)
  guard !(whole.isEmpty && fraction.isEmpty)
  let exponent ← match rest with
    | [] => some 0
    | 'e' :: rest | 'E' :: rest => parseInt rest 10
    | _ => none
  let x := Decimal.toFloat (Decimal.ofParts whole fraction exponent)
  return if negative then -x else x

def onText (name : String) (s : String) (rest : List Value) : Call :=
  let cs := s.toList
  let text (cs : List Char) : Value := .text (String.ofList cs)
  match name, rest with
  | "len", [] => give (.int cs.length)
  | "bytes", [] => give (.int s.utf8ByteSize)
  | "is_empty", [] => give (.bool s.isEmpty)
  | "to_upper", [] => give (.text (Text.toUpper s))
  | "to_lower", [] => give (.text (Text.toLower s))
  | "make_upper", [] => change (.text (Text.toUpper s)) .unit
  | "make_lower", [] => change (.text (Text.toLower s)) .unit
  | "trim", [] => change (text (Text.trim cs)) .unit
  | "clear", [] => change (.text "") .unit
  | "contains", [.text t] => give (.bool (findFrom t.toList 0 cs).isSome)
  | "contains", [.char c] => give (.bool (cs.contains c))
  | "starts_with", [.text t] => give (.bool (t.toList.isPrefixOf cs))
  | "ends_with", [.text t] => give (.bool (t.toList.isSuffixOf cs))
  | "index_of", [.text t] => give (ofPosition (findFrom t.toList 0 cs))
  | "index_of", [.char c] => give (ofPosition (findFrom [c] 0 cs))
  | "index_of", [.text t, .int i] =>
    let at_ := start cs.length i
    give (ofPosition (findFrom t.toList at_ (cs.drop at_)))
  | "index_of", [.char c, .int i] =>
    let at_ := start cs.length i
    give (ofPosition (findFrom [c] at_ (cs.drop at_)))
  | "sub_string", [.int i] => give (text (slice cs i cs.length))
  | "sub_string", [.int i, .int n] => give (text (slice cs i n))
  | "sub_string", [.range a b inclusive] =>
    let (i, n) := span a b inclusive
    give (text (slice cs i n))
  | "crop", [.int i] => change (text (slice cs i cs.length)) .unit
  | "crop", [.int i, .int n] => change (text (slice cs i n)) .unit
  | "crop", [.range a b inclusive] =>
    let (i, n) := span a b inclusive
    change (text (slice cs i n)) .unit
  | "replace", [.text a, .text b] => change (.text (s.replace a b)) .unit
  | "replace", [.text a, .char b] => change (.text (s.replace a (String.singleton b))) .unit
  | "replace", [.char a, .text b] => change (.text (s.replace (String.singleton a) b)) .unit
  | "replace", [.char a, .char b] =>
    change (text (cs.map fun c => if c = a then b else c)) .unit
  | "remove", [.text t] => change (.text (Operator.without s t)) .unit
  | "remove", [.char c] => change (text (cs.filter (· ≠ c))) .unit
  | "split", [] => give (.array (words cs))
  | "split", [.text t] => give (texts (split s t))
  | "split", [.char c] => give (texts (split s (String.singleton c)))
  | "split", [.text t, .int n] => give (texts (atMost n t.intercalate (split s t)))
  | "split", [.char c, .int n] =>
    let t := String.singleton c
    give (texts (atMost n t.intercalate (split s t)))
  | "split", [.int i] =>
    let at_ := start cs.length i
    give (.array [text (cs.take at_), text (cs.drop at_)])
  | "split_rev", [.text t] => give (texts (splitBack s t))
  | "split_rev", [.char c] => give (texts (splitBack s (String.singleton c)))
  | "split_rev", [.text t, .int n] =>
    give (texts (atMost n (fun left => t.intercalate left.reverse) (splitBack s t)))
  | "split_rev", [.char c, .int n] =>
    let t := String.singleton c
    give (texts (atMost n (fun left => t.intercalate left.reverse) (splitBack s t)))
  | "to_chars", [] => give (.array (cs.map .char))
  | "get", [.int i] =>
    give (((place? cs.length i).bind (cs[·]?)).elim .unit .char)
  | "set", [.int i, .char c] =>
    match place? cs.length i with
    | some i => change (text (cs.set i c)) .unit
    | none => give .unit
  | "pop", [] =>
    match cs.getLast? with
    | some c => change (text cs.dropLast) (.char c)
    | none => give .unit
  | "pop", [.int n] =>
    let kept := cs.length - n.toNat
    change (text (cs.take kept)) (text (cs.drop kept))
  | "truncate", [.int n] => change (text (cs.take n.toNat)) .unit
  | "pad", [.int n, .char c] =>
    if Value.maxText < n.toNat then refuse .dataTooLarge
    else change (text (cs ++ repeated [c] (n.toNat - cs.length))) .unit
  | "pad", [.int n, .text t] =>
    if Value.maxText < n.toNat then refuse .dataTooLarge
    else change (text (cs ++ repeated t.toList (n.toNat - cs.length))) .unit
  | "append", [v] => change (.text (s ++ v.display)) .unit
  | "parse_int", [] => orWrongType ((parseInt (Text.trim cs) 10).map .int)
  | "parse_int", [.int base] =>
    if 2 ≤ base ∧ base ≤ 36 then orWrongType ((parseInt (Text.trim cs) base.toNat).map .int)
    else refuse .badArgument
  | "parse_float", [] => orWrongType ((parseFloat (Text.trim cs)).map .float)
  | "max", [.text t] => give (.text (if t ≤ s then s else t))
  | "min", [.text t] => give (.text (if s ≤ t then s else t))
  | _, _ => none

def onChar (name : String) (c : Char) (rest : List Value) : Call :=
  match name, rest with
  | "to_upper", [] => give (.char ((Text.upper c).headD c))
  | "to_lower", [] => give (.char (Text.lower c))
  | "make_upper", [] => change (.char ((Text.upper c).headD c)) .unit
  | "make_lower", [] => change (.char (Text.lower c)) .unit
  | "to_int", [] => give (.int c.toNat)
  | "max", [.char d] => give (.char (if d ≤ c then c else d))
  | "min", [.char d] => give (.char (if c ≤ d then c else d))
  | _, _ => none

end HttpWorkflow.Script.Library
