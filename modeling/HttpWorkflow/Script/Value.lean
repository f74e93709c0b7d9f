import HttpWorkflow.Decimal.Notation
import HttpWorkflow.Json.Basic

/-! Values of the script language.

Integers are 64-bit words and kept in their range by every operation. Maps are sorted by key. A
function value names its function and holds the arguments that are bound already; `cell` stands
for a variable that closures share and is never seen by a script.
-/

set_option autoImplicit false

namespace HttpWorkflow.Script

inductive Value where
  | unit
  | bool (value : Bool)
  | int (value : Int)
  | float (value : Float)
  | char (value : Char)
  | text (value : String)
  | array (items : List Value)
  | map (entries : List (String × Value))
  | range (first last : Int) (inclusive : Bool)
  | series (start stop step : Int)
  | function (name : String) (bound : List Value)
  | cell (index : Nat)
  deriving Inhabited

/-- Why a script stops. -/
inductive Fault where
  | undefinedVariable (name : String)
  | undefinedFunction (name : String)
  | undefinedModule (name : String)
  | undefinedProperty (name : String)
  | unboundReceiver
  | wrongType
  | outOfBounds
  | overflow
  | divisionByZero
  | badArgument
  | constantChanged
  | tooManyOperations
  | callsTooDeep
  | dataTooLarge
  | thrown (value : Value)

/-- Limits on resources cannot be caught by a script. -/
def Fault.catchable : Fault → Bool
  | .tooManyOperations | .callsTooDeep | .dataTooLarge => false
  | _ => true

def Fault.message : Fault → String
  | .undefinedVariable name => "Variable not found: " ++ name
  | .undefinedFunction name => "Function not found: " ++ name
  | .undefinedModule name => "Module not found: " ++ name
  | .undefinedProperty name => "Unknown property: " ++ name
  | .unboundReceiver => "'this' not bound"
  | .wrongType => "Data type incorrect"
  | .outOfBounds => "Index out of bounds"
  | .overflow => "Arithmetic overflow"
  | .divisionByZero => "division by zero"
  | .badArgument => "Invalid argument"
  | .constantChanged => "Cannot modify constant"
  | .tooManyOperations => "Too many operations"
  | .callsTooDeep => "Stack overflow"
  | .dataTooLarge => "Data too large"
  | .thrown _ => "Runtime error"

namespace Value

def least : Int := -9223372036854775808

def greatest : Int := 9223372036854775807

/-- An integer that fits a word. -/
def word (n : Int) : Except Fault Value :=
  if least ≤ n ∧ n ≤ greatest then .ok (.int n) else .error .overflow

/-- An integer with its upper bits cut off. -/
def wrap (n : Int) : Value := .int (n.bmod (Nat.pow 2 64))

def typeName : Value → String
  | unit => "()"
  | bool _ => "bool"
  | int _ => "i64"
  | float _ => "f64"
  | char _ => "char"
  | text _ => "string"
  | array _ => "array"
  | map _ => "map"
  | range _ _ false => "range"
  | range _ _ true => "range="
  | series _ _ _ => "range"
  | function _ _ => "Fn"
  | cell _ => "shared"

/-- Numbers as text: positional between `1e-13` and `1e13`, zero without a sign. -/
def displayNotation : Decimal.Notation where
  plainFrom := -13
  plainBelow := 13
  exponentPlus := false
  tieUp := true
  signedZero := false
  nan := "NaN"
  infinity := "inf"

/-- Numbers inside arrays and maps: positional between `1e-5` and `1e16`. -/
def innerNotation : Decimal.Notation where
  plainFrom := -5
  plainBelow := 16
  exponentPlus := false
  tieUp := true
  signedZero := true
  nan := "NaN"
  infinity := "inf"

def displayFloat (x : Float) : String :=
  if x == 1e13 then "10000000000000.0" else if x == -1e13 then "-10000000000000.0"
  else displayNotation.render x

def hexDigits (n : Nat) : String := String.ofList (Nat.toDigits 16 n)

def quoteChar (mark c : Char) : String :=
  if c = mark then String.ofList ['\\', c]
  else if c = '\\' then "\\\\"
  else if c = '\n' then "\\n"
  else if c = '\r' then "\\r"
  else if c = '\t' then "\\t"
  else if c.toNat = 0 then "\\0"
  else if c.toNat < 32 ∨ (127 ≤ c.toNat ∧ c.toNat < 160) then
    "\\u" ++ "\x7b" ++ hexDigits c.toNat ++ "\x7d"
  else String.singleton c

def quoteText (s : String) : String :=
  "\"" ++ String.join (s.toList.map (quoteChar '"')) ++ "\""

def rangeText (first last : Int) (inclusive : Bool) : String :=
  toString first ++ (if inclusive then "..=" else "..") ++ toString last

mutual

/-- The text of a value inside an array or map. -/
def inspect : Value → String
  | unit => "()"
  | bool b => if b then "true" else "false"
  | int n => toString n
  | float x => innerNotation.render x
  | char c => "'" ++ quoteChar '\'' c ++ "'"
  | text s => quoteText s
  | array items => "[" ++ ", ".intercalate (inspectItems items) ++ "]"
  | map entries => "#" ++ "\x7b" ++ ", ".intercalate (inspectEntries entries) ++ "\x7d"
  | range first last inclusive => rangeText first last inclusive
  | series _ _ _ => "range"
  | function name _ => "Fn(" ++ name ++ ")"
  | cell _ => "shared"

def inspectItems : List Value → List String
  | [] => []
  | item :: rest => inspect item :: inspectItems rest

def inspectEntries : List (String × Value) → List String
  | [] => []
  | (k, v) :: rest => (quoteText k ++ ": " ++ inspect v) :: inspectEntries rest

end

/-- The text of a value on its own: nothing for unit, texts and characters without quotes. -/
def display : Value → String
  | unit => ""
  | char c => String.singleton c
  | text s => s
  | float x => displayFloat x
  | other => inspect other

/-- Put an entry into a map sorted by key. -/
def insertEntry (entries : List (String × Value)) (key : String) (value : Value) :
    List (String × Value) :=
  match entries with
  | [] => [(key, value)]
  | (k, v) :: rest =>
    if k = key then (k, value) :: rest
    else if key < k then (key, value) :: (k, v) :: rest
    else (k, v) :: insertEntry rest key value

mutual

/-- Items of arrays and entries of maps in a value, and the octets of its texts. -/
def sizes : Value → Nat × Nat × Nat
  | text s => (0, 0, s.utf8ByteSize)
  | array items =>
    let inner := sizesOfItems items
    (items.length + inner.1, inner.2.1, inner.2.2)
  | map entries =>
    let inner := sizesOfEntries entries
    (inner.1, entries.length + inner.2.1, inner.2.2)
  | _ => (0, 0, 0)

def sizesOfItems : List Value → Nat × Nat × Nat
  | [] => (0, 0, 0)
  | item :: rest =>
    let a := sizes item
    let b := sizesOfItems rest
    (a.1 + b.1, a.2.1 + b.2.1, a.2.2 + b.2.2)

def sizesOfEntries : List (String × Value) → Nat × Nat × Nat
  | [] => (0, 0, 0)
  | (_, v) :: rest =>
    let a := sizes v
    let b := sizesOfEntries rest
    (a.1 + b.1, a.2.1 + b.2.1, a.2.2 + b.2.2)

end

def maxText : Nat := 1048576

def maxItems : Nat := 10000

/-- Whether a value stays within the limits on data. -/
def fits (v : Value) : Bool :=
  let (items, entries, octets) := sizes v
  items ≤ maxItems && entries ≤ maxItems && octets ≤ maxText

mutual

/-- A JSON value in a script. Integers beyond a signed word become floating point numbers. -/
def ofJson : Json → Value
  | .null => unit
  | .bool b => bool b
  | .int n => if n ≤ greatest then int n else float n.toNat.toUInt64.toFloat
  | .float x => float x
  | .string s => text s
  | .array items => array (ofItems items)
  | .object members => map (ofMembers members)

def ofItems : List Json → List Value
  | [] => []
  | item :: rest => ofJson item :: ofItems rest

def ofMembers : List (String × Json) → List (String × Value)
  | [] => []
  | (k, v) :: rest => insertEntry (ofMembers rest) k (ofJson v)

end

mutual

/-- The JSON value of a result, if it has one. Infinities and NaN are null. -/
def toJson? : Value → Option Json
  | unit => some .null
  | bool b => some (.bool b)
  | int n => some (.int n)
  | float x => some (if x.isFinite then .float x else .null)
  | char c => some (.string (String.singleton c))
  | text s => some (.string s)
  | array items => (toItems? items).map .array
  | map entries => (toMembers? entries).map .object
  | _ => none

def toItems? : List Value → Option (List Json)
  | [] => some []
  | item :: rest => do return (← toJson? item) :: (← toItems? rest)

def toMembers? : List (String × Value) → Option (List (String × Json))
  | [] => some []
  | (k, v) :: rest => do return (k, ← toJson? v) :: (← toMembers? rest)

end

end Value

end HttpWorkflow.Script
