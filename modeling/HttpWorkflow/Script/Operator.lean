import HttpWorkflow.Decimal.Remainder
import HttpWorkflow.Script.Value

/-! Operators on values.

An operator is defined for some pairs of kinds; `none` says that it is not. Integer arithmetic is
checked. Floating point values compare up to a relative tolerance of one unit in the last place.
-/

set_option autoImplicit false

namespace HttpWorkflow.Script

/-- The answer of an operator or function for its operands, if it is defined for them. -/
abbrev Answer := Option (Except Fault Value)

namespace Operator

def give (v : Value) : Answer := some (.ok v)

def refuse (f : Fault) : Answer := some (.error f)

def ofInt (n : Int) : Answer := some (Value.word n)

def shiftLeft (x : Int) (n : Nat) : Value := if 64 ≤ n then .int 0 else Value.wrap (x * Nat.pow 2 n)

def shiftRight (x : Int) (n : Nat) : Value :=
  if 64 ≤ n then .int (if x < 0 then -1 else 0) else .int (x / Nat.pow 2 n)

/-- A bit operation on two words. -/
def bitwise (f : Nat → Nat → Nat) (x y : Int) : Value :=
  let low (n : Int) : Nat := (n % Nat.pow 2 64).toNat
  Value.wrap (f (low x) (low y))

def epsilon : Float := Float.ofBits 0x3CB0000000000000

/-- The magnitude that the difference of two values is compared with. -/
def extent (x y : Float) : Float := (if x * x > y * y then x else y).abs

def floatEq (x y : Float) : Bool := let m := extent x y; m == 0 || (x - y).abs / m ≤ epsilon

def floatNe (x y : Float) : Bool := let m := extent x y; !(m == 0) && (x - y).abs / m > epsilon

def floatGt (x y : Float) : Bool := let m := extent x y; !(m == 0) && (x - y) / m > epsilon

def floatGe (x y : Float) : Bool := let m := extent x y; m == 0 || (x - y) / m > -epsilon

def onInts (op : String) (x y : Int) : Answer :=
  match op with
  | "+" => ofInt (x + y)
  | "-" => ofInt (x - y)
  | "*" => ofInt (x * y)
  | "/" =>
    if y = 0 then refuse .divisionByZero else give (.float (Float.ofInt x / Float.ofInt y))
  | "%" =>
    if y = 0 then refuse .divisionByZero
    else if x = Value.least ∧ y = -1 then refuse .overflow else ofInt (x.tmod y)
  | "**" =>
    if y < 0 then refuse .badArgument
    else if (x = 0 ∨ x = 1 ∨ x = -1) then
      give (.int (if y = 0 then 1 else if x = -1 ∧ y % 2 = 0 then 1 else x))
    else if 64 < y then refuse .overflow else ofInt (Int.pow x y.toNat)
  | "<<" => give (if y < 0 then shiftRight x y.natAbs else shiftLeft x y.natAbs)
  | ">>" => give (if y < 0 then shiftLeft x y.natAbs else shiftRight x y.natAbs)
  | "&" => give (bitwise Nat.land x y)
  | "|" => give (bitwise Nat.lor x y)
  | "^" => give (bitwise Nat.xor x y)
  | "==" => give (.bool (x = y))
  | "!=" => give (.bool (x ≠ y))
  | "<" => give (.bool (x < y))
  | "<=" => give (.bool (x ≤ y))
  | ">" => give (.bool (y < x))
  | ">=" => give (.bool (y ≤ x))
  | ".." => give (.range x y false)
  | "..=" => give (.range x y true)
  | _ => none

def onFloats (op : String) (x y : Float) : Answer :=
  match op with
  | "+" => give (.float (x + y))
  | "-" => give (.float (x - y))
  | "*" => give (.float (x * y))
  | "/" => give (.float (x / y))
  | "%" => give (.float (Decimal.remainder x y))
  | "**" => give (.float (x.pow y))
  | "==" => give (.bool (floatEq x y))
  | "!=" => give (.bool (floatNe x y))
  | "<" => give (.bool (floatGt y x))
  | "<=" => give (.bool (floatGe y x))
  | ">" => give (.bool (floatGt x y))
  | ">=" => give (.bool (floatGe x y))
  | _ => none

def onBools (op : String) (x y : Bool) : Answer :=
  match op with
  | "&" => give (.bool (x && y))
  | "|" => give (.bool (x || y))
  | "^" => give (.bool (x != y))
  | "==" => give (.bool (x == y))
  | "!=" => give (.bool (x != y))
  | "<" => give (.bool (!x && y))
  | "<=" => give (.bool (!x || y))
  | ">" => give (.bool (x && !y))
  | ">=" => give (.bool (x || !y))
  | _ => none

/-- The text without any occurrence of another one, taken from left to right. -/
def without (s part : String) : String := if part.isEmpty then s else s.replace part ""

def compareTexts (op : String) (x y : String) : Answer :=
  match op with
  | "==" => give (.bool (x == y))
  | "!=" => give (.bool (x != y))
  | "<" => give (.bool (x < y))
  | "<=" => give (.bool (x ≤ y))
  | ">" => give (.bool (y < x))
  | ">=" => give (.bool (y ≤ x))
  | _ => none

def onTexts (op : String) (x y : String) : Answer :=
  match op with
  | "+" => give (.text (x ++ y))
  | "-" => give (.text (without x y))
  | _ => compareTexts op x y

mutual

/-- Whether two values are equal. Values of different kinds are not, save numbers and texts with
characters; functions cannot be compared with each other. -/
def equal? : Value → Value → Option Bool
  | .unit, .unit => some true
  | .bool x, .bool y => some (x == y)
  | .int x, .int y => some (x == y)
  | .float x, .float y => some (floatEq x y)
  | .int x, .float y => some (floatEq (Float.ofInt x) y)
  | .float x, .int y => some (floatEq x (Float.ofInt y))
  | .char x, .char y => some (x == y)
  | .text x, .text y => some (x == y)
  | .char x, .text y => some (String.singleton x == y)
  | .text x, .char y => some (x == String.singleton y)
  | .array x, .array y => equalItems? x y
  | .map x, .map y => equalEntries? x y
  | .range a b i, .range c d j => some (a == c && b == d && i == j)
  | .function _ _, .function _ _ => none
  | _, _ => some false

def equalItems? : List Value → List Value → Option Bool
  | [], [] => some true
  | x :: xs, y :: ys => do if ← equal? x y then equalItems? xs ys else some false
  | _, _ => some false

def equalEntries? : List (String × Value) → List (String × Value) → Option Bool
  | [], [] => some true
  | (k, x) :: xs, (l, y) :: ys => do
    if k == l && (← equal? x y) then equalEntries? xs ys else some false
  | _, _ => some false

end

def isOrder (op : String) : Bool := op == "<" || op == "<=" || op == ">" || op == ">="

/-- An operator with two operands. Text joins with anything on either side. -/
def binary (op : String) (x y : Value) : Answer :=
  match x, y with
  | .int x, .int y => onInts op x y
  | .float x, .float y => onFloats op x y
  | .int x, .float y => onFloats op (Float.ofInt x) y
  | .float x, .int y =>
    if op == "**" then give (.float (Decimal.power x y)) else onFloats op x (Float.ofInt y)
  | .bool x, .bool y => onBools op x y
  | .text x, .text y => onTexts op x y
  | .text x, .char y => onTexts op x (String.singleton y)
  | .char x, .text y => onTexts op (String.singleton x) y
  | .char x, .char y => onTexts op (String.singleton x) (String.singleton y)
  | .unit, .unit =>
    if op == "==" || op == ">=" || op == "<=" then give (.bool true)
    else if op == "!=" || op == "<" || op == ">" then give (.bool false) else none
  | .array x, .array y =>
    if op == "+" then give (.array (x ++ y)) else equality (equalItems? x y)
  | .map x, .map y =>
    if op == "+" then give (.map (y.foldl (fun m e => Value.insertEntry m e.1 e.2) x))
    else equality (equalEntries? x y)
  | .range .., .range .. => equality (equal? x y)
  | .function .., .function .. => none
  | .text x, y => if op == "+" then give (.text (x ++ y.display)) else unequal
  | x, .text y => if op == "+" then give (.text (x.display ++ y)) else unequal
  | _, _ => unequal
where
  equality (answer : Option Bool) : Answer :=
    match op, answer with
    | "==", some b => give (.bool b)
    | "!=", some b => give (.bool !b)
    | _, _ => none
  unequal : Answer :=
    if op == "!=" then give (.bool true)
    else if op == "==" || isOrder op then give (.bool false) else none

def unary (op : String) (x : Value) : Answer :=
  match op, x with
  | "-", .int n => ofInt (-n)
  | "-", .float x => give (.float (-x))
  | "+", .int n => give (.int n)
  | "+", .float x => give (.float x)
  | "!", .bool b => give (.bool !b)
  | _, _ => none

end Operator

end HttpWorkflow.Script
