import HttpWorkflow.Script.Library.Reply

/-! Functions on numbers. -/

set_option autoImplicit false

namespace HttpWorkflow.Script.Library

def sign (x : Float) : Int := if x > 0 then 1 else if x < 0 then -1 else 0

def pi : Float := 3.141592653589793

def truncate (x : Float) : Float := if x < 0 then x.ceil else x.floor

/-- The whole part of a floating point value in the range of words. What is not a number is
zero. -/
def toWord (x : Float) : Call :=
  if x > 9223372036854775808.0 || x < -9223372036854775808.0 then refuse .overflow
  else if x.isNaN then give (.int 0)
  else
    let t := truncate x
    let (m, e) := Decimal.magnitude t
    let n : Int := ((if 0 ≤ e then m * Nat.pow 2 e.toNat else m / Nat.pow 2 (-e).toNat : Nat) : Int)
    give (.int (min Value.greatest (if t < 0 then -n else n)))

/-- Digits of a word in a base that is a power of two; negative words by their bits. -/
def inBase (base : Nat) (n : Int) : Value :=
  .text (String.ofList (Nat.toDigits base (n % Nat.pow 2 64).toNat))

/-- The bits of a word that a range selects, as a number. Bit 63 is the sign. -/
def bits? (n first last : Int) (inclusive : Bool) : Option Int := do
  guard (0 ≤ first ∧ first < 64 ∧ 0 ≤ last ∧ last < 64)
  let width := (last - first + (if inclusive then 1 else 0)).toNat
  let shifted := n / Nat.pow 2 first.toNat
  return if first.toNat + width = 64 then shifted else shifted % Nat.pow 2 width

def onInt (name : String) (n : Int) (rest : List Value) : Call :=
  match name, rest with
  | "abs", [] => ofAnswer (Operator.ofInt n.natAbs)
  | "sign", [] => give (.int n.sign)
  | "is_odd", [] => give (.bool (n % 2 = 1))
  | "is_even", [] => give (.bool (n % 2 = 0))
  | "is_zero", [] => give (.bool (n = 0))
  | "to_float", [] => give (.float (Float.ofInt n))
  | "to_int", [] => give (.int n)
  | "sleep", [] => give .unit
  | "to_hex", [] => give (inBase 16 n)
  | "to_octal", [] => give (inBase 8 n)
  | "to_binary", [] => give (inBase 2 n)
  | "max", [.int m] => give (.int (max n m))
  | "min", [.int m] => give (.int (min n m))
  | "max", [.float y] =>
    let x := Float.ofInt n
    give (.float (if x ≥ y then x else y))
  | "min", [.float y] =>
    let x := Float.ofInt n
    give (.float (if x ≤ y then x else y))
  | "range", [.int stop] => give (.range n stop false)
  | "range", [.int stop, .int step] =>
    if step = 0 then refuse .badArgument else give (.series n stop step)
  | "get_bit", [.int i] =>
    match place? 64 i with
    | some i => give (.bool ((n / Nat.pow 2 i) % 2 = 1))
    | none => refuse .outOfBounds
  | _, _ => none

def onFloat (name : String) (x : Float) (rest : List Value) : Call :=
  let real (y : Float) : Call := give (.float y)
  match name, rest with
  | "abs", [] => real x.abs
  | "sign", [] => if x.isNaN then refuse .badArgument else give (.int (sign x))
  | "is_zero", [] => give (.bool (x == 0))
  | "is_nan", [] => give (.bool x.isNaN)
  | "is_finite", [] => give (.bool x.isFinite)
  | "is_infinite", [] => give (.bool x.isInf)
  | "sleep", [] => give .unit
  | "floor", [] => real x.floor
  | "ceiling", [] => real x.ceil
  | "round", [] => real x.round
  | "int", [] => real (truncate x)
  | "fraction", [] => real (x - truncate x)
  | "to_int", [] => toWord x
  | "to_float", [] => real x
  | "sqrt", [] => real x.sqrt
  | "exp", [] => real x.exp
  | "ln", [] => real x.log
  | "log", [] => real x.log10
  | "log", [.float base] => real (x.log / base.log)
  | "sin", [] => real x.sin
  | "cos", [] => real x.cos
  | "tan", [] => real x.tan
  | "asin", [] => real x.asin
  | "acos", [] => real x.acos
  | "atan", [] => real x.atan
  | "sinh", [] => real x.sinh
  | "cosh", [] => real x.cosh
  | "tanh", [] => real x.tanh
  | "asinh", [] => real x.asinh
  | "acosh", [] => real x.acosh
  | "atanh", [] => real x.atanh
  | "to_degrees", [] => real (x * (180 / pi))
  | "to_radians", [] => real (x * (pi / 180))
  | "atan", [.float y] => real (x.atan2 y)
  | "hypot", [.float y] => real (x * x + y * y).sqrt
  | "max", [.float y] => real (if x ≥ y then x else y)
  | "min", [.float y] => real (if x ≤ y then x else y)
  | "max", [.int m] =>
    let y := Float.ofInt m
    real (if x ≥ y then x else y)
  | "min", [.int m] =>
    let y := Float.ofInt m
    real (if x ≤ y then x else y)
  | _, _ => none

end HttpWorkflow.Script.Library
