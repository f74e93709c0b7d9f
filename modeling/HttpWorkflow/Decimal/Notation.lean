import HttpWorkflow.Decimal.Shortest

/-! Decimals written out, and decimals read.

A `Notation` holds the decisions of one output format: where positional writing begins and ends,
how an exponent is signed, which way ties go. `render` applies them to a floating point value.
`ofDecimal` is the value nearest to a written decimal.
-/

set_option autoImplicit false

namespace HttpWorkflow.Decimal

/-- How a format writes floating point values. A value whose leading digit has exponent `e` is
written positionally when `plainFrom ≤ e < plainBelow`. -/
structure Notation where
  plainFrom : Int
  plainBelow : Int
  exponentPlus : Bool
  tieUp : Bool
  signedZero : Bool
  nan : String
  infinity : String

/-- The digits of `d` with a point, at least one digit on either side of it. -/
def positional (d : Decimal) : String :=
  let ds := Nat.toDigits 10 d.digits
  let zeros (n : Nat) : List Char := List.replicate n '0'
  if 0 ≤ d.exponent then String.ofList (ds ++ zeros d.exponent.toNat) ++ ".0"
  else
    let places := (-d.exponent).toNat
    let padded := zeros (places + 1 - ds.length) ++ ds
    let whole := padded.length - places
    String.ofList (padded.take whole ++ '.' :: padded.drop whole)

/-- One digit, the others after a point, then the exponent. -/
def scientific (plus : Bool) (d : Decimal) : String :=
  let ds := Nat.toDigits 10 d.digits
  let e : Int := d.exponent + ds.length - 1
  let body := match ds with
    | [] => []
    | [c] => [c]
    | c :: rest => c :: '.' :: rest
  let sign := if e < 0 then "-" else if plus then "+" else ""
  String.ofList body ++ "e" ++ sign ++ toString e.natAbs

/-- The text of `x` in this notation. -/
def Notation.render (n : Notation) (x : Float) : String :=
  let negative := x.toBits >>> 63 = 1
  if x.isNaN then n.nan
  else if x.isInf then (if negative then "-" else "") ++ n.infinity
  else if x == 0 then if negative && n.signedZero then "-0.0" else "0.0"
  else
    let d := ofFloat x n.tieUp
    let leading : Int := d.exponent + digitCount d.digits - 1
    let text := if n.plainFrom ≤ leading && leading < n.plainBelow then positional d
      else scientific n.exponentPlus d
    (if negative then "-" else "") ++ text

/-- The value nearest to `digits * 10 ^ exponent`. Exponents far outside the range of finite values
are decided without computing the power. -/
def toFloat (d : Decimal) : Float :=
  let leading : Int := d.exponent + digitCount d.digits
  if d.digits = 0 then 0
  else if 400 < leading then Float.ofBits 0x7FF0000000000000
  else if leading < -400 then 0
  else Float.ofScientific d.digits (d.exponent < 0) d.exponent.natAbs

/-- The number that a run of digits writes in base ten. -/
def natOfDigits (cs : List Char) : Nat :=
  cs.foldl (fun n c => n * 10 + (c.toNat - '0'.toNat)) 0

/-- Digits before and after a point and an exponent. -/
def ofParts (whole fraction : List Char) (exponent : Int) : Decimal :=
  ⟨natOfDigits (whole ++ fraction), exponent - fraction.length⟩

end HttpWorkflow.Decimal
