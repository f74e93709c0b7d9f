/-! The shortest decimal that identifies a floating point value.

A positive finite value is `mantissa * 2 ^ exponent`. The reals that round to it form an interval,
whose ends belong to it exactly when the mantissa is even. Grids of one, two, up to seventeen
significant digits are tried in turn; on each only the two neighbours of the value can lie in the
interval, and the first grid with such a neighbour gives the digits.
-/

set_option autoImplicit false

namespace HttpWorkflow

/-- The number `digits * 10 ^ exponent`. -/
structure Decimal where
  digits : Nat
  exponent : Int
  deriving DecidableEq, Repr

namespace Decimal

/-- A positive finite binary value `mantissa * 2 ^ exponent`. The gap below it is half as wide as
the gap above it when `narrowBelow` holds. -/
structure Binary where
  mantissa : Nat
  exponent : Int
  narrowBelow : Bool

/-- The parts of a 64-bit pattern without its sign; `none` for zero, infinities and NaN. -/
def Binary.ofBits (bits : UInt64) : Option Binary :=
  let biased := ((bits >>> 52) &&& 0x7FF).toNat
  let fraction := (bits &&& 0xFFFFFFFFFFFFF).toNat
  if biased = 0x7FF then none
  else if biased = 0 then
    if fraction = 0 then none else some ⟨fraction, -1074, false⟩
  else some ⟨Nat.pow 2 52 + fraction, (biased : Int) - 1075, fraction = 0 && 1 < biased⟩

/-- The value and the ends of its rounding interval over one common denominator. -/
structure Interval where
  low : Nat
  value : Nat
  high : Nat
  denominator : Nat
  closed : Bool

def Binary.interval (b : Binary) : Interval :=
  let quarter := b.exponent - 2
  let up := Nat.pow 2 quarter.toNat
  { low := (4 * b.mantissa - if b.narrowBelow then 1 else 2) * up
    value := 4 * b.mantissa * up
    high := (4 * b.mantissa + 2) * up
    denominator := Nat.pow 2 (-quarter).toNat
    closed := b.mantissa % 2 = 0 }

def digitCount (n : Nat) : Nat := (Nat.toDigits 10 n).length

/-- The exponent of the leading decimal digit. -/
def Interval.leading (i : Interval) : Int :=
  if i.denominator ≤ i.value then (digitCount (i.value / i.denominator) : Int) - 1
  else
    let t := digitCount (i.denominator / i.value)
    if i.denominator ≤ i.value * Nat.pow 10 (t - 1) then 1 - (t : Int) else -(t : Int)

/-- Whether `d * 10 ^ e` lies in the interval. -/
def Interval.contains (i : Interval) (d : Nat) (e : Int) : Bool :=
  let point := d * i.denominator * Nat.pow 10 e.toNat
  let scale := Nat.pow 10 (-e).toNat
  if i.closed then i.low * scale ≤ point && point ≤ i.high * scale
  else i.low * scale < point && point < i.high * scale

/-- The neighbour of the value on the grid of multiples of `10 ^ e` that lies in the interval, the
nearer one if both do. Of two equally near ones the greater is taken if `tieUp`, else the even. -/
def Interval.onGrid (i : Interval) (tieUp : Bool) (e : Int) : Option Nat :=
  let unit := i.denominator * Nat.pow 10 e.toNat
  let target := i.value * Nat.pow 10 (-e).toNat
  let below := target / unit
  match i.contains below e, i.contains (below + 1) e with
  | true, false => some below
  | false, true => some (below + 1)
  | false, false => none
  | true, true =>
    let rest := target % unit
    if 2 * rest < unit then some below
    else if unit < 2 * rest then some (below + 1)
    else if tieUp || below % 2 = 1 then some (below + 1) else some below

/-- Drop trailing zeros; `fuel` bounds how many. -/
def strip : Nat → Decimal → Decimal
  | 0, d => d
  | fuel + 1, d =>
    if d.digits ≠ 0 ∧ d.digits % 10 = 0 then strip fuel ⟨d.digits / 10, d.exponent + 1⟩ else d

def Interval.shortest (i : Interval) (tieUp : Bool) : Option Decimal :=
  let leading := i.leading
  (List.range 17).findSome? fun (n : Nat) =>
    let e := leading - (n : Int)
    (i.onGrid tieUp e).map fun d => strip 17 ⟨d, e⟩

/-- The shortest decimal that reads back as the magnitude of `x`; zero for anything that has none. -/
def ofFloat (x : Float) (tieUp : Bool) : Decimal :=
  match (Binary.ofBits x.toBits).bind fun b => b.interval.shortest tieUp with
  | some d => d
  | none => ⟨0, 0⟩

example : ofFloat 0.1 false = ⟨1, -1⟩ := by decide +kernel
example : ofFloat 5e-324 false = ⟨5, -324⟩ := by decide +kernel
example : ofFloat 1e16 false = ⟨1, 16⟩ := by decide +kernel

end Decimal

end HttpWorkflow
