import HttpWorkflow.Decimal.Shortest

/-! The remainder of a division of floating point values, and powers with whole exponents. -/

set_option autoImplicit false

namespace HttpWorkflow.Decimal

/-- The exact magnitude `mantissa * 2 ^ exponent` of a finite value, zero included. -/
def magnitude (x : Float) : Nat × Int :=
  match Binary.ofBits x.toBits with
  | some b => (b.mantissa, b.exponent)
  | none => (0, 0)

/-- The value nearest to `mantissa * 2 ^ exponent`, exact when it is representable. -/
def ofBinary (mantissa : Nat) (exponent : Int) : Float :=
  (Float.ofNat mantissa).scaleB exponent

/-- What is left of `x` after taking off whole multiples of `y`; it has the sign of `x`. -/
def remainder (x y : Float) : Float :=
  if x.isNaN || y.isNaN || x.isInf || y == 0 then Float.ofBits 0x7FF8000000000000
  else if y.isInf then x
  else
    let (m, e) := magnitude x
    let (n, f) := magnitude y
    let low := min e f
    let rest := (m * Nat.pow 2 (e - low).toNat) % (n * Nat.pow 2 (f - low).toNat)
    let result := ofBinary rest low
    if x.toBits >>> 63 = 1 then -result else result

/-- Repeated squaring. -/
def powerLoop : Nat → Float → Float → Nat → Float
  | 0, acc, _, _ => acc
  | fuel + 1, acc, base, n =>
    let acc := if n % 2 = 1 then acc * base else acc
    if n / 2 = 0 then acc else powerLoop fuel acc (base * base) (n / 2)

/-- A power with a whole exponent; a negative one inverts the result. -/
def power (x : Float) (n : Int) : Float :=
  let result := powerLoop 64 1 x n.natAbs
  if n < 0 then 1 / result else result

end HttpWorkflow.Decimal
