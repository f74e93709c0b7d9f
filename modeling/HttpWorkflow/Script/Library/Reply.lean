import HttpWorkflow.Script.Operator

/-! What a library function answers: a result, and the receiver if the function changes it. -/

set_option autoImplicit false

namespace HttpWorkflow.Script

structure Reply where
  result : Value
  receiver : Option Value := none

/-- A call of a library function; `none` when no function takes these arguments. -/
abbrev Call := Option (Except Fault Reply)

namespace Library

def give (v : Value) : Call := some (.ok { result := v })

def change (receiver : Value) (result : Value) : Call :=
  some (.ok { result := result, receiver := some receiver })

def refuse (f : Fault) : Call := some (.error f)

def ofAnswer (a : Answer) : Call := a.map (·.map fun v => { result := v })

def orWrongType (o : Option Value) : Call :=
  match o with
  | some v => give v
  | none => refuse .badArgument

/-- A position counted from the end when negative, within `size` places. -/
def place? (size : Nat) (position : Int) : Option Nat :=
  if position < 0 then
    if position.natAbs ≤ size then some (size - position.natAbs) else none
  else if position.toNat < size then some position.toNat else none

/-- A starting position: counted from the end when negative, and never before the beginning. -/
def start (size : Nat) (position : Int) : Nat :=
  if position < 0 then size - position.natAbs else position.toNat

/-- The start and length of the part that a range selects. -/
def span (first last : Int) (inclusive : Bool) : Int × Int :=
  let first := max first 0
  (first, max (last + (if inclusive then 1 else 0)) first - first)

def slice {α : Type} (items : List α) (first length : Int) : List α :=
  if length ≤ 0 then [] else (items.drop (start items.length first)).take length.toNat

end Library

end HttpWorkflow.Script
