/-! Letter case of single characters, for the Latin, Greek and Cyrillic alphabets.

Other alphabets keep their characters. A sharp s has two capital letters.
-/

set_option autoImplicit false

namespace HttpWorkflow.Text

def shift (c : Char) (offset : Int) : Char := Char.ofNat ((c.toNat : Int) + offset).toNat

/-- Whether a letter of Latin Extended-A stands in the part where capitals have odd codes. -/
def oddCapitals (n : Nat) : Bool := (0x139 ≤ n && n ≤ 0x148) || (0x179 ≤ n && n ≤ 0x17E)

def isPaired (n : Nat) : Bool :=
  (0x100 ≤ n && n ≤ 0x137 && n ≠ 0x130 && n ≠ 0x131) || (0x14A ≤ n && n ≤ 0x177) || oddCapitals n
    || (0x460 ≤ n && n ≤ 0x481) || (0x48A ≤ n && n ≤ 0x4BF) || (0x4D0 ≤ n && n ≤ 0x52F)

def isPairedCapital (n : Nat) : Bool := isPaired n && (n % 2 = 1) == oddCapitals n

def upper (c : Char) : List Char :=
  let n := c.toNat
  if n = 0xDF then ['S', 'S']
  else if n = 0xFF then [Char.ofNat 0x178]
  else if n = 0xB5 then [Char.ofNat 0x39C]
  else if n = 0x131 then ['I']
  else if n = 0x17F then ['S']
  else if n = 0x3C2 then [Char.ofNat 0x3A3]
  else if n = 0x3AC then [Char.ofNat 0x386]
  else if 0x3AD ≤ n ∧ n ≤ 0x3AF then [shift c (-37)]
  else if n = 0x3CC then [Char.ofNat 0x38C]
  else if 0x3CD ≤ n ∧ n ≤ 0x3CE then [shift c (-63)]
  else if (0x61 ≤ n ∧ n ≤ 0x7A) ∨ (0xE0 ≤ n ∧ n ≤ 0xFE ∧ n ≠ 0xF7) ∨ (0x3B1 ≤ n ∧ n ≤ 0x3CB)
      ∨ (0x430 ≤ n ∧ n ≤ 0x44F) then [shift c (-32)]
  else if 0x450 ≤ n ∧ n ≤ 0x45F then [shift c (-80)]
  else if isPaired n ∧ ¬isPairedCapital n then [shift c (-1)]
  else [c]

def lower (c : Char) : Char :=
  let n := c.toNat
  if n = 0x178 then Char.ofNat 0xFF
  else if n = 0x386 then Char.ofNat 0x3AC
  else if 0x388 ≤ n ∧ n ≤ 0x38A then shift c 37
  else if n = 0x38C then Char.ofNat 0x3CC
  else if 0x38E ≤ n ∧ n ≤ 0x38F then shift c 63
  else if (0x41 ≤ n ∧ n ≤ 0x5A) ∨ (0xC0 ≤ n ∧ n ≤ 0xDE ∧ n ≠ 0xD7) ∨ (0x391 ≤ n ∧ n ≤ 0x3AB)
      ∨ (0x410 ≤ n ∧ n ≤ 0x42F) then shift c 32
  else if 0x400 ≤ n ∧ n ≤ 0x40F then shift c 80
  else if isPairedCapital n then shift c 1
  else c

def toUpper (s : String) : String := String.ofList (s.toList.flatMap upper)

def toLower (s : String) : String := String.ofList (s.toList.map lower)

end HttpWorkflow.Text
