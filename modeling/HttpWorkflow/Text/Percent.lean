import HttpWorkflow.Text.Utf8

/-! Percent escapes: an octet written as `%` and two hexadecimal digits. -/

set_option autoImplicit false

namespace HttpWorkflow.Percent

def hexDigit (n : Nat) : Char :=
  if n < 10 then Char.ofNat (n + 48) else Char.ofNat (n + 55)

/-- The value of a hexadecimal digit, given as the code of its character. -/
def hexValue (code : Nat) : Option Nat :=
  if 48 ≤ code ∧ code ≤ 57 then some (code - 48)
  else if 65 ≤ code ∧ code ≤ 70 then some (code - 55)
  else if 97 ≤ code ∧ code ≤ 102 then some (code - 87)
  else none

def isHex (c : Char) : Bool := (hexValue c.toNat).isSome

def escape (octet : Nat) : List Char := ['%', hexDigit (octet / 16), hexDigit (octet % 16)]

def escapeChar (c : Char) : List Char := (Utf8.encodeChar c).flatMap escape

/-- ASCII letters, digits and `-._~` stand for themselves in every component. -/
def isUnreserved (c : Char) : Bool :=
  c.isAlphanum || c = '-' || c = '.' || c = '_' || c = '~'

/-- Escape every character that is not unreserved. -/
def encode (text : List Char) : List Char :=
  text.flatMap fun c => if isUnreserved c then [c] else escapeChar c

/-- Characters that may stand in a URL, its marks of structure among them. -/
def isUriChar (c : Char) : Bool := c.isAlphanum || "-_.!~*'();/?:@&=+$,#".toList.contains c

/-- Escape what may not stand in a URL. Escapes that are there already stay as they are. -/
def encodeUri : List Char → List Char
  | '%' :: h :: l :: rest =>
    if isHex h && isHex l then '%' :: encodeUri (h :: l :: rest)
    else escapeChar '%' ++ encodeUri (h :: l :: rest)
  | c :: rest => (if isUriChar c then [c] else escapeChar c) ++ encodeUri rest
  | [] => []

/-- The octet that three octets escape. -/
def escaped? (mark high low : Nat) : Option Nat :=
  if mark = 37 then
    match hexValue high, hexValue low with
    | some h, some l => some (h * 16 + l)
    | _, _ => none
  else none

/-- Replace each escape by its octet. A `%` that begins no escape stays. -/
def decode : List Nat → List Nat
  | b :: h :: l :: rest =>
    match escaped? b h l with
    | some octet => octet :: decode rest
    | none => b :: decode (h :: l :: rest)
  | short => short

end HttpWorkflow.Percent
