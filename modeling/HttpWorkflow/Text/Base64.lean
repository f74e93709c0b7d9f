/-! Base 64 digits of octets, three octets in four digits. -/

set_option autoImplicit false

namespace HttpWorkflow.Base64

def digits : List Char :=
  "ABCDEFGHIJKLMNOPQRSTUVWXYZabcdefghijklmnopqrstuvwxyz0123456789+/".toList

def digit (n : Nat) : Char := digits.getD (n % 64) '='

/-- A last group of fewer than three octets is filled up with equals signs. -/
def encode : List Nat → List Char
  | [] => []
  | [a] => [digit (a / 4), digit (a * 16), '=', '=']
  | [a, b] => [digit (a / 4), digit (a * 16 + b / 16), digit (b * 4), '=']
  | a :: b :: c :: rest =>
    digit (a / 4) :: digit (a * 16 + b / 16) :: digit (b * 4 + c / 64) :: digit c :: encode rest

end HttpWorkflow.Base64
