/-! UTF-8 octets of a text.

Octets are natural numbers. Decoding yields one entry per character and one `none` per maximal
run of octets that begins a character and cannot be completed; `decode` refuses such runs and
`decodeLossy` writes the replacement character for each.
-/

set_option autoImplicit false

namespace HttpWorkflow.Utf8

def encodeChar (c : Char) : List Nat :=
  let n := c.toNat
  if n < 0x80 then [n]
  else if n < 0x800 then [0xC0 + n / 64, 0x80 + n % 64]
  else if n < 0x10000 then [0xE0 + n / 4096, 0x80 + n / 64 % 64, 0x80 + n % 64]
  else [0xF0 + n / 262144, 0x80 + n / 4096 % 64, 0x80 + n / 64 % 64, 0x80 + n % 64]

def encode (cs : List Char) : List Nat := cs.flatMap encodeChar

/-- After a leading octet: how many octets follow, and the range of the first of them. -/
def tails (lead : Nat) : Option (Nat × Nat × Nat) :=
  if 0xC2 ≤ lead ∧ lead ≤ 0xDF then some (1, 0x80, 0xBF)
  else if lead = 0xE0 then some (2, 0xA0, 0xBF)
  else if lead = 0xED then some (2, 0x80, 0x9F)
  else if 0xE1 ≤ lead ∧ lead ≤ 0xEF then some (2, 0x80, 0xBF)
  else if lead = 0xF0 then some (3, 0x90, 0xBF)
  else if 0xF1 ≤ lead ∧ lead ≤ 0xF3 then some (3, 0x80, 0xBF)
  else if lead = 0xF4 then some (3, 0x80, 0x8F)
  else none

/-- Read the octets that follow a leading one. The rest starts at the first octet out of range. -/
def follow : Nat → Nat → Nat → Nat → List Nat → Option Nat × List Nat
  | 0, _, _, value, rest => (some value, rest)
  | _ + 1, _, _, _, [] => (none, [])
  | n + 1, low, high, value, b :: rest =>
    if low ≤ b ∧ b ≤ high then follow n 0x80 0xBF (value * 64 + b % 64) rest
    else (none, b :: rest)

theorem length_follow_le (n low high value : Nat) (rest : List Nat) :
    (follow n low high value rest).2.length ≤ rest.length := by
  induction n generalizing low high value rest with
  | zero => simp [follow]
  | succ n ih =>
    cases rest with
    | nil => simp [follow]
    | cons b rest =>
      simp only [follow]
      split
      · exact Nat.le_succ_of_le (ih ..)
      · simp

/-- The first character, or `none` for an ill-formed run, and what follows it. -/
def first (lead : Nat) (rest : List Nat) : Option Char × List Nat :=
  if lead < 0x80 then (some (Char.ofNat lead), rest)
  else match tails lead with
    | none => (none, rest)
    | some (n, low, high) =>
      let value := if n = 1 then lead - 0xC0 else if n = 2 then lead - 0xE0 else lead - 0xF0
      let (code, rest) := follow n low high value rest
      (code.map Char.ofNat, rest)

theorem length_first_le (lead : Nat) (rest : List Nat) :
    (first lead rest).2.length ≤ rest.length := by
  unfold first
  split
  · simp
  · split
    · simp
    · exact length_follow_le ..

def entries : List Nat → List (Option Char)
  | [] => []
  | lead :: rest =>
    let step := first lead rest
    step.1 :: entries step.2
termination_by octets => octets.length
decreasing_by exact Nat.lt_succ_of_le (length_first_le lead rest)

/-- The characters of a well-formed sequence of octets. -/
def decode (octets : List Nat) : Option (List Char) := (entries octets).mapM id

def decodeLossy (octets : List Nat) : List Char :=
  (entries octets).map (·.getD '\uFFFD')

end HttpWorkflow.Utf8
