import HttpWorkflow.Text.Utf8
import Mathlib.Data.List.Basic

/-! UTF-8 read back.

The octets of a text decode to that text. An octet below 128 is never part of a longer sequence, so
the octets before it and those from it on are decoded apart, even where they are ill-formed.
-/

set_option autoImplicit false

namespace HttpWorkflow.Utf8

/-- Code points leave out the surrogates. -/
theorem toNat_bounds (c : Char) : c.toNat < 0xD800 ∨ 0xDFFF < c.toNat ∧ c.toNat < 0x110000 :=
  c.valid

section Encoded

theorem first_two {a b : Nat} (lead : 0xC2 ≤ a ∧ a ≤ 0xDF) (tail : 0x80 ≤ b ∧ b ≤ 0xBF)
    (rest : List Nat) :
    first a (b :: rest) = (some (Char.ofNat ((a - 0xC0) * 64 + b % 64)), rest) := by
  have range : tails a = some (1, 0x80, 0xBF) := if_pos lead
  simp only [first, range, follow, if_pos tail, if_neg (show ¬a < 0x80 by omega), if_true,
    Option.map_some]

theorem first_three {a b d : Nat} (lead : 0xE0 ≤ a ∧ a ≤ 0xEF) (second : 0x80 ≤ b ∧ b ≤ 0xBF)
    (shortest : a = 0xE0 → 0xA0 ≤ b) (scalar : a = 0xED → b ≤ 0x9F) (third : 0x80 ≤ d ∧ d ≤ 0xBF)
    (rest : List Nat) :
    first a (b :: d :: rest) =
      (some (Char.ofNat (((a - 0xE0) * 64 + b % 64) * 64 + d % 64)), rest) := by
  obtain ⟨low, high, range, within⟩ : ∃ low high, tails a = some (2, low, high) ∧
      (low ≤ b ∧ b ≤ high) := by
    unfold tails
    rw [if_neg (show ¬(0xC2 ≤ a ∧ a ≤ 0xDF) by omega)]
    by_cases lowest : a = 0xE0
    · exact ⟨0xA0, 0xBF, if_pos lowest, shortest lowest, second.2⟩
    · rw [if_neg lowest]
      by_cases highest : a = 0xED
      · exact ⟨0x80, 0x9F, if_pos highest, second.1, scalar highest⟩
      · rw [if_neg highest, if_pos (show 0xE1 ≤ a ∧ a ≤ 0xEF by omega)]
        exact ⟨0x80, 0xBF, rfl, second⟩
  simp only [first, range, follow, if_pos within, if_pos third, if_neg (show ¬a < 0x80 by omega),
    Nat.reduceEqDiff, if_false, if_true, Option.map_some]

theorem first_four {a b d e : Nat} (lead : 0xF0 ≤ a ∧ a ≤ 0xF4) (second : 0x80 ≤ b ∧ b ≤ 0xBF)
    (shortest : a = 0xF0 → 0x90 ≤ b) (scalar : a = 0xF4 → b ≤ 0x8F) (third : 0x80 ≤ d ∧ d ≤ 0xBF)
    (fourth : 0x80 ≤ e ∧ e ≤ 0xBF) (rest : List Nat) :
    first a (b :: d :: e :: rest) =
      (some (Char.ofNat ((((a - 0xF0) * 64 + b % 64) * 64 + d % 64) * 64 + e % 64)), rest) := by
  obtain ⟨low, high, range, within⟩ : ∃ low high, tails a = some (3, low, high) ∧
      (low ≤ b ∧ b ≤ high) := by
    unfold tails
    rw [if_neg (show ¬(0xC2 ≤ a ∧ a ≤ 0xDF) by omega), if_neg (show ¬a = 0xE0 by omega),
      if_neg (show ¬a = 0xED by omega), if_neg (show ¬(0xE1 ≤ a ∧ a ≤ 0xEF) by omega)]
    by_cases lowest : a = 0xF0
    · exact ⟨0x90, 0xBF, if_pos lowest, shortest lowest, second.2⟩
    · rw [if_neg lowest]
      by_cases middle : 0xF1 ≤ a ∧ a ≤ 0xF3
      · exact ⟨0x80, 0xBF, if_pos middle, second⟩
      · have highest : a = 0xF4 := by omega
        rw [if_neg middle, if_pos highest]
        exact ⟨0x80, 0x8F, rfl, second.1, scalar highest⟩
  simp only [first, range, follow, if_pos within, if_pos third, if_pos fourth,
    if_neg (show ¬a < 0x80 by omega), Nat.reduceEqDiff, if_false, Option.map_some]

theorem entries_encodeChar (c : Char) (rest : List Nat) :
    entries (encodeChar c ++ rest) = some c :: entries rest := by
  have bounds := toNat_bounds c
  simp only [encodeChar]
  -- How many octets there are depends on the size of the code point.
  split
  · next small =>
    rw [List.singleton_append, entries, first, if_pos small, Char.ofNat_toNat]
  · split
    · next large small =>
      have value : (0xC0 + c.toNat / 64 - 0xC0) * 64 + (0x80 + c.toNat % 64) % 64 = c.toNat := by
        omega
      rw [List.cons_append, List.singleton_append, entries, first_two (by omega) (by omega), value,
        Char.ofNat_toNat]
    · split
      · next _ large small =>
        have value : ((0xE0 + c.toNat / 4096 - 0xE0) * 64 + (0x80 + c.toNat / 64 % 64) % 64) * 64 +
            (0x80 + c.toNat % 64) % 64 = c.toNat := by
          omega
        rw [List.cons_append, List.cons_append, List.singleton_append, entries,
          first_three (by omega) (by omega) (by omega) (by omega) (by omega), value,
          Char.ofNat_toNat]
      · next _ _ large =>
        have value : (((0xF0 + c.toNat / 262144 - 0xF0) * 64 + (0x80 + c.toNat / 4096 % 64) % 64)
            * 64 + (0x80 + c.toNat / 64 % 64) % 64) * 64 + (0x80 + c.toNat % 64) % 64 =
            c.toNat := by
          omega
        rw [List.cons_append, List.cons_append, List.cons_append, List.singleton_append, entries,
          first_four (by omega) (by omega) (by omega) (by omega) (by omega) (by omega), value,
          Char.ofNat_toNat]

theorem encode_cons (c : Char) (cs : List Char) : encode (c :: cs) = encodeChar c ++ encode cs :=
  List.flatMap_cons

theorem entries_encode (cs : List Char) : entries (encode cs) = cs.map some := by
  induction cs with
  | nil => simp [encode, entries]
  | cons c cs ih =>
    rw [encode_cons, entries_encodeChar, List.map_cons, ih]

theorem decode_encode (cs : List Char) : decode (encode cs) = some cs := by
  rw [decode, entries_encode]
  induction cs with
  | nil => rfl
  | cons c cs ih => simp only [List.map_cons, List.mapM_cons, ih]; rfl

theorem encodeChar_of_ascii {c : Char} (ascii : c.toNat < 0x80) : encodeChar c = [c.toNat] :=
  if_pos ascii

/-- The octets of a text of ASCII characters are their codes. -/
theorem encode_of_ascii {cs : List Char} (ascii : ∀ c ∈ cs, c.toNat < 0x80) :
    encode cs = cs.map Char.toNat := by
  induction cs with
  | nil => rfl
  | cons c cs ih =>
    have rest := ih fun d member => ascii d (List.mem_cons_of_mem _ member)
    rw [encode_cons, encodeChar_of_ascii (ascii c List.mem_cons_self), rest]
    rfl

theorem encode_append (cs ds : List Char) : encode (cs ++ ds) = encode cs ++ encode ds :=
  List.flatMap_append

theorem encodeChar_ne_nil (c : Char) : encodeChar c ≠ [] := by
  simp only [encodeChar]
  split <;> [skip; split <;> [skip; split]] <;> exact List.cons_ne_nil _ _

theorem lt_of_mem_encodeChar {c : Char} {octet : Nat} (member : octet ∈ encodeChar c) :
    octet < 256 := by
  have bounds := toNat_bounds c
  simp only [encodeChar] at member
  split at member
  · simp only [List.mem_singleton] at member
    omega
  · split at member
    · simp only [List.mem_cons, List.not_mem_nil, or_false] at member
      omega
    · split at member <;>
      · simp only [List.mem_cons, List.not_mem_nil, or_false] at member
        omega

end Encoded

section Boundary

variable {b : Nat} (ascii : b < 0x80)
include ascii

/-- What follows a leading octet ends at an ASCII octet as it does at the end of the text. -/
theorem follow_append {n low : Nat} (high value : Nat) (tail : 0x80 ≤ low) (x y : List Nat) :
    follow n low high value (x ++ b :: y) =
      ((follow n low high value x).1, (follow n low high value x).2 ++ b :: y) := by
  induction n generalizing low high value x with
  | zero => rfl
  | succ n ih =>
    cases x with
    | nil => simp only [List.nil_append, follow, if_neg (show ¬(low ≤ b ∧ b ≤ high) by omega)]
    | cons a x =>
      simp only [List.cons_append, follow]
      by_cases within : low ≤ a ∧ a ≤ high
      · simp only [if_pos within, ih _ _ (Nat.le_refl _)]
      · simp only [if_neg within, List.cons_append]

theorem first_append (lead : Nat) (x y : List Nat) :
    first lead (x ++ b :: y) = ((first lead x).1, (first lead x).2 ++ b :: y) := by
  unfold first
  split
  · rfl
  · cases range : tails lead with
    | none => rfl
    | some tail =>
      obtain ⟨n, low, high⟩ := tail
      have bound : 0x80 ≤ low := by
        unfold tails at range
        grind
      simp only [follow_append ascii _ _ bound]

theorem entries_append (x y : List Nat) :
    entries (x ++ b :: y) = entries x ++ entries (b :: y) := by
  fun_induction entries x with
  | case1 => rfl
  | case2 lead rest step ih =>
    rw [List.cons_append, entries, first_append ascii, List.cons_append, ih]

theorem entries_cons (y : List Nat) : entries (b :: y) = some (Char.ofNat b) :: entries y := by
  rw [entries, first, if_pos ascii]

/-- Both sides of an ASCII octet have to be well-formed. -/
theorem decode_append {x y : List Nat} {cs : List Char}
    (decoded : decode (x ++ b :: y) = some cs) :
    ∃ before after, decode x = some before ∧ decode y = some after ∧
      cs = before ++ Char.ofNat b :: after := by
  rw [decode, entries_append ascii, entries_cons ascii, List.mapM_append, List.mapM_cons] at decoded
  obtain ⟨before, left, decoded⟩ := Option.bind_eq_some_iff.mp decoded
  obtain ⟨after, right, decoded⟩ := Option.bind_eq_some_iff.mp decoded
  obtain ⟨c, same, right⟩ := Option.bind_eq_some_iff.mp right
  obtain ⟨later, read, right⟩ := Option.bind_eq_some_iff.mp right
  obtain rfl := Option.some.inj same
  obtain rfl := Option.some.inj right
  exact ⟨before, later, left, read, (Option.some.inj decoded).symm⟩

end Boundary

end HttpWorkflow.Utf8
