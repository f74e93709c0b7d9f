import HttpWorkflow.Proofs.Text.Utf8
import HttpWorkflow.Text.Percent

/-! Percent escapes read back, and left alone.

An encoded component holds unreserved characters and escapes only, and decoding it gives the octets
of the text. Encoding a URL keeps such components as they are. Encoding and decoding both treat what
stands on the two sides of a mark of URL syntax apart, because no escape reaches over the mark.
-/

set_option autoImplicit false

namespace HttpWorkflow.Percent

section Characters

theorem hexValue_hexDigit : ∀ n < 16, hexValue (hexDigit n).toNat = some n := by decide

theorem isAlphanum_hexDigit : ∀ n < 16, (hexDigit n).isAlphanum = true := by decide

theorem isHex_hexDigit {n : Nat} (small : n < 16) : isHex (hexDigit n) = true := by
  rw [isHex, hexValue_hexDigit n small, Option.isSome_some]

theorem toNat_of_isAlphanum {c : Char} (alphanumeric : c.isAlphanum = true) :
    48 ≤ c.toNat ∧ c.toNat ≤ 57 ∨ 65 ≤ c.toNat ∧ c.toNat ≤ 90 ∨ 97 ≤ c.toNat ∧ c.toNat ≤ 122 := by
  change (decide (65 ≤ c.toNat ∧ c.toNat ≤ 90) ||
    decide (97 ≤ c.toNat) && decide (c.toNat ≤ 122) ||
    decide (48 ≤ c.toNat) && decide (c.toNat ≤ 57)) = true at alphanumeric
  simp only [Bool.or_eq_true, Bool.and_eq_true, decide_eq_true_eq] at alphanumeric
  omega

theorem isUriChar_of_isUnreserved {c : Char} (unreserved : isUnreserved c = true) :
    isUriChar c = true := by
  simp only [isUnreserved, Bool.or_eq_true, decide_eq_true_eq] at unreserved
  rcases unreserved with (((alphanumeric | rfl) | rfl) | rfl) | rfl
  · rw [isUriChar, alphanumeric, Bool.true_or]
  all_goals decide

theorem toNat_lt_of_isUnreserved {c : Char} (unreserved : isUnreserved c = true) :
    c.toNat < 0x80 := by
  simp only [isUnreserved, Bool.or_eq_true, decide_eq_true_eq] at unreserved
  rcases unreserved with (((alphanumeric | rfl) | rfl) | rfl) | rfl
  · have := toNat_of_isAlphanum alphanumeric
    omega
  all_goals decide

end Characters

section Component

theorem mem_escape {octet : Nat} (small : octet < 256) {c : Char} (member : c ∈ escape octet) :
    c = '%' ∨ isUnreserved c = true := by
  have digit {n : Nat} (bound : n < 16) : isUnreserved (hexDigit n) = true := by
    simp only [isUnreserved, isAlphanum_hexDigit n bound, Bool.true_or]
  simp only [escape, List.mem_cons, List.not_mem_nil, or_false] at member
  rcases member with rfl | rfl | rfl
  · exact Or.inl rfl
  · exact Or.inr (digit (by omega))
  · exact Or.inr (digit (by omega))

/-- An encoded component has no mark of URL syntax in it. -/
theorem mem_encode {text : List Char} {c : Char} (member : c ∈ encode text) :
    c = '%' ∨ isUnreserved c = true := by
  obtain ⟨d, _, inside⟩ := List.mem_flatMap.mp member
  by_cases unreserved : isUnreserved d = true
  · rw [if_pos unreserved, List.mem_singleton] at inside
    exact Or.inr (inside ▸ unreserved)
  · rw [if_neg unreserved] at inside
    obtain ⟨octet, part, inside⟩ := List.mem_flatMap.mp inside
    exact mem_escape (Utf8.lt_of_mem_encodeChar part) inside

theorem not_mem_encode {mark : Char} (reserved : isUnreserved mark = false) (other : mark ≠ '%')
    (text : List Char) : mark ∉ encode text := by
  intro member
  rcases mem_encode member with percent | unreserved
  · exact other percent
  · rw [reserved] at unreserved
    cases unreserved

theorem toNat_lt_of_mem_encode {text : List Char} {c : Char} (member : c ∈ encode text) :
    c.toNat < 0x80 := by
  rcases mem_encode member with rfl | unreserved
  · decide
  · exact toNat_lt_of_isUnreserved unreserved

end Component

section Decode

theorem decode_cons_of_ne {b : Nat} (other : b ≠ 37) (rest : List Nat) :
    decode (b :: rest) = b :: decode rest := by
  match rest with
  | [] => rfl
  | [h] => rfl
  | h :: l :: rest =>
    have plain : escaped? b h l = none := if_neg other
    simp only [decode, plain]

theorem decode_escape {octet : Nat} (small : octet < 256) (rest : List Nat) :
    decode ((escape octet).map Char.toNat ++ rest) = octet :: decode rest := by
  have mark : '%'.toNat = 37 := rfl
  have value : octet / 16 * 16 + octet % 16 = octet := by omega
  have whole : escaped? '%'.toNat (hexDigit (octet / 16)).toNat (hexDigit (octet % 16)).toNat =
      some octet := by
    rw [escaped?, if_pos mark, hexValue_hexDigit _ (by omega), hexValue_hexDigit _ (by omega)]
    exact congrArg some value
  simp only [escape, List.map_cons, List.map_nil, List.cons_append, List.nil_append, decode, whole]

theorem decode_escapes {octets : List Nat} (small : ∀ octet ∈ octets, octet < 256)
    (rest : List Nat) :
    decode ((octets.flatMap escape).map Char.toNat ++ rest) = octets ++ decode rest := by
  induction octets with
  | nil => rfl
  | cons octet octets ih =>
    have later := ih fun o member => small o (List.mem_cons_of_mem _ member)
    rw [List.flatMap_cons, List.map_append, List.append_assoc,
      decode_escape (small octet List.mem_cons_self), later, List.cons_append]

/-- Decoding gives the octets of the text that was encoded. -/
theorem decode_encode (text : List Char) :
    decode (Utf8.encode (encode text)) = Utf8.encode text := by
  rw [Utf8.encode_of_ascii fun c member => toNat_lt_of_mem_encode member]
  induction text with
  | nil => rfl
  | cons c text ih =>
    rw [encode, List.flatMap_cons, List.map_append, Utf8.encode_cons, ← ih]
    by_cases unreserved : isUnreserved c = true
    · have other : c.toNat ≠ 37 := by
        intro percent
        have same : c = '%' := Char.toNat_inj.mp percent
        subst same
        revert unreserved
        decide
      rw [if_pos unreserved, List.map_singleton, List.singleton_append, decode_cons_of_ne other,
        Utf8.encodeChar_of_ascii (toNat_lt_of_isUnreserved unreserved), List.singleton_append]
      rfl
    · rw [if_neg unreserved]
      exact decode_escapes (fun _ member => Utf8.lt_of_mem_encodeChar member) _

/-- No escape reaches over an octet that is neither `%` nor the code of a hexadecimal digit. -/
theorem decode_append {b : Nat} (other : b ≠ 37) (apart : hexValue b = none) (x y : List Nat) :
    decode (x ++ b :: y) = decode x ++ b :: decode y := by
  have broken (mark high : Nat) : escaped? mark high b = none := by
    unfold escaped?
    rw [apart]
    split
    · cases hexValue high <;> rfl
    · rfl
  have unfinished (mark low : Nat) : escaped? mark b low = none := by
    unfold escaped?
    rw [apart]
    split <;> rfl
  fun_induction decode x with
  | case1 a h l rest octet found ih => simp only [List.cons_append, decode, found, ih]
  | case2 a h l rest plain ih =>
    simp only [List.cons_append] at ih ⊢
    simp only [decode, plain, ih]
  | case3 short notThree =>
    match short, notThree with
    | [], _ => exact decode_cons_of_ne other y
    | [a], _ =>
      cases y with
      | nil => rfl
      | cons c y =>
        simp only [List.singleton_append, decode, unfinished]
        rw [decode_cons_of_ne other]
    | [a, h], _ =>
      have later : decode (h :: b :: y) = h :: b :: decode y := by
        cases y with
        | nil => rfl
        | cons c y =>
          simp only [decode, unfinished]
          rw [decode_cons_of_ne other]
      simp only [List.cons_append, List.nil_append, decode, broken, later]
    | a :: h :: l :: rest, notThree => exact (notThree a h l rest rfl).elim

end Decode

section Url

/-- Whether a `%` in front of this text begins an escape. -/
def isEscaped : List Char → Bool
  | h :: l :: _ => isHex h && isHex l
  | _ => false

/-- What becomes of one character, by the text after it. -/
def encodeOne (c : Char) (rest : List Char) : List Char :=
  if isUriChar c || c = '%' && isEscaped rest then [c] else escapeChar c

theorem encodeUri_cons (c : Char) (rest : List Char) :
    encodeUri (c :: rest) = encodeOne c rest ++ encodeUri rest := by
  by_cases percent : c = '%'
  · subst percent
    have reserved : isUriChar '%' = false := by decide
    match rest with
    | [] => rfl
    | [h] => rfl
    | h :: l :: rest =>
      simp only [encodeUri, encodeOne, isEscaped, reserved, Bool.false_or, decide_true,
        Bool.true_and]
      split <;> rfl
  · have plain : encodeUri (c :: rest) =
        (if isUriChar c then [c] else escapeChar c) ++ encodeUri rest := by
      rw [encodeUri]
      intro h l tail same
      exact absurd same percent
    simp only [plain, encodeOne, decide_eq_false percent, Bool.false_and, Bool.or_false]

theorem encodeUri_cons_of_isUriChar {c : Char} (allowed : isUriChar c = true) (rest : List Char) :
    encodeUri (c :: rest) = c :: encodeUri rest := by
  rw [encodeUri_cons, encodeOne, allowed, Bool.true_or, if_pos rfl, List.singleton_append]

theorem encodeUri_escape {octet : Nat} (small : octet < 256) (rest : List Char) :
    encodeUri (escape octet ++ rest) = escape octet ++ encodeUri rest := by
  have kept {n : Nat} (bound : n < 16) (tail : List Char) :
      encodeUri (hexDigit n :: tail) = hexDigit n :: encodeUri tail := by
    apply encodeUri_cons_of_isUriChar
    rw [isUriChar, isAlphanum_hexDigit n bound, Bool.true_or]
  have high : octet / 16 < 16 := by omega
  have low : octet % 16 < 16 := by omega
  simp only [escape, List.cons_append, List.nil_append]
  rw [encodeUri_cons, kept high, kept low, encodeOne, isEscaped, isHex_hexDigit high,
    isHex_hexDigit low, if_pos (by decide), List.singleton_append]

theorem encodeUri_escapes {octets : List Nat} (small : ∀ octet ∈ octets, octet < 256)
    (rest : List Char) :
    encodeUri (octets.flatMap escape ++ rest) = octets.flatMap escape ++ encodeUri rest := by
  induction octets with
  | nil => rfl
  | cons octet octets ih =>
    have later := ih fun o member => small o (List.mem_cons_of_mem _ member)
    rw [List.flatMap_cons, List.append_assoc, encodeUri_escape (small octet List.mem_cons_self),
      later, List.append_assoc]

/-- A component that is encoded is not encoded again. -/
theorem encodeUri_encode (text rest : List Char) :
    encodeUri (encode text ++ rest) = encode text ++ encodeUri rest := by
  induction text with
  | nil => rfl
  | cons c text ih =>
    have split : encode (c :: text) =
        (if isUnreserved c then [c] else escapeChar c) ++ encode text := rfl
    rw [split, List.append_assoc, List.append_assoc]
    by_cases unreserved : isUnreserved c = true
    · rw [if_pos unreserved, List.singleton_append,
        encodeUri_cons_of_isUriChar (isUriChar_of_isUnreserved unreserved), ih,
        List.singleton_append]
    · rw [if_neg unreserved, escapeChar,
        encodeUri_escapes fun _ member => Utf8.lt_of_mem_encodeChar member, ih]

/-- A mark that is kept and is no hexadecimal digit keeps its two sides apart. -/
theorem encodeUri_append {mark : Char} (allowed : isUriChar mark = true)
    (apart : isHex mark = false) (before after : List Char) :
    encodeUri (before ++ mark :: after) = encodeUri before ++ mark :: encodeUri after := by
  induction before with
  | nil => exact encodeUri_cons_of_isUriChar allowed after
  | cons c before ih =>
    have same : isEscaped (before ++ mark :: after) = isEscaped before := by
      match before with
      | [] => cases after <;> simp [isEscaped, apart]
      | [h] => simp [isEscaped, apart]
      | h :: l :: rest => rfl
    rw [List.cons_append, encodeUri_cons, encodeUri_cons, ih, encodeOne, encodeOne, same,
      List.append_assoc]

theorem encodeUri_ne_nil (c : Char) (rest : List Char) : encodeUri (c :: rest) ≠ [] := by
  rw [encodeUri_cons, encodeOne]
  split
  · exact List.cons_ne_nil _ _
  · have octets : Utf8.encodeChar c ≠ [] := Utf8.encodeChar_ne_nil c
    obtain ⟨octet, more, split⟩ := List.exists_cons_of_ne_nil octets
    rw [escapeChar, split]
    exact List.cons_ne_nil _ _

/-- Only escapes are put in. -/
theorem mem_encodeUri {text : List Char} {c : Char} (member : c ∈ encodeUri text) :
    c ∈ text ∨ c = '%' ∨ isUnreserved c = true := by
  induction text with
  | nil => cases member
  | cons d text ih =>
    rw [encodeUri_cons, List.mem_append] at member
    rcases member with one | rest
    · unfold encodeOne at one
      split at one
      · rw [List.mem_singleton] at one
        exact Or.inl (one ▸ List.mem_cons_self)
      · obtain ⟨octet, part, inside⟩ := List.mem_flatMap.mp one
        exact Or.inr (mem_escape (Utf8.lt_of_mem_encodeChar part) inside)
    · exact (ih rest).imp_left (List.mem_cons_of_mem d)

/-- Marks of URL syntax are not put in. -/
theorem not_mem_encodeUri {mark : Char} (reserved : isUnreserved mark = false)
    (other : mark ≠ '%') {text : List Char} (free : mark ∉ text) : mark ∉ encodeUri text := by
  intro member
  rcases mem_encodeUri member with kept | percent | unreserved
  · exact free kept
  · exact other percent
  · rw [reserved] at unreserved
    cases unreserved

end Url

end HttpWorkflow.Percent
