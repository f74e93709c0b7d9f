import HttpWorkflow.Proofs.Request.Placement

/-! URLs as they are sent.

A text that can stand in a URL has letters, digits, marks and whole escapes only. Encoding makes such
a text of any URL, keeps those that are one already, and does not change what the escapes stand for.
It looks past a `%` for two digits; these are kept themselves, so that an escape is one after the
encoding just where it was one before.
-/

set_option autoImplicit false

namespace HttpWorkflow

namespace Utf8

/-- No octet of a longer sequence is ASCII. -/
theorem not_mem_encodeChar {b : Nat} (ascii : b < 0x80) {c : Char} (other : c.toNat ≠ b) :
    b ∉ encodeChar c := by
  have bounds := toNat_bounds c
  simp only [encodeChar]
  split
  · simp; omega
  · split
    · simp; omega
    · split <;> simp <;> omega

/-- An ASCII octet at the front is a character of its own. -/
theorem exists_of_encode_eq {cs : List Char} {b : Nat} {octets : List Nat} (ascii : b < 0x80)
    (encoded : encode cs = b :: octets) :
    ∃ c rest, cs = c :: rest ∧ c.toNat = b ∧ encode rest = octets := by
  cases cs with
  | nil => cases encoded
  | cons c rest =>
    obtain ⟨first, more, sequence⟩ := List.exists_cons_of_ne_nil (encodeChar_ne_nil c)
    rw [encode_cons] at encoded
    have listed : b ∈ encodeChar c := by
      rw [sequence] at encoded ⊢
      rw [(List.cons.inj encoded).1]
      exact List.mem_cons_self
    have same : c.toNat = b := by
      by_contra other
      exact not_mem_encodeChar ascii other listed
    rw [encodeChar_of_ascii (same ▸ ascii), List.singleton_append] at encoded
    exact ⟨c, rest, rfl, same, (List.cons.inj encoded).2⟩

end Utf8

namespace Percent

/-- The marks that may stand in a URL. -/
def urlMarks : List Char :=
  ['-', '_', '.', '!', '~', '*', '\'', '(', ')', ';', '/', '?', ':', '@', '&', '=', '+', '$', ',', '#']

def IsHexDigit (c : Char) : Prop :=
  '0' ≤ c ∧ c ≤ '9' ∨ 'A' ≤ c ∧ c ≤ 'F' ∨ 'a' ≤ c ∧ c ≤ 'f'

/-- A text of letters, digits, marks and escapes. -/
structure IsUrlText (cs : List Char) : Prop where
  allowed : ∀ c ∈ cs, c.isAlphanum = true ∨ c ∈ urlMarks ∨ c = '%'
  escapes : ∀ before after, cs = before ++ '%' :: after →
    ∃ high low rest, after = high :: low :: rest ∧ IsHexDigit high ∧ IsHexDigit low

section Characters

variable {c : Char}

theorem isUriChar_iff : isUriChar c = true ↔ c.isAlphanum = true ∨ c ∈ urlMarks := by
  have marks : "-_.!~*'();/?:@&=+$,#".toList = urlMarks := by decide
  rw [isUriChar, marks, Bool.or_eq_true, List.contains_iff_mem]

theorem isHex_iff : isHex c = true ↔ IsHexDigit c := by
  change _ ↔ (48 ≤ c.toNat ∧ c.toNat ≤ 57 ∨ 65 ≤ c.toNat ∧ c.toNat ≤ 70 ∨
    97 ≤ c.toNat ∧ c.toNat ≤ 102)
  simp only [isHex, hexValue]
  split
  · simp [*]
  · split
    · simp [*]
    · split <;> simp [*]

theorem toNat_lt_of_isUriChar (allowed : isUriChar c = true) : c.toNat < 0x80 := by
  rcases isUriChar_iff.mp allowed with alphanumeric | mark
  · have := toNat_of_isAlphanum alphanumeric
    omega
  · have all : ∀ c ∈ urlMarks, c.toNat < 0x80 := by simp [urlMarks]
    exact all c mark

theorem isUriChar_of_isHex (digit : isHex c = true) : isUriChar c = true := by
  refine isUriChar_iff.mpr (.inl ?_)
  have range := isHex_iff.mp digit
  change 48 ≤ c.toNat ∧ c.toNat ≤ 57 ∨ 65 ≤ c.toNat ∧ c.toNat ≤ 70 ∨
    97 ≤ c.toNat ∧ c.toNat ≤ 102 at range
  change (decide (65 ≤ c.toNat ∧ c.toNat ≤ 90) ||
    decide (97 ≤ c.toNat) && decide (c.toNat ≤ 122) ||
    decide (48 ≤ c.toNat) && decide (c.toNat ≤ 57)) = true
  simp only [Bool.or_eq_true, Bool.and_eq_true, decide_eq_true_eq]
  omega

theorem ne_percent_of_isUriChar (allowed : isUriChar c = true) : c ≠ '%' := by
  rintro rfl
  revert allowed
  decide

end Characters

section Text

variable {c : Char} {cs rest : List Char}

theorem isEscaped_iff : isEscaped cs = true ↔
    ∃ high low rest, cs = high :: low :: rest ∧ isHex high = true ∧ isHex low = true := by
  match cs with
  | [] => simp [isEscaped]
  | [h] => simp [isEscaped]
  | h :: l :: rest => simp [isEscaped]

/-- Whether encoding keeps a character, by the text after it. -/
def isKept (c : Char) (rest : List Char) : Bool := isUriChar c || c = '%' && isEscaped rest

theorem isKept_iff : isKept c rest = true ↔ isUriChar c = true ∨ c = '%' ∧ isEscaped rest = true := by
  simp [isKept]

theorem encodeUri_of_kept (kept : isKept c rest = true) :
    encodeUri (c :: rest) = c :: encodeUri rest := by
  rw [encodeUri_cons, encodeOne, ← isKept, if_pos kept, List.singleton_append]

theorem encodeUri_of_not_kept (lost : isKept c rest = false) :
    encodeUri (c :: rest) = escapeChar c ++ encodeUri rest := by
  rw [encodeUri_cons, encodeOne, ← isKept, lost, if_neg Bool.false_ne_true]

theorem isUrlText_nil : IsUrlText [] := ⟨by simp, by simp⟩

theorem isUrlText_cons : IsUrlText (c :: rest) ↔ isKept c rest = true ∧ IsUrlText rest := by
  rw [isKept_iff, isEscaped_iff]
  constructor
  · rintro ⟨allowed, escapes⟩
    refine ⟨?_, fun d member => allowed d (List.mem_cons_of_mem c member), ?_⟩
    · rcases allowed c List.mem_cons_self with letter | mark | rfl
      · exact .inl (isUriChar_iff.mpr (.inl letter))
      · exact .inl (isUriChar_iff.mpr (.inr mark))
      · obtain ⟨high, low, more, split, first, second⟩ := escapes [] rest rfl
        exact .inr ⟨rfl, high, low, more, split, isHex_iff.mpr first, isHex_iff.mpr second⟩
    · rintro before after rfl
      exact escapes (c :: before) after rfl
  · rintro ⟨first, allowed, escapes⟩
    -- A `%` is the first character itself, or one of the rest.
    refine ⟨fun d member => ?_, fun before after split => ?_⟩
    · rcases List.mem_cons.mp member with rfl | later
      · rcases first with plain | ⟨percent, _⟩
        · exact (isUriChar_iff.mp plain).imp_right .inl
        · exact .inr (.inr percent)
      · exact allowed d later
    · obtain ⟨rfl, same⟩ | ⟨front, rfl, later⟩ := List.cons_eq_append_iff.mp split
      · obtain ⟨rfl, rfl⟩ := List.cons.inj same
        rcases first with plain | ⟨_, high, low, more, whole, first, second⟩
        · exact absurd rfl (ne_percent_of_isUriChar plain)
        · exact ⟨high, low, more, whole, isHex_iff.mp first, isHex_iff.mp second⟩
      · exact escapes front after later

theorem isUrlText_escapes {octets : List Nat} (small : ∀ octet ∈ octets, octet < 256)
    (text : IsUrlText cs) : IsUrlText (octets.flatMap escape ++ cs) := by
  have digit {n : Nat} (bound : n < 16) (rest : List Char) : isKept (hexDigit n) rest = true := by
    rw [isKept, isUriChar, isAlphanum_hexDigit n bound]
    rfl
  induction octets with
  | nil => exact text
  | cons octet octets ih =>
    have bound := small octet List.mem_cons_self
    have high : octet / 16 < 16 := by omega
    have low : octet % 16 < 16 := by omega
    have later := ih fun o member => small o (List.mem_cons_of_mem _ member)
    simp only [List.flatMap_cons, escape, List.cons_append, List.nil_append]
    refine isUrlText_cons.mpr ⟨?_, isUrlText_cons.mpr ⟨digit high _,
      isUrlText_cons.mpr ⟨digit low _, later⟩⟩⟩
    simp [isKept, isEscaped, isHex_hexDigit high, isHex_hexDigit low]

/-- The digits of an escape are kept. -/
theorem encodeUri_digits {high low : Char} (first : isHex high = true) (second : isHex low = true)
    (rest : List Char) : encodeUri (high :: low :: rest) = high :: low :: encodeUri rest := by
  rw [encodeUri_cons_of_isUriChar (isUriChar_of_isHex first),
    encodeUri_cons_of_isUriChar (isUriChar_of_isHex second)]

/-- An escape is still one in front of the encoded text. -/
theorem isEscaped_encodeUri (escaped : isEscaped cs = true) : isEscaped (encodeUri cs) = true := by
  obtain ⟨high, low, rest, rfl, first, second⟩ := isEscaped_iff.mp escaped
  rw [encodeUri_digits first second, isEscaped, first, second]
  rfl

theorem isUrlText_encodeUri (cs : List Char) : IsUrlText (encodeUri cs) := by
  induction cs with
  | nil => exact isUrlText_nil
  | cons c rest ih =>
    cases kept : isKept c rest with
    | true =>
      rw [encodeUri_of_kept kept]
      refine isUrlText_cons.mpr ⟨isKept_iff.mpr ?_, ih⟩
      exact (isKept_iff.mp kept).imp_right (And.imp_right isEscaped_encodeUri)
    | false =>
      rw [encodeUri_of_not_kept kept]
      exact isUrlText_escapes (fun _ member => Utf8.lt_of_mem_encodeChar member) ih

theorem length_escapeChar (c : Char) : 3 ≤ (escapeChar c).length := by
  obtain ⟨octet, more, octets⟩ := List.exists_cons_of_ne_nil (Utf8.encodeChar_ne_nil c)
  rw [escapeChar, octets, List.flatMap_cons, escape]
  simp only [List.length_append, List.length_cons]
  omega

theorem length_le_length_encodeUri (cs : List Char) : cs.length ≤ (encodeUri cs).length := by
  induction cs with
  | nil => exact Nat.zero_le _
  | cons c rest ih =>
    cases kept : isKept c rest with
    | true =>
      rw [encodeUri_of_kept kept]
      exact Nat.succ_le_succ ih
    | false =>
      have longer := length_escapeChar c
      rw [encodeUri_of_not_kept kept, List.length_append, List.length_cons]
      omega

/-- What is escaped makes the text longer, so only such a text is left as it is. -/
theorem encodeUri_eq_self_iff (cs : List Char) : encodeUri cs = cs ↔ IsUrlText cs := by
  induction cs with
  | nil => exact iff_of_true rfl isUrlText_nil
  | cons c rest ih =>
    rw [isUrlText_cons]
    cases kept : isKept c rest with
    | true =>
      rw [encodeUri_of_kept kept, List.cons_inj_right, ih]
      exact (and_iff_right rfl).symm
    | false =>
      refine iff_of_false (fun same => ?_) (fun text => Bool.false_ne_true text.1)
      have longer := length_escapeChar c
      have rest_ := length_le_length_encodeUri rest
      have lengths := congrArg List.length same
      rw [encodeUri_of_not_kept kept, List.length_append, List.length_cons] at lengths
      omega

end Text

section Decode

theorem decode_hex {high low : Nat} {h l : Nat} (first : hexValue high = some h)
    (second : hexValue low = some l) (rest : List Nat) :
    decode (37 :: high :: low :: rest) = (h * 16 + l) :: decode rest := by
  have whole : escaped? 37 high low = some (h * 16 + l) := by
    rw [escaped?, if_pos rfl, first, second]
  simp only [decode, whole]

theorem decode_free {octets : List Nat} (free : 37 ∉ octets) (rest : List Nat) :
    decode (octets ++ rest) = octets ++ decode rest := by
  induction octets with
  | nil => rfl
  | cons b octets ih =>
    obtain ⟨other, free⟩ := List.ne_and_not_mem_of_not_mem_cons free
    rw [List.cons_append, decode_cons_of_ne other.symm, ih free, List.cons_append]

theorem hexValue_lt {code value : Nat} (digit : hexValue code = some value) : code < 0x80 := by
  unfold hexValue at digit
  grind

/-- A `%` in front of no two digits is left alone. -/
theorem decode_percent {cs : List Char} (open_ : isEscaped cs = false) :
    decode (37 :: Utf8.encode cs) = 37 :: decode (Utf8.encode cs) := by
  match octets : Utf8.encode cs with
  | [] => rfl
  | [b] => rfl
  | b :: l :: tail =>
    have none_ : escaped? 37 b l = none := by
      rw [escaped?, if_pos rfl]
      cases first : hexValue b with
      | none => rfl
      | some high =>
        cases second : hexValue l with
        | none => rfl
        | some low =>
          -- Then the text begins with these two digits.
          obtain ⟨c, rest, rfl, rfl, later⟩ := Utf8.exists_of_encode_eq (hexValue_lt first) octets
          obtain ⟨d, more, rfl, rfl, _⟩ := Utf8.exists_of_encode_eq (hexValue_lt second) later
          simp [isEscaped, isHex, first, second] at open_
    simp only [decode, none_]

theorem encode_escapeChar (c : Char) : Utf8.encode (escapeChar c) = (escapeChar c).map Char.toNat := by
  refine Utf8.encode_of_ascii fun d member => ?_
  obtain ⟨octet, part, inside⟩ := List.mem_flatMap.mp member
  rcases mem_escape (Utf8.lt_of_mem_encodeChar part) inside with rfl | unreserved
  · decide
  · exact toNat_lt_of_isUnreserved unreserved

/-- A character that is not kept decodes to its octets, escaped or not. -/
theorem decode_of_not_kept {c : Char} {rest : List Char} (lost : isKept c rest = false) :
    decode (Utf8.encode (c :: rest)) = Utf8.encodeChar c ++ decode (Utf8.encode rest) := by
  rw [Utf8.encode_cons]
  by_cases percent : c = '%'
  · subst percent
    exact decode_percent ((Bool.or_eq_false_iff.mp lost).2)
  · have other : c.toNat ≠ 37 := fun same => percent (Char.toNat_inj.mp same)
    exact decode_free (Utf8.not_mem_encodeChar (by decide) other) _

/-- Encoding does not change what a text decodes to. -/
theorem decode_encodeUri (cs : List Char) :
    decode (Utf8.encode (encodeUri cs)) = decode (Utf8.encode cs) := by
  match cs with
  | [] => rfl
  | c :: rest =>
    cases kept : isKept c rest with
    | true =>
      rw [encodeUri_of_kept kept]
      rcases isKept_iff.mp kept with plain | ⟨rfl, escaped⟩
      · have octet := Utf8.encodeChar_of_ascii (toNat_lt_of_isUriChar plain)
        have other : c.toNat ≠ 37 := fun same => ne_percent_of_isUriChar plain (Char.toNat_inj.mp same)
        rw [Utf8.encode_cons, Utf8.encode_cons, octet, List.singleton_append, List.singleton_append,
          decode_cons_of_ne other, decode_cons_of_ne other, decode_encodeUri rest]
      · -- An escape is read as a whole, so the induction goes on after it.
        obtain ⟨high, low, more, rfl, first, second⟩ := isEscaped_iff.mp escaped
        obtain ⟨h, first_⟩ := Option.isSome_iff_exists.mp first
        obtain ⟨l, second_⟩ := Option.isSome_iff_exists.mp second
        have octets (tail : List Char) : Utf8.encode ('%' :: high :: low :: tail) =
            37 :: high.toNat :: low.toNat :: Utf8.encode tail := by
          rw [Utf8.encode_cons, Utf8.encode_cons, Utf8.encode_cons,
            Utf8.encodeChar_of_ascii (hexValue_lt first_),
            Utf8.encodeChar_of_ascii (hexValue_lt second_)]
          rfl
        rw [encodeUri_digits first second, octets, octets, decode_hex first_ second_,
          decode_hex first_ second_, decode_encodeUri more]
    | false =>
      rw [encodeUri_of_not_kept kept, Utf8.encode_append, encode_escapeChar, escapeChar,
        decode_escapes fun _ member => Utf8.lt_of_mem_encodeChar member, decode_encodeUri rest,
        decode_of_not_kept kept]

end Decode

end Percent

namespace Request

/-- Encoding a URL makes it a text of letters, digits, marks and escapes, with the octets that it had
before, and does nothing to a text that is one. A query is encoded apart from what stands before it. -/
theorem encodeUri_projects (url query : String) :
    Percent.IsUrlText (encodeUri url).toList ∧
      Percent.decode (Utf8.encode (encodeUri url).toList) = Percent.decode (Utf8.encode url.toList) ∧
      (encodeUri url = url ↔ Percent.IsUrlText url.toList) ∧
      encodeUri (encodeUri url) = encodeUri url ∧
      encodeUri (url ++ "?" ++ query) = encodeUri url ++ "?" ++ encodeUri query := by
  have text (s : String) : (encodeUri s).toList = Percent.encodeUri s.toList := String.toList_ofList
  have fixed (s : String) : encodeUri s = s ↔ Percent.IsUrlText s.toList := by
    rw [← String.toList_inj, text, Percent.encodeUri_eq_self_iff]
  have written : Percent.IsUrlText (encodeUri url).toList :=
    text url ▸ Percent.isUrlText_encodeUri url.toList
  refine ⟨written, ?_, fixed url, (fixed (encodeUri url)).mpr written, encodeUri_question url query⟩
  rw [text, Percent.decode_encodeUri]

end Request

end HttpWorkflow
