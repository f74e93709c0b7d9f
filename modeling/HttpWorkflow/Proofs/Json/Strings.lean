import HttpWorkflow.Json.Printer
import HttpWorkflow.Json.Reader
import Mathlib.Data.Option.Basic

/-! Strings in JSON text.

What is written of a string reads back as that string. In the other direction, a string takes up at
least as many characters as it has, and just as many only when it stands there as it is.
-/

set_option autoImplicit false

namespace HttpWorkflow.Json

/-- A character that stands for itself inside a string literal. -/
def isPlain (c : Char) : Bool := 32 ≤ c.toNat && c ≠ '"' && c ≠ '\\'

theorem isPlain_iff {c : Char} : isPlain c ↔ 32 ≤ c.toNat ∧ c ≠ '"' ∧ c ≠ '\\' := by
  simp [isPlain, and_assoc]

/-- The four ways in which the contents of a string can go on. -/
theorem readString_cases {fuel : Nat} {cs s rest : List Char}
    (read : readString (fuel + 1) cs = some (s, rest)) :
    (cs = '"' :: rest ∧ s = []) ∨
      (∃ c more tail after, cs = '\\' :: 'u' :: more ∧ readUnicode more = some (c, after) ∧
        readString fuel after = some (tail, rest) ∧ s = c :: tail) ∨
      (∃ e c more tail, cs = '\\' :: e :: more ∧ simpleEscape e = some c ∧
        readString fuel more = some (tail, rest) ∧ s = c :: tail) ∨
      (∃ c more tail, cs = c :: more ∧ isPlain c ∧ readString fuel more = some (tail, rest) ∧
        s = c :: tail) := by
  unfold readString at read
  split at read
  · simp at read
  · simp only [Option.some.injEq, Prod.mk.injEq] at read
    obtain ⟨rfl, rfl⟩ := read
    exact Or.inl ⟨rfl, rfl⟩
  · next more =>
    obtain ⟨⟨c, after⟩, unicode, read⟩ := Option.bind_eq_some_iff.mp read
    obtain ⟨⟨tail, final⟩, later, read⟩ := Option.bind_eq_some_iff.mp read
    simp only [pure, Option.some.injEq, Prod.mk.injEq] at read
    obtain ⟨rfl, rfl⟩ := read
    exact Or.inr (Or.inl ⟨c, more, tail, after, rfl, unicode, later, rfl⟩)
  · next e more _ =>
    obtain ⟨c, escape, read⟩ := Option.bind_eq_some_iff.mp read
    obtain ⟨⟨tail, final⟩, later, read⟩ := Option.bind_eq_some_iff.mp read
    simp only [pure, Option.some.injEq, Prod.mk.injEq] at read
    obtain ⟨rfl, rfl⟩ := read
    exact Or.inr (Or.inr (Or.inl ⟨e, c, more, tail, rfl, escape, later, rfl⟩))
  · next c more notQuote _ _ =>
    obtain ⟨_, plain, read⟩ := Option.bind_eq_some_iff.mp read
    obtain ⟨⟨tail, final⟩, later, read⟩ := Option.bind_eq_some_iff.mp read
    simp only [pure, Option.some.injEq, Prod.mk.injEq] at read
    obtain ⟨rfl, rfl⟩ := read
    have shown := (Option.guard_eq_some' _).mp plain
    have plain : isPlain c := isPlain_iff.mpr ⟨shown.1, fun same => notQuote same, shown.2⟩
    exact Or.inr (Or.inr (Or.inr ⟨c, more, tail, rfl, plain, later, rfl⟩))

theorem length_hexWord {cs rest : List Char} {n : Nat} (read : hexWord cs = some (n, rest)) :
    rest.length + 4 = cs.length := by
  unfold hexWord at read
  split at read
  · simp only [Option.bind_eq_bind, Option.bind_eq_some_iff, pure, Option.some.injEq,
      Prod.mk.injEq] at read
    obtain ⟨_, _, _, _, _, _, _, _, _, rfl⟩ := read
    rfl
  · simp at read

theorem length_readUnicode {cs rest : List Char} {c : Char}
    (read : readUnicode cs = some (c, rest)) : rest.length + 4 ≤ cs.length := by
  unfold readUnicode at read
  obtain ⟨⟨n, after⟩, first, read⟩ := Option.bind_eq_some_iff.mp read
  have := length_hexWord first
  simp only at read
  split at read
  · split at read
    · next more =>
      obtain ⟨⟨low, final⟩, second, read⟩ := Option.bind_eq_some_iff.mp read
      obtain ⟨_, _, read⟩ := Option.bind_eq_some_iff.mp read
      simp only [pure, Option.some.injEq, Prod.mk.injEq] at read
      obtain ⟨_, rfl⟩ := read
      have := length_hexWord second
      simp only [List.length_cons] at *
      omega
    · simp at read
  · obtain ⟨_, _, read⟩ := Option.bind_eq_some_iff.mp read
    simp only [pure, Option.some.injEq, Prod.mk.injEq] at read
    obtain ⟨_, rfl⟩ := read
    omega

theorem length_readString {fuel : Nat} {cs s rest : List Char}
    (read : readString fuel cs = some (s, rest)) : s.length + 1 + rest.length ≤ cs.length := by
  induction fuel generalizing cs s with
  | zero => simp [readString] at read
  | succ fuel ih =>
    rcases readString_cases read with ⟨rfl, rfl⟩ | ⟨c, more, tail, after, rfl, unicode, later, rfl⟩ |
      ⟨e, c, more, tail, rfl, escape, later, rfl⟩ | ⟨c, more, tail, rfl, plain, later, rfl⟩
    · simp
      omega
    · have := length_readUnicode unicode
      have := ih later
      simp only [List.length_cons]
      omega
    · have := ih later
      simp only [List.length_cons]
      omega
    · have := ih later
      simp only [List.length_cons]
      omega

/-- A string that takes up no more characters than it has is written without escapes. -/
theorem isPlain_of_readString {fuel : Nat} {cs s rest : List Char}
    (read : readString fuel cs = some (s, rest))
    (tight : cs.length ≤ s.length + 1 + rest.length) : ∀ c ∈ s, isPlain c := by
  induction fuel generalizing cs s with
  | zero => simp [readString] at read
  | succ fuel ih =>
    rcases readString_cases read with ⟨rfl, rfl⟩ | ⟨c, more, tail, after, rfl, unicode, later, rfl⟩ |
      ⟨e, c, more, tail, rfl, escape, later, rfl⟩ | ⟨c, more, tail, rfl, plain, later, rfl⟩
    · simp
    · have := length_readUnicode unicode
      have := length_readString later
      simp only [List.length_cons] at tight
      omega
    · have := length_readString later
      simp only [List.length_cons] at tight
      omega
    · have rest := ih later (by simp only [List.length_cons] at tight; omega)
      exact List.forall_mem_cons.mpr ⟨plain, rest⟩

section Escapes

theorem hexWord_hexLower {n : Nat} (small : n < 32) (rest : List Char) :
    hexWord ('0' :: '0' :: hexLower (n / 16) :: hexLower (n % 16) :: rest) = some (n, rest) := by
  have digits : ∀ n < 32, Percent.hexValue (hexLower (n / 16)).toNat = some (n / 16) ∧
      Percent.hexValue (hexLower (n % 16)).toNat = some (n % 16) := by decide
  have zero : Percent.hexValue '0'.toNat = some 0 := by decide
  obtain ⟨high, low⟩ := digits n small
  simp only [hexWord, zero, high, low, Option.bind_eq_bind, Option.bind_some, pure,
    Option.some.injEq, Prod.mk.injEq, and_true]
  omega

theorem readUnicode_hexLower {n : Nat} (small : n < 32) (rest : List Char) :
    readUnicode ('0' :: '0' :: hexLower (n / 16) :: hexLower (n % 16) :: rest) =
      some (Char.ofNat n, rest) := by
  have notHigh : ¬(0xD800 ≤ n ∧ n < 0xDC00) := by omega
  have notLow : ¬(0xDC00 ≤ n ∧ n < 0xE000) := by omega
  simp only [readUnicode, hexWord_hexLower small, Option.bind_eq_bind, Option.bind_some,
    if_neg notHigh, guard, if_pos notLow, pure]

theorem readString_plain (fuel : Nat) {c : Char} (plain : isPlain c) (rest : List Char) :
    readString (fuel + 1) (c :: rest) =
      (readString fuel rest).map fun (s, after) => (c :: s, after) := by
  obtain ⟨high, notQuote, notSlash⟩ := isPlain_iff.mp plain
  rw [readString]
  · simp [guard, high, notSlash, Option.map_eq_bind, pure]
  all_goals simp_all

theorem readString_simple (fuel : Nat) {e c : Char} (escape : simpleEscape e = some c)
    (rest : List Char) :
    readString (fuel + 1) ('\\' :: e :: rest) =
      (readString fuel rest).map fun (s, after) => (c :: s, after) := by
  rw [readString]
  · simp [escape, Option.map_eq_bind, pure]
  · rintro rfl
    simp [simpleEscape] at escape

theorem readString_escapeChar (fuel : Nat) (c : Char) (rest : List Char) :
    readString (fuel + 1) (escapeChar c ++ rest) =
      (readString fuel rest).map fun (s, after) => (c :: s, after) := by
  -- The cases are in the order in which the printer tries them.
  have numbered {n : Nat} (same : c.toNat = n) : Char.ofNat n = c := by
    rw [← same, Char.ofNat_toNat]
  unfold escapeChar
  split
  · next same => exact readString_simple fuel (by simp [simpleEscape, same]) rest
  split
  · next same => exact readString_simple fuel (by simp [simpleEscape, same]) rest
  split
  · next same => exact readString_simple fuel (by simp [simpleEscape, same]) rest
  split
  · next same => exact readString_simple fuel (by simp [simpleEscape, same]) rest
  split
  · next same => exact readString_simple fuel (by simp [simpleEscape, same]) rest
  split
  · next same => exact readString_simple fuel (by simp only [simpleEscape, numbered same]) rest
  split
  · next same => exact readString_simple fuel (by simp only [simpleEscape, numbered same]) rest
  split
  · next small =>
    simp only [List.cons_append, List.nil_append, readString, readUnicode_hexLower small,
      Char.ofNat_toNat, Option.map_eq_bind, Option.bind_eq_bind, Option.bind_some, pure]
    rfl
  · next notQuote notSlash _ _ _ _ _ large =>
    exact readString_plain fuel (isPlain_iff.mpr ⟨by omega, notQuote, notSlash⟩) rest

/-- What is written of a string reads back, given fuel for its characters and the quote. -/
theorem readString_escape {fuel : Nat} {s : List Char} (enough : s.length < fuel)
    (rest : List Char) : readString fuel (s.flatMap escapeChar ++ '"' :: rest) = some (s, rest) := by
  induction s generalizing fuel with
  | nil =>
    obtain ⟨fuel, rfl⟩ := Nat.exists_eq_add_of_lt enough
    rw [List.flatMap_nil, List.nil_append, readString]
  | cons c s ih =>
    cases fuel with
    | zero => simp at enough
    | succ fuel =>
      rw [List.flatMap_cons, List.append_assoc, readString_escapeChar,
        ih (by simpa using enough)]
      rfl

theorem escapeChar_ne_nil (c : Char) : escapeChar c ≠ [] := by
  unfold escapeChar
  repeat' split
  all_goals simp

theorem length_le_length_escape (s : List Char) : s.length ≤ (s.flatMap escapeChar).length := by
  induction s with
  | nil => simp
  | cons c s ih =>
    have := List.length_pos_iff.mpr (escapeChar_ne_nil c)
    simp only [List.flatMap_cons, List.length_append, List.length_cons]
    omega

/-- The characters that escapes are made of. -/
def escapeLetters : List Char := "\\\"nrtbfu0123456789abcdef".toList

theorem mem_escapeChar {c d : Char} (member : d ∈ escapeChar c) : d = c ∨ d ∈ escapeLetters := by
  have digit : ∀ n < 16, hexLower n ∈ escapeLetters := by decide
  have short : ∀ e ∈ escapeLetters, d ∈ ['\\', e] → d ∈ escapeLetters := by
    intro e known member
    simp only [List.mem_cons, List.not_mem_nil, or_false] at member
    rcases member with rfl | rfl
    · decide
    · exact known
  unfold escapeChar at member
  repeat' split at member
  · exact .inr (short _ (by decide) member)
  · exact .inr (short _ (by decide) member)
  · exact .inr (short _ (by decide) member)
  · exact .inr (short _ (by decide) member)
  · exact .inr (short _ (by decide) member)
  · exact .inr (short _ (by decide) member)
  · exact .inr (short _ (by decide) member)
  · next small =>
    have high := digit (c.toNat / 16) (by omega)
    have low := digit (c.toNat % 16) (by omega)
    have front : ['\\', 'u', '0', '0'].all fun e => decide (e ∈ escapeLetters) := by decide
    rcases List.mem_append.mp (show d ∈ ['\\', 'u', '0', '0'] ++ [_, _] from member) with
      fixed | digits
    · exact .inr (of_decide_eq_true (List.all_eq_true.mp front d fixed))
    · simp only [List.mem_cons, List.not_mem_nil, or_false] at digits
      rcases digits with rfl | rfl
      · exact .inr high
      · exact .inr low
  · exact .inl (List.mem_singleton.mp member)

/-- What holds of all characters of a text and of an escape holds of those that are written. -/
theorem forall_mem_escape {p : Char → Prop} {s : List Char} (letters : ∀ d ∈ escapeLetters, p d)
    (all : ∀ c ∈ s, p c) : ∀ d ∈ s.flatMap escapeChar, p d := by
  intro d member
  obtain ⟨c, inside, member⟩ := List.mem_flatMap.mp member
  rcases mem_escapeChar member with rfl | letter
  · exact all _ inside
  · exact letters d letter

theorem escapeChar_of_isPlain {c : Char} (plain : isPlain c) : escapeChar c = [c] := by
  obtain ⟨high, notQuote, notSlash⟩ := isPlain_iff.mp plain
  have unlike {d : Char} (low : d.toNat < 32) : c ≠ d := by
    rintro rfl
    omega
  simp only [escapeChar, if_neg notQuote, if_neg notSlash, if_neg (@unlike '\n' (by decide)),
    if_neg (@unlike '\r' (by decide)), if_neg (@unlike '\t' (by decide))]
  rw [if_neg (by omega), if_neg (by omega), if_neg (by omega)]

theorem escape_of_plain {s : List Char} (plain : ∀ c ∈ s, isPlain c) : s.flatMap escapeChar = s := by
  induction s with
  | nil => rfl
  | cons c s ih =>
    obtain ⟨first, others⟩ := List.forall_mem_cons.mp plain
    rw [List.flatMap_cons, escapeChar_of_isPlain first, ih others, List.singleton_append]

/-- Whatever does not stand for itself is written with a backslash, and a backslash with two. -/
theorem count_lt_count_escapeChar {c : Char} (special : isPlain c = false) :
    [c].count '\\' < (escapeChar c).count '\\' := by
  by_cases slash : c = '\\'
  · subst slash
    decide
  · have none_ : [c].count '\\' = 0 := by simp [slash]
    have begins : ∃ more, escapeChar c = '\\' :: more := by
      unfold escapeChar
      repeat' split
      any_goals exact ⟨_, rfl⟩
      next notQuote _ _ _ _ _ large =>
        simp [isPlain, notQuote, slash, Nat.le_of_not_lt large] at special
    obtain ⟨more, same⟩ := begins
    rw [none_, same, List.count_cons_self]
    omega

theorem count_le_count_escape (s : List Char) : s.count '\\' ≤ (s.flatMap escapeChar).count '\\' := by
  induction s with
  | nil => exact Nat.le_refl _
  | cons c s ih =>
    have first : [c].count '\\' ≤ (escapeChar c).count '\\' := by
      cases plain : isPlain c with
      | true => exact Nat.le_of_eq (by rw [escapeChar_of_isPlain plain])
      | false => exact Nat.le_of_lt (count_lt_count_escapeChar plain)
    rw [← List.singleton_append, List.count_append, List.flatMap_append, List.count_append,
      List.flatMap_singleton]
    exact Nat.add_le_add first ih

theorem count_lt_count_escape {s : List Char} (special : ¬∀ c ∈ s, isPlain c) :
    s.count '\\' < (s.flatMap escapeChar).count '\\' := by
  obtain ⟨c, member, written⟩ : ∃ c ∈ s, isPlain c = false := by simpa using special
  obtain ⟨front, rest, rfl⟩ := List.append_of_mem member
  have before := count_le_count_escape front
  have here := count_lt_count_escapeChar written
  have after := count_le_count_escape rest
  rw [← List.singleton_append, List.count_append, List.count_append, List.flatMap_append,
    List.flatMap_append, List.count_append, List.count_append, List.flatMap_singleton]
  omega

end Escapes

end HttpWorkflow.Json
