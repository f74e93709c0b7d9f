import HttpWorkflow.Proofs.Json.Strings
import Mathlib.Algebra.Ring.Nat

/-! What the reader of JSON consumes.

`readValue_cases`, `readItems_cases` and `readMembers_cases` say all that one call of the reader can
do. The weight of a member bounds the text that it was read from, from below: a string weighs its
characters and its quotes, and any other value counts for nothing.
-/

set_option autoImplicit false

namespace HttpWorkflow.Json

theorem length_skipBlanks_le (cs : List Char) : (skipBlanks cs).length ≤ cs.length :=
  (List.dropWhile_sublist _).length_le

section Cases

variable {fuel depth : Nat} {cs rest : List Char}

def words : List (String × Json) := [("null", null), ("true", bool true), ("false", bool false)]

theorem readWord_eq_some {word : String} {value v : Json}
    (read : readWord word value cs = some (v, rest)) : v = value ∧ cs = word.toList ++ rest := by
  unfold readWord at read
  split at read
  · next start =>
    obtain ⟨after, rfl⟩ := List.isPrefixOf_iff_prefix.mp start
    simp only [Option.some.injEq, Prod.mk.injEq] at read
    obtain ⟨rfl, rfl⟩ := read
    rw [← String.length_toList, List.drop_left]
    exact ⟨rfl, rfl⟩
  · simp at read

theorem readValue_cases {v : Json} (read : readValue (fuel + 1) depth cs = some (v, rest)) :
    (∃ more s, skipBlanks cs = '"' :: more ∧
      readString (more.length + 1) more = some (s, rest) ∧ v = string (String.ofList s)) ∨
    (∃ more items, skipBlanks cs = '[' :: more ∧ v = array items ∧
      (skipBlanks more = ']' :: rest ∧ items = [] ∨
        (∀ after, skipBlanks more ≠ ']' :: after) ∧
          readItems fuel (depth - 1) (skipBlanks more) = some (items, rest))) ∨
    (∃ more members, skipBlanks cs = '\x7b' :: more ∧ v = object members ∧
      (skipBlanks more = '\x7d' :: rest ∧ members = [] ∨
        (∀ after, skipBlanks more ≠ '\x7d' :: after) ∧
          readMembers fuel (depth - 1) (skipBlanks more) = some (members, rest))) ∨
    (∃ word, (word, v) ∈ words ∧ skipBlanks cs = word.toList ++ rest) ∨
    readNumber (skipBlanks cs) = some (v, rest) := by
  unfold readValue at read
  split at read
  · simp at read
  · next more start =>
    obtain ⟨⟨s, after⟩, string, read⟩ := Option.bind_eq_some_iff.mp read
    simp only [pure, Option.some.injEq, Prod.mk.injEq] at read
    obtain ⟨rfl, rfl⟩ := read
    exact Or.inl ⟨more, s, start, string, rfl⟩
  · next more start =>
    obtain ⟨_, _, read⟩ := Option.bind_eq_some_iff.mp read
    simp only at read
    split at read
    · next after closed =>
      simp only [Option.bind_eq_bind, Option.bind_some, pure, Option.some.injEq,
        Prod.mk.injEq] at read
      obtain ⟨rfl, rfl⟩ := read
      exact Or.inr (Or.inl ⟨more, [], start, rfl, Or.inl ⟨closed, rfl⟩⟩)
    · next pending =>
      obtain ⟨⟨items, after⟩, inside, read⟩ := Option.bind_eq_some_iff.mp read
      simp only [pure, Option.some.injEq, Prod.mk.injEq] at read
      obtain ⟨rfl, rfl⟩ := read
      exact Or.inr (Or.inl ⟨more, items, start, rfl, Or.inr ⟨pending, inside⟩⟩)
  · next more start =>
    obtain ⟨_, _, read⟩ := Option.bind_eq_some_iff.mp read
    simp only at read
    split at read
    · next after closed =>
      simp only [Option.bind_eq_bind, Option.bind_some, pure, Option.some.injEq,
        Prod.mk.injEq] at read
      obtain ⟨rfl, rfl⟩ := read
      exact Or.inr (Or.inr (Or.inl ⟨more, [], start, rfl, Or.inl ⟨closed, rfl⟩⟩))
    · next pending =>
      obtain ⟨⟨members, after⟩, inside, read⟩ := Option.bind_eq_some_iff.mp read
      simp only [pure, Option.some.injEq, Prod.mk.injEq] at read
      obtain ⟨rfl, rfl⟩ := read
      exact Or.inr (Or.inr (Or.inl ⟨more, members, start, rfl, Or.inr ⟨pending, inside⟩⟩))
  · next start =>
    obtain ⟨rfl, same⟩ := readWord_eq_some read
    exact Or.inr (Or.inr (Or.inr (Or.inl ⟨"null", by simp [words], start.trans same⟩)))
  · next start =>
    obtain ⟨rfl, same⟩ := readWord_eq_some read
    exact Or.inr (Or.inr (Or.inr (Or.inl ⟨"true", by simp [words], start.trans same⟩)))
  · next start =>
    obtain ⟨rfl, same⟩ := readWord_eq_some read
    exact Or.inr (Or.inr (Or.inr (Or.inl ⟨"false", by simp [words], start.trans same⟩)))
  · exact Or.inr (Or.inr (Or.inr (Or.inr read)))

theorem readItems_cases {items : List Json}
    (read : readItems (fuel + 1) depth cs = some (items, rest)) :
    ∃ item after, readValue fuel depth cs = some (item, after) ∧
      ((∃ more others, skipBlanks after = ',' :: more ∧
          readItems fuel depth more = some (others, rest) ∧ items = item :: others) ∨
        skipBlanks after = ']' :: rest ∧ items = [item]) := by
  unfold readItems at read
  obtain ⟨⟨item, after⟩, first, read⟩ := Option.bind_eq_some_iff.mp read
  refine ⟨item, after, first, ?_⟩
  simp only at read
  split at read
  · next more sign =>
    obtain ⟨⟨others, final⟩, later, read⟩ := Option.bind_eq_some_iff.mp read
    simp only [pure, Option.some.injEq, Prod.mk.injEq] at read
    obtain ⟨rfl, rfl⟩ := read
    exact Or.inl ⟨more, others, sign, later, rfl⟩
  · next sign =>
    simp only [pure, Option.some.injEq, Prod.mk.injEq] at read
    obtain ⟨rfl, rfl⟩ := read
    exact Or.inr ⟨sign, rfl⟩
  · simp at read

theorem readMembers_cases {members : Members}
    (read : readMembers (fuel + 1) depth cs = some (members, rest)) :
    ∃ text key colon body value after, skipBlanks cs = '"' :: text ∧
      readString (text.length + 1) text = some (key, colon) ∧ skipBlanks colon = ':' :: body ∧
      readValue fuel depth body = some (value, after) ∧
      ((∃ more others, skipBlanks after = ',' :: more ∧
          readMembers fuel depth more = some (others, rest) ∧
          members = (String.ofList key, value) :: others) ∨
        skipBlanks after = '\x7d' :: rest ∧ members = [(String.ofList key, value)]) := by
  unfold readMembers at read
  split at read
  · next text start =>
    obtain ⟨⟨key, colon⟩, name, read⟩ := Option.bind_eq_some_iff.mp read
    simp only at read
    split at read
    · next body sign =>
      obtain ⟨⟨value, after⟩, first, read⟩ := Option.bind_eq_some_iff.mp read
      refine ⟨text, key, colon, body, value, after, start, name, sign, first, ?_⟩
      simp only at read
      split at read
      · next more sign =>
        obtain ⟨⟨others, final⟩, later, read⟩ := Option.bind_eq_some_iff.mp read
        simp only [pure, Option.some.injEq, Prod.mk.injEq] at read
        obtain ⟨rfl, rfl⟩ := read
        exact Or.inl ⟨more, others, sign, later, rfl⟩
      · next sign =>
        simp only [pure, Option.some.injEq, Prod.mk.injEq] at read
        obtain ⟨rfl, rfl⟩ := read
        exact Or.inr ⟨sign, rfl⟩
      · simp at read
    · simp at read
  · simp at read

end Cases

section Numbers

/-- The characters of numbers. -/
def isNumeric (c : Char) : Bool :=
  c.isDigit || c = '-' || c = '+' || c = '.' || c = 'e' || c = 'E'

/-- What the reader of numbers takes off the front of a text. -/
def Takes (cs rest : List Char) : Prop := ∃ used, cs = used ++ rest ∧ used.all isNumeric

theorem Takes.refl (cs : List Char) : Takes cs cs := ⟨[], rfl, rfl⟩

theorem Takes.trans {cs mid rest : List Char} (first : Takes cs mid) (second : Takes mid rest) :
    Takes cs rest := by
  obtain ⟨front, rfl, numeric⟩ := first
  obtain ⟨back, rfl, also⟩ := second
  exact ⟨front ++ back, (List.append_assoc ..).symm, by rw [List.all_append, numeric, also]; rfl⟩

theorem Takes.cons {c : Char} {cs rest : List Char} (numeric : isNumeric c) (later : Takes cs rest) :
    Takes (c :: cs) rest := by
  obtain ⟨used, rfl, also⟩ := later
  exact ⟨c :: used, rfl, by rw [List.all_cons, numeric, also]; rfl⟩

theorem takes_digits (cs : List Char) : Takes cs (cs.dropWhile Char.isDigit) := by
  refine ⟨cs.takeWhile Char.isDigit, List.takeWhile_append_dropWhile.symm, ?_⟩
  refine List.all_eq_true.mpr fun c member => ?_
  have digit := List.all_eq_true.mp List.all_takeWhile c member
  simp [isNumeric, digit]

theorem readSign_takes (cs : List Char) : Takes cs (readSign cs).2 := by
  fun_cases readSign cs with
  | case1 rest => exact Takes.cons rfl (Takes.refl rest)
  | case2 => exact Takes.refl cs

theorem readExponentSign_takes (cs : List Char) : Takes cs (readExponentSign cs).2 := by
  fun_cases readExponentSign cs with
  | case1 rest => exact Takes.cons rfl (Takes.refl rest)
  | case2 => exact readSign_takes cs

theorem readExponent_takes {cs rest : List Char} {e : Int}
    (read : readExponent cs = some (e, rest)) : Takes cs rest := by
  unfold readExponent at read
  dsimp only at read
  split at read
  · simp at read
  · simp only [Option.some.injEq, Prod.mk.injEq] at read
    obtain ⟨_, rfl⟩ := read
    exact (readExponentSign_takes cs).trans (takes_digits _)

theorem readFraction_takes {cs digits rest : List Char}
    (read : readFraction cs = some (digits, rest)) : Takes cs rest := by
  unfold readFraction at read
  split at read
  · dsimp only at read
    split at read
    · simp at read
    · simp only [Option.some.injEq, Prod.mk.injEq] at read
      obtain ⟨_, rfl⟩ := read
      exact Takes.cons rfl (takes_digits _)
  · simp only [Option.some.injEq, Prod.mk.injEq] at read
    obtain ⟨_, rfl⟩ := read
    exact Takes.refl _

theorem readPower_takes {cs rest : List Char} {e : Option Int}
    (read : readPower cs = some (e, rest)) : Takes cs rest := by
  unfold readPower at read
  split at read
  · obtain ⟨_, exponent, same⟩ := Option.map_eq_some_iff.mp read
    obtain ⟨_, rfl⟩ := Prod.mk.inj same
    exact Takes.cons rfl (readExponent_takes exponent)
  · obtain ⟨_, exponent, same⟩ := Option.map_eq_some_iff.mp read
    obtain ⟨_, rfl⟩ := Prod.mk.inj same
    exact Takes.cons rfl (readExponent_takes exponent)
  · simp only [Option.some.injEq, Prod.mk.injEq] at read
    obtain ⟨_, rfl⟩ := read
    exact Takes.refl _

theorem number?_ne_string {negative : Bool} {whole fraction : List Char} {exponent : Option Int}
    {v : Json} (made : number? negative whole fraction exponent = some v) (s : String) :
    v ≠ string s := by
  rintro rfl
  unfold number? at made
  dsimp only at made
  repeat' split at made
  all_goals simp at made

theorem readNumber_takes {cs rest : List Char} {v : Json}
    (read : readNumber cs = some (v, rest)) : Takes cs rest ∧ ∀ s, v ≠ string s := by
  obtain ⟨_, _, read⟩ := Option.bind_eq_some_iff.mp read
  obtain ⟨⟨fraction, after⟩, point, read⟩ := Option.bind_eq_some_iff.mp read
  obtain ⟨⟨exponent, final⟩, power, read⟩ := Option.bind_eq_some_iff.mp read
  obtain ⟨value, made, read⟩ := Option.bind_eq_some_iff.mp read
  simp only [pure, Option.some.injEq, Prod.mk.injEq] at read
  obtain ⟨rfl, rfl⟩ := read
  have whole := (readSign_takes cs).trans (takes_digits _)
  exact ⟨whole.trans ((readFraction_takes point).trans (readPower_takes power)),
    number?_ne_string made⟩

end Numbers

section Weight

def weight : Json → Nat
  | string s => s.length + 2
  | _ => 0

/-- A member has its key, two quotes, a colon, its value and the sign that ends it. -/
def memberWeight (m : String × Json) : Nat := m.1.length + weight m.2 + 4

def membersWeight (members : Members) : Nat := (members.map memberWeight).sum

@[simp] theorem membersWeight_nil : membersWeight [] = 0 := rfl

@[simp] theorem membersWeight_cons (m : String × Json) (members : Members) :
    membersWeight (m :: members) = memberWeight m + membersWeight members := rfl

theorem Takes.length_le {cs rest : List Char} (takes : Takes cs rest) :
    rest.length ≤ cs.length := by
  obtain ⟨used, rfl, _⟩ := takes
  simp

theorem weight_eq_zero {v : Json} (other : ∀ s, v ≠ string s) : weight v = 0 := by
  cases v with
  | string s => exact absurd rfl (other s)
  | _ => rfl

variable {depth : Nat} {cs rest : List Char}

mutual

theorem length_readValue {fuel depth : Nat} {cs rest : List Char} {v : Json}
    (read : readValue fuel depth cs = some (v, rest)) : weight v + rest.length ≤ cs.length := by
  cases fuel with
  | zero => simp [readValue] at read
  | succ fuel =>
    have skipped := length_skipBlanks_le cs
    rcases readValue_cases read with ⟨more, s, start, inside, rfl⟩ |
      ⟨more, items, start, rfl, ⟨closed, rfl⟩ | ⟨_, inside⟩⟩ |
      ⟨more, members, start, rfl, ⟨closed, rfl⟩ | ⟨_, inside⟩⟩ | ⟨word, known, start⟩ | number
    · have := length_readString inside
      simp only [start, List.length_cons] at skipped
      simp only [weight, String.length_ofList]
      omega
    · have := length_skipBlanks_le more
      simp only [start, closed, List.length_cons, weight] at *
      omega
    · have := length_skipBlanks_le more
      have := length_readItems inside
      simp only [start, List.length_cons, weight] at *
      omega
    · have := length_skipBlanks_le more
      simp only [start, closed, List.length_cons, weight] at *
      omega
    · have := length_skipBlanks_le more
      have := length_readMembers inside
      simp only [start, List.length_cons, weight] at *
      omega
    · have light : weight v = 0 := by
        simp only [words, List.mem_cons, Prod.mk.injEq, List.not_mem_nil, or_false] at known
        rcases known with ⟨_, rfl⟩ | ⟨_, rfl⟩ | ⟨_, rfl⟩ <;> rfl
      simp only [start, List.length_append] at skipped
      omega
    · obtain ⟨takes, other⟩ := readNumber_takes number
      have := takes.length_le
      rw [weight_eq_zero other]
      omega

theorem length_readItems {fuel depth : Nat} {cs rest : List Char} {items : List Json}
    (read : readItems fuel depth cs = some (items, rest)) : rest.length ≤ cs.length := by
  cases fuel with
  | zero => simp [readItems] at read
  | succ fuel =>
    obtain ⟨item, after, first, ⟨more, others, sign, later, rfl⟩ | ⟨sign, rfl⟩⟩ :=
      readItems_cases read
    · have := length_readValue first
      have skipped := length_skipBlanks_le after
      have := length_readItems later
      simp only [sign, List.length_cons] at skipped
      omega
    · have := length_readValue first
      have skipped := length_skipBlanks_le after
      simp only [sign, List.length_cons] at skipped
      omega

theorem length_readMembers {fuel depth : Nat} {cs rest : List Char} {members : Members}
    (read : readMembers fuel depth cs = some (members, rest)) :
    membersWeight members + rest.length ≤ cs.length := by
  cases fuel with
  | zero => simp [readMembers] at read
  | succ fuel =>
    obtain ⟨text, key, colon, body, value, after, start, name, sign, first, ending⟩ :=
      readMembers_cases read
    have skipped := length_skipBlanks_le cs
    have := length_readString name
    have between := length_skipBlanks_le colon
    have := length_readValue first
    have trailing := length_skipBlanks_le after
    simp only [start, List.length_cons] at skipped
    simp only [sign, List.length_cons] at between
    rcases ending with ⟨more, others, comma, later, rfl⟩ | ⟨brace, rfl⟩
    · have := length_readMembers later
      simp only [comma, List.length_cons] at trailing
      simp only [membersWeight_cons, memberWeight, String.length_ofList]
      omega
    · simp only [brace, List.length_cons] at trailing
      simp only [membersWeight_cons, membersWeight_nil, memberWeight, String.length_ofList]
      omega

end

theorem isPlain_of_readValue {fuel : Nat} {s : String}
    (read : readValue fuel depth cs = some (string s, rest))
    (tight : cs.length ≤ weight (string s) + rest.length) : ∀ c ∈ s.toList, isPlain c := by
  cases fuel with
  | zero => simp [readValue] at read
  | succ fuel =>
    have skipped := length_skipBlanks_le cs
    rcases readValue_cases read with ⟨more, t, start, inside, same⟩ | ⟨_, _, _, other, _⟩ |
      ⟨_, _, _, other, _⟩ | ⟨word, known, _⟩ | number
    · obtain rfl := string.inj same
      simp only [start, List.length_cons] at skipped
      simp only [weight, String.length_ofList] at tight
      rw [String.toList_ofList]
      exact isPlain_of_readString inside (by omega)
    · cases other
    · cases other
    · simp [words] at known
    · exact absurd rfl ((readNumber_takes number).2 s)

/-- Members in a text of just their weight have strings without escapes. -/
theorem isPlain_of_readMembers {fuel : Nat} {members : Members}
    (read : readMembers fuel depth cs = some (members, rest))
    (tight : cs.length ≤ membersWeight members + rest.length) :
    ∀ m ∈ members, ∀ s, m.2 = string s → ∀ c ∈ s.toList, isPlain c := by
  induction fuel generalizing cs members with
  | zero => simp [readMembers] at read
  | succ fuel ih =>
    obtain ⟨text, key, colon, body, value, after, start, name, sign, first, ending⟩ :=
      readMembers_cases read
    have skipped := length_skipBlanks_le cs
    have := length_readString name
    have between := length_skipBlanks_le colon
    have := length_readValue first
    have trailing := length_skipBlanks_le after
    simp only [start, List.length_cons] at skipped
    simp only [sign, List.length_cons] at between
    rcases ending with ⟨more, others, comma, later, rfl⟩ | ⟨brace, rfl⟩
    · have := length_readMembers later
      simp only [comma, List.length_cons] at trailing
      simp only [membersWeight_cons, memberWeight, String.length_ofList] at tight
      refine List.forall_mem_cons.mpr ⟨?_, ih later (by omega)⟩
      rintro s rfl
      exact isPlain_of_readValue first (by omega)
    · simp only [brace, List.length_cons] at trailing
      simp only [membersWeight_cons, membersWeight_nil, memberWeight, String.length_ofList] at tight
      refine List.forall_mem_cons.mpr ⟨?_, by simp⟩
      rintro s rfl
      exact isPlain_of_readValue first (by omega)

end Weight

end HttpWorkflow.Json
