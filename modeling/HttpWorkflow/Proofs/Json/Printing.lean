import HttpWorkflow.Proofs.Json.Collapse
import Mathlib.Data.List.Forall2

/-! What the reader of JSON makes of printed JSON.

A number does not always read back as the same number, and one with too large an exponent does not
read back at all. But whatever is read of a printed value ends where the value ends, or right
before a character of a number, which no sign between values is. So objects read back with their
keys and their strings.
-/

set_option autoImplicit false

namespace HttpWorkflow.Json

section Numbers

/-- The text of a number, as far as its characters go. -/
def Numeric (cs : List Char) : Prop := cs ≠ [] ∧ ∀ c ∈ cs, isNumeric c

theorem isNumeric_of_isDigit {c : Char} (digit : c.isDigit) : isNumeric c := by
  simp [isNumeric, digit]

theorem numeric_digits (n : Nat) : Numeric (Nat.toDigits 10 n) :=
  ⟨Nat.toDigits_ne_nil, fun _ member =>
    isNumeric_of_isDigit (Nat.isDigit_of_mem_toDigits (by decide) (by decide) member)⟩

theorem Numeric.append {cs ds : List Char} (first : Numeric cs) (second : ∀ c ∈ ds, isNumeric c) :
    Numeric (cs ++ ds) :=
  ⟨List.append_ne_nil_of_left_ne_nil first.1 ds,
    List.forall_mem_append.mpr ⟨first.2, second⟩⟩

theorem Numeric.cons {c : Char} {cs : List Char} (first : isNumeric c)
    (second : ∀ c ∈ cs, isNumeric c) : Numeric (c :: cs) :=
  ⟨List.cons_ne_nil c cs, List.forall_mem_cons.mpr ⟨first, second⟩⟩

theorem numeric_toString (n : Int) : Numeric (toString n).toList := by
  cases n with
  | ofNat n =>
    have same : (toString (Int.ofNat n)).toList = Nat.toDigits 10 n := Nat.toList_repr
    rw [same]
    exact numeric_digits n
  | negSucc n =>
    have same : (toString (Int.negSucc n)).toList = '-' :: Nat.toDigits 10 (n + 1) := by
      rw [Int.toString_eq_repr, Int.repr, String.toList_append, Nat.toList_repr]
      rfl
    rw [same]
    exact Numeric.cons rfl (numeric_digits (n + 1)).2

theorem numeric_zeros (n : Nat) : ∀ c ∈ List.replicate n '0', isNumeric c := by
  intro c member
  rw [List.eq_of_mem_replicate member]
  rfl

theorem numeric_positional (d : Decimal) : Numeric (Decimal.positional d).toList := by
  unfold Decimal.positional
  dsimp only
  split
  · rw [String.toList_append, String.toList_ofList]
    exact ((numeric_digits d.digits).append (numeric_zeros _)).append (List.all_eq_true.mp rfl)
  · rw [String.toList_ofList]
    refine ⟨by simp, ?_⟩
    have all : ∀ c ∈ List.replicate ((-d.exponent).toNat + 1 - (Nat.toDigits 10 d.digits).length) '0'
        ++ Nat.toDigits 10 d.digits, isNumeric c :=
      List.forall_mem_append.mpr ⟨numeric_zeros _, (numeric_digits d.digits).2⟩
    refine List.forall_mem_append.mpr ⟨fun c member => all c (List.mem_of_mem_take member), ?_⟩
    exact List.forall_mem_cons.mpr ⟨rfl, fun c member => all c (List.mem_of_mem_drop member)⟩

theorem numeric_scientific (plus : Bool) (d : Decimal) :
    Numeric (Decimal.scientific plus d).toList := by
  have digits := (numeric_digits d.digits).2
  have sign (e : Int) : ∀ c ∈ (if e < 0 then "-" else if plus then "+" else "").toList,
      isNumeric c := by
    repeat' split
    all_goals exact List.all_eq_true.mp rfl
  unfold Decimal.scientific
  dsimp only
  simp only [String.toList_append, String.toList_ofList, toString, Nat.toList_repr]
  refine ⟨by simp, List.forall_mem_append.mpr ⟨List.forall_mem_append.mpr
    ⟨List.forall_mem_append.mpr ⟨?_, List.all_eq_true.mp rfl⟩, sign _⟩, (numeric_digits _).2⟩⟩
  split
  · simp
  · next c single =>
    rw [single] at digits
    exact digits
  · next c rest _ several =>
    rw [several] at digits
    obtain ⟨first, others⟩ := List.forall_mem_cons.mp digits
    exact List.forall_mem_cons.mpr ⟨first, List.forall_mem_cons.mpr ⟨rfl, others⟩⟩

theorem Numeric.signed {text : String} (numeric : Numeric text.toList) (p : Prop) [Decidable p] :
    Numeric ((if p then "-" else "") ++ text).toList := by
  rw [String.toList_append]
  split
  · exact Numeric.cons (by decide) numeric.2
  · exact numeric

theorem floatText_cases (x : Float) : floatText x = "null" ∨ Numeric (floatText x).toList := by
  unfold floatText
  split
  · exact Or.inl rfl
  · unfold Decimal.Notation.render
    dsimp only
    split
    · exact Or.inl rfl
    · right
      split
      · split
        · exact ⟨by decide, List.all_eq_true.mp rfl⟩
        · exact ⟨by decide, List.all_eq_true.mp rfl⟩
      · refine Numeric.signed ?_ _
        split
        · exact numeric_positional _
        · exact numeric_scientific _ _

end Numbers

section Readback

theorem ne_of_isNumeric {c d : Char} (numeric : isNumeric c) (other : isNumeric d = false) :
    c ≠ d := by
  rintro rfl
  simp [numeric] at other

theorem skipBlanks_cons {c : Char} (visible : isBlank c = false) (cs : List Char) :
    skipBlanks (c :: cs) = c :: cs := by
  simp [skipBlanks, visible]

theorem isBlank_of_isNumeric {c : Char} (numeric : isNumeric c) : isBlank c = false := by
  have apart {d : Char} (other : isNumeric d = false) : c ≠ d := ne_of_isNumeric numeric other
  simp only [isBlank, decide_eq_false (@apart ' ' rfl), decide_eq_false (@apart '\n' rfl),
    decide_eq_false (@apart '\t' rfl), decide_eq_false (@apart '\r' rfl), Bool.or_false]

/-- Where the reader ends up at `rest` or fails at the next sign. -/
def Ends (rest r : List Char) : Prop := r = rest ∨ ∃ c more, r = c :: more ∧ isNumeric c

/-- The next sign, if there is one, is as it was written. -/
theorem Ends.sign {rest r after : List Char} {c d : Char} (ends : Ends (d :: rest) r)
    (visible : isBlank d = false) (sign : skipBlanks r = c :: after) (other : isNumeric c = false) :
    c = d ∧ after = rest := by
  rcases ends with rfl | ⟨e, more, rfl, numeric⟩
  · rw [skipBlanks_cons visible] at sign
    obtain ⟨rfl, rfl⟩ := List.cons.inj sign
    exact ⟨rfl, rfl⟩
  · rw [skipBlanks_cons (isBlank_of_isNumeric numeric)] at sign
    obtain ⟨rfl, _⟩ := List.cons.inj sign
    simp [numeric] at other

variable {fuel depth : Nat} {rest r : List Char} {v : Json}

theorem Takes.ends {cs : List Char} (takes : Takes (cs ++ rest) r) (numeric : ∀ c ∈ cs, isNumeric c)
    (delimited : ∀ c ∈ rest.head?, isNumeric c = false) : Ends rest r := by
  obtain ⟨used, same, all⟩ := takes
  rcases List.append_eq_append_iff.mp same with ⟨more, rfl, rfl⟩ | ⟨left, rfl, rfl⟩
  · cases more with
    | nil => exact Or.inl rfl
    | cons c more =>
      simp only [List.all_append, List.all_cons, Bool.and_eq_true] at all
      simp [all.2.1] at delimited
  · cases left with
    | nil => exact Or.inl rfl
    | cons c left => exact Or.inr ⟨c, left ++ rest, rfl, numeric c (by simp)⟩

theorem readValue_numeric {cs : List Char} (numeric : Numeric cs)
    (delimited : ∀ c ∈ rest.head?, isNumeric c = false)
    (read : readValue fuel depth (cs ++ rest) = some (v, r)) :
    (∀ s, v ≠ string s) ∧ Ends rest r := by
  obtain ⟨filled, all⟩ := numeric
  obtain ⟨c, more, rfl⟩ := List.exists_cons_of_ne_nil filled
  have first : isNumeric c := all c (by simp)
  have start : skipBlanks (c :: more ++ rest) = c :: more ++ rest :=
    skipBlanks_cons (isBlank_of_isNumeric first) _
  have head {d : Char} {after : List Char} (same : skipBlanks (c :: more ++ rest) = d :: after) :
      isNumeric d := by
    rw [start] at same
    obtain ⟨rfl, _⟩ := List.cons.inj same
    exact first
  cases fuel with
  | zero => simp [readValue] at read
  | succ fuel =>
    rcases readValue_cases read with ⟨_, _, quote, _⟩ | ⟨_, _, bracket, _⟩ | ⟨_, _, brace, _⟩ |
      ⟨word, known, same⟩ | number
    · exact absurd (head quote) (by decide)
    · exact absurd (head bracket) (by decide)
    · exact absurd (head brace) (by decide)
    · simp only [words, List.mem_cons, Prod.mk.injEq, List.not_mem_nil, or_false] at known
      rcases known with ⟨rfl, _⟩ | ⟨rfl, _⟩ | ⟨rfl, _⟩
      all_goals exact absurd (head same) (by decide)
    · rw [start] at number
      obtain ⟨takes, other⟩ := readNumber_takes number
      exact ⟨other, takes.ends all delimited⟩

theorem readValue_word {word : String} {value : Json} (known : (word, value) ∈ words)
    (read : readValue fuel depth (word.toList ++ rest) = some (v, r)) : v = value ∧ r = rest := by
  cases fuel with
  | zero => simp [readValue] at read
  | succ fuel =>
    simp only [words, List.mem_cons, Prod.mk.injEq, List.not_mem_nil, or_false] at known
    rcases known with ⟨rfl, rfl⟩ | ⟨rfl, rfl⟩ | ⟨rfl, rfl⟩
    all_goals
      simp [readValue, skipBlanks, isBlank, readWord] at read
      exact ⟨read.1.symm, read.2.symm⟩

/-- Strings that read back as themselves. -/
def SameText (x v : Json) : Prop := ∀ s, x = string s ↔ v = string s

def SameMember (m n : String × Json) : Prop := m.1 = n.1 ∧ SameText m.2 n.2

theorem sameText_of_ne {x v : Json} (first : ∀ s, x ≠ string s) (second : ∀ s, v ≠ string s) :
    SameText x v :=
  fun s => ⟨fun same => absurd same (first s), fun same => absurd same (second s)⟩

theorem readString_written (s rest : List Char) :
    readString ((s.flatMap escapeChar ++ '"' :: rest).length + 1)
      (s.flatMap escapeChar ++ '"' :: rest) = some (s, rest) := by
  refine readString_escape ?_ rest
  have := length_le_length_escape s
  simp only [List.length_append]
  omega

theorem quote_append (s : String) (rest : List Char) :
    quote s ++ rest = '"' :: (s.toList.flatMap escapeChar ++ '"' :: rest) := by
  simp [quote]

theorem readValue_quote (fuel depth : Nat) (s : String) (rest : List Char) :
    readValue (fuel + 1) depth (quote s ++ rest) = some (string s, rest) := by
  have visible : isBlank '"' = false := rfl
  rw [quote_append]
  simp only [readValue, skipBlanks_cons visible, readString_written, String.ofList_toList,
    Option.bind_eq_bind, Option.bind_some, pure]

/-- The two ways in which written items go on. -/
theorem writeItems_cons (item : Json) (others : List Json) :
    writeItems (item :: others) =
      item.write ++ match others with
        | [] => []
        | _ => ',' :: writeItems others := by
  cases others <;> simp [writeItems]

theorem writeMembers_cons (m : String × Json) (others : Members) :
    writeMembers (m :: others) =
      quote m.1 ++ ':' :: (m.2.write ++ match others with
        | [] => []
        | _ => ',' :: writeMembers others) := by
  obtain ⟨k, v⟩ := m
  cases others <;> simp [writeMembers]

/-- Written values begin with a character that begins a value. -/
theorem write_head (x : Json) : ∃ c more, x.write = c :: more ∧ isBlank c = false ∧ c ≠ ']' := by
  have ofNumeric {cs : List Char} (numeric : Numeric cs) :
      ∃ c more, cs = c :: more ∧ isBlank c = false ∧ c ≠ ']' := by
    obtain ⟨filled, all⟩ := numeric
    obtain ⟨c, more, rfl⟩ := List.exists_cons_of_ne_nil filled
    have first : isNumeric c := all c (by simp)
    exact ⟨c, more, rfl, isBlank_of_isNumeric first, ne_of_isNumeric first rfl⟩
  cases x with
  | null => exact ⟨'n', _, rfl, rfl, by decide⟩
  | bool b =>
    cases b with
    | false => exact ⟨'f', _, rfl, rfl, by decide⟩
    | true => exact ⟨'t', _, rfl, rfl, by decide⟩
  | int n => exact ofNumeric (numeric_toString n)
  | float x =>
    rcases floatText_cases x with null | numeric
    · simp only [write, null]
      exact ⟨'n', _, rfl, rfl, by decide⟩
    · exact ofNumeric numeric
  | string s => exact ⟨'"', _, rfl, rfl, by decide⟩
  | array items => exact ⟨'[', _, rfl, rfl, by decide⟩
  | object members => exact ⟨'\x7b', _, rfl, rfl, by decide⟩

/-- What begins with an opening bracket is no string, word or number. -/
theorem readValue_opening {c : Char} {more : List Char} (opening : c = '[' ∨ c = '\x7b')
    (read : readValue (fuel + 1) depth (c :: more) = some (v, r)) :
    (∃ items, c = '[' ∧ v = array items ∧
      (skipBlanks more = ']' :: r ∧ items = [] ∨
        (∀ after, skipBlanks more ≠ ']' :: after) ∧
          readItems fuel (depth - 1) (skipBlanks more) = some (items, r))) ∨
    ∃ members, c = '\x7b' ∧ v = object members ∧
      (skipBlanks more = '\x7d' :: r ∧ members = [] ∨
        (∀ after, skipBlanks more ≠ '\x7d' :: after) ∧
          readMembers fuel (depth - 1) (skipBlanks more) = some (members, r)) := by
  have visible : isBlank c = false := by rcases opening with rfl | rfl <;> rfl
  have start : skipBlanks (c :: more) = c :: more := skipBlanks_cons visible more
  rcases readValue_cases read with ⟨_, _, same, _⟩ | ⟨_, items, same, rfl, inside⟩ |
    ⟨_, members, same, rfl, inside⟩ | ⟨word, known, same⟩ | number
  · obtain ⟨rfl, _⟩ := List.cons.inj (start.symm.trans same)
    exact absurd opening (by decide)
  · obtain ⟨first, rfl⟩ := List.cons.inj (start.symm.trans same)
    exact Or.inl ⟨items, first, rfl, inside⟩
  · obtain ⟨first, rfl⟩ := List.cons.inj (start.symm.trans same)
    exact Or.inr ⟨members, first, rfl, inside⟩
  · rw [start] at same
    simp only [words, List.mem_cons, Prod.mk.injEq, List.not_mem_nil, or_false] at known
    rcases opening with rfl | rfl
    all_goals
      rcases known with ⟨rfl, _⟩ | ⟨rfl, _⟩ | ⟨rfl, _⟩
      all_goals simp at same
  · rw [start] at number
    rcases opening with rfl | rfl
    · simp [readNumber, readSign] at number
    · simp [readNumber, readSign] at number

theorem readValue_brackets {more : List Char}
    (read : readValue (fuel + 1) depth ('[' :: more) = some (v, r)) :
    ∃ items, v = array items ∧
      (skipBlanks more = ']' :: r ∧ items = [] ∨
        (∀ after, skipBlanks more ≠ ']' :: after) ∧
          readItems fuel (depth - 1) (skipBlanks more) = some (items, r)) := by
  rcases readValue_opening (Or.inl rfl) read with ⟨items, _, same, inside⟩ | ⟨_, other, _⟩
  · exact ⟨items, same, inside⟩
  · exact absurd other (by decide)

theorem readValue_braces {more : List Char}
    (read : readValue (fuel + 1) depth ('\x7b' :: more) = some (v, r)) :
    ∃ members, v = object members ∧
      (skipBlanks more = '\x7d' :: r ∧ members = [] ∨
        (∀ after, skipBlanks more ≠ '\x7d' :: after) ∧
          readMembers fuel (depth - 1) (skipBlanks more) = some (members, r)) := by
  rcases readValue_opening (Or.inr rfl) read with ⟨_, other, _⟩ | ⟨members, _, same, inside⟩
  · exact absurd other (by decide)
  · exact ⟨members, same, inside⟩

theorem skipBlanks_write (x : Json) (rest : List Char) :
    skipBlanks (x.write ++ rest) = x.write ++ rest ∧
      ∀ after, x.write ++ rest ≠ ']' :: after := by
  obtain ⟨c, more, same, visible, other⟩ := write_head x
  rw [same]
  exact ⟨skipBlanks_cons visible _, fun after clash => other (List.cons.inj clash).1⟩

/-- An object reads back by its members. -/
theorem readValue_object {members : Members}
    (inner : members ≠ [] → ∀ {ms after},
      readMembers fuel (depth - 1) (writeMembers members ++ '\x7d' :: rest) = some (ms, after) →
        List.Forall₂ SameMember members ms ∧ after = rest)
    (read : readValue (fuel + 1) depth ((object members).write ++ rest) = some (v, r)) :
    ∃ ms, v = object ms ∧ List.Forall₂ SameMember members ms ∧ r = rest := by
  have text : (object members).write ++ rest =
      '\x7b' :: (writeMembers members ++ '\x7d' :: rest) := by
    simp [write]
  obtain ⟨ms, rfl, inside⟩ := readValue_braces (text ▸ read)
  refine ⟨ms, rfl, ?_⟩
  cases members with
  | nil =>
    have closed : skipBlanks ('\x7d' :: rest) = '\x7d' :: rest := skipBlanks_cons rfl rest
    rcases inside with ⟨sign, rfl⟩ | ⟨pending, _⟩
    · exact ⟨.nil, (List.cons.inj (closed.symm.trans sign)).2.symm⟩
    · exact absurd closed (pending rest)
  | cons m others =>
    have start : skipBlanks (writeMembers (m :: others) ++ '\x7d' :: rest) =
        writeMembers (m :: others) ++ '\x7d' :: rest := by
      rw [writeMembers_cons, List.append_assoc, quote_append]
      exact skipBlanks_cons rfl _
    rw [start] at inside
    rcases inside with ⟨sign, _⟩ | ⟨_, later⟩
    · rw [writeMembers_cons, List.append_assoc, quote_append] at sign
      exact absurd (List.cons.inj sign).1 (by decide)
    · exact inner (List.cons_ne_nil m others) later

mutual

theorem readValue_write {fuel depth : Nat} {rest r : List Char} {x v : Json}
    (delimited : ∀ c ∈ rest.head?, isNumeric c = false)
    (read : readValue fuel depth (x.write ++ rest) = some (v, r)) :
    SameText x v ∧ Ends rest r := by
  cases fuel with
  | zero => simp [readValue] at read
  | succ fuel =>
    cases x with
    | null =>
      obtain ⟨rfl, rfl⟩ := @readValue_word (fuel + 1) depth rest r v "null" null (by simp [words])
        read
      exact ⟨sameText_of_ne nofun nofun, Or.inl rfl⟩
    | bool b =>
      cases b with
      | false =>
        obtain ⟨rfl, rfl⟩ := @readValue_word (fuel + 1) depth rest r v "false" (bool false)
          (by simp [words]) read
        exact ⟨sameText_of_ne nofun nofun, Or.inl rfl⟩
      | true =>
        obtain ⟨rfl, rfl⟩ := @readValue_word (fuel + 1) depth rest r v "true" (bool true)
          (by simp [words]) read
        exact ⟨sameText_of_ne nofun nofun, Or.inl rfl⟩
    | int n =>
      obtain ⟨other, ends⟩ := readValue_numeric (numeric_toString n) delimited read
      exact ⟨sameText_of_ne nofun other, ends⟩
    | float x =>
      rcases floatText_cases x with isNull | numeric
      · have isWord : readValue (fuel + 1) depth ("null".toList ++ rest) = some (v, r) := by
          simpa only [write, isNull] using read
        obtain ⟨rfl, rfl⟩ := @readValue_word (fuel + 1) depth rest r v "null" null
          (by simp [words]) isWord
        exact ⟨sameText_of_ne nofun nofun, Or.inl rfl⟩
      · obtain ⟨other, ends⟩ := readValue_numeric numeric delimited read
        exact ⟨sameText_of_ne nofun other, ends⟩
    | string s =>
      have same := (readValue_quote fuel depth s rest).symm.trans read
      simp only [Option.some.injEq, Prod.mk.injEq] at same
      obtain ⟨rfl, rfl⟩ := same
      exact ⟨fun _ => Iff.rfl, Or.inl rfl⟩
    | array items =>
      have text : (array items).write ++ rest = '[' :: (writeItems items ++ ']' :: rest) := by
        simp [write]
      obtain ⟨vs, rfl, inside⟩ := readValue_brackets (text ▸ read)
      refine ⟨sameText_of_ne nofun nofun, Or.inl ?_⟩
      cases items with
      | nil =>
        have closed : skipBlanks (']' :: rest) = ']' :: rest := skipBlanks_cons rfl rest
        rcases inside with ⟨sign, _⟩ | ⟨pending, _⟩
        · exact (List.cons.inj (closed.symm.trans sign)).2.symm
        · exact absurd closed (pending rest)
      | cons item others =>
        rw [writeItems_cons, List.append_assoc] at inside
        -- No value begins with a closing bracket, so the reader does not take the list as empty.
        obtain ⟨same, notClosed⟩ := skipBlanks_write item _
        rcases inside with ⟨sign, _⟩ | ⟨_, later⟩
        · exact absurd (same.symm.trans sign) (notClosed r)
        · rw [same, ← List.append_assoc, ← writeItems_cons] at later
          exact readItems_write (List.cons_ne_nil item others) later
    | object members =>
      obtain ⟨ms, rfl, _, rfl⟩ := readValue_object (fun filled => readMembers_write filled) read
      exact ⟨sameText_of_ne nofun nofun, Or.inl rfl⟩

theorem readItems_write {fuel depth : Nat} {rest r : List Char} {items vs : List Json}
    (filled : items ≠ [])
    (read : readItems fuel depth (writeItems items ++ ']' :: rest) = some (vs, r)) : r = rest := by
  cases fuel with
  | zero => simp [readItems] at read
  | succ fuel =>
    obtain ⟨item, others, rfl⟩ := List.exists_cons_of_ne_nil filled
    obtain ⟨v, after, first, ending⟩ := readItems_cases read
    rw [writeItems_cons, List.append_assoc] at first
    cases others with
    | nil =>
      obtain ⟨_, ends⟩ := readValue_write (by simp; rfl) first
      rcases ending with ⟨_, _, sign, _⟩ | ⟨sign, _⟩
      · exact absurd (ends.sign rfl sign rfl).1 (by decide)
      · exact (ends.sign rfl sign rfl).2
    | cons second others =>
      obtain ⟨_, ends⟩ := readValue_write (by simp; rfl) first
      rcases ending with ⟨_, _, sign, later, _⟩ | ⟨sign, _⟩
      · obtain ⟨_, rfl⟩ := ends.sign rfl sign rfl
        exact readItems_write (List.cons_ne_nil second others) later
      · exact absurd (ends.sign rfl sign rfl).1 (by decide)

theorem readMembers_write {fuel depth : Nat} {rest r : List Char} {members ms : Members}
    (filled : members ≠ [])
    (read : readMembers fuel depth (writeMembers members ++ '\x7d' :: rest) = some (ms, r)) :
    List.Forall₂ SameMember members ms ∧ r = rest := by
  cases fuel with
  | zero => simp [readMembers] at read
  | succ fuel =>
    obtain ⟨m, others, rfl⟩ := List.exists_cons_of_ne_nil filled
    obtain ⟨text, key, colon, body, value, after, start, name, sign, first, ending⟩ :=
      readMembers_cases read
    rw [writeMembers_cons, List.append_assoc, quote_append, skipBlanks_cons rfl] at start
    obtain ⟨_, rfl⟩ := List.cons.inj start
    have named := (readString_written m.1.toList _).symm.trans name
    simp only [Option.some.injEq, Prod.mk.injEq] at named
    obtain ⟨rfl, rfl⟩ := named
    rw [List.cons_append, skipBlanks_cons rfl] at sign
    obtain ⟨_, rfl⟩ := List.cons.inj sign
    rw [List.append_assoc] at first
    rw [String.ofList_toList] at ending
    cases others with
    | nil =>
      obtain ⟨same, ends⟩ := readValue_write (by simp; rfl) first
      rcases ending with ⟨_, _, comma, _⟩ | ⟨brace, rfl⟩
      · exact absurd (ends.sign rfl comma rfl).1 (by decide)
      · exact ⟨.cons ⟨rfl, same⟩ .nil, (ends.sign rfl brace rfl).2⟩
    | cons second others =>
      obtain ⟨same, ends⟩ := readValue_write (by simp; rfl) first
      rcases ending with ⟨_, _, comma, later, rfl⟩ | ⟨brace, _⟩
      · obtain ⟨_, rfl⟩ := ends.sign rfl comma rfl
        obtain ⟨rest, rfl⟩ := readMembers_write (List.cons_ne_nil second others) later
        exact ⟨.cons ⟨rfl, same⟩ rest, rfl⟩
      · exact absurd (ends.sign rfl brace rfl).1 (by decide)

end

end Readback

section Strings

section Keys

variable {fuel depth : Nat} {more after tail : List Char} {value : Json} (key : String)

theorem readMembers_last (first : readValue fuel depth more = some (value, after))
    (brace : skipBlanks after = '\x7d' :: tail) :
    readMembers (fuel + 1) depth (quote key ++ ':' :: more) = some ([(key, value)], tail) := by
  have quoted : isBlank '"' = false := rfl
  have colon : isBlank ':' = false := rfl
  rw [quote_append]
  simp only [readMembers, skipBlanks_cons quoted, readString_written, skipBlanks_cons colon, first,
    brace, String.ofList_toList, Option.bind_eq_bind, Option.bind_some, pure]

theorem readMembers_next (first : readValue fuel depth more = some (value, after))
    (comma : skipBlanks after = ',' :: tail) {others : Members} {rest : List Char}
    (later : readMembers fuel depth tail = some (others, rest)) :
    readMembers (fuel + 1) depth (quote key ++ ':' :: more) =
      some ((key, value) :: others, rest) := by
  have quoted : isBlank '"' = false := rfl
  have colon : isBlank ':' = false := rfl
  rw [quote_append]
  simp only [readMembers, skipBlanks_cons quoted, readString_written, skipBlanks_cons colon, first,
    comma, later, String.ofList_toList, Option.bind_eq_bind, Option.bind_some, pure]

end Keys

theorem readValue_members {fuel depth : Nat} {cs rest : List Char} {members : Members}
    (deep : 0 < depth) (read : readMembers fuel (depth - 1) ('"' :: cs) = some (members, rest)) :
    readValue (fuel + 1) depth ('\x7b' :: '"' :: cs) = some (object members, rest) := by
  have brace : isBlank '\x7b' = false := rfl
  have quoted : isBlank '"' = false := rfl
  simp only [readValue, skipBlanks_cons brace, skipBlanks_cons quoted, guard, if_pos deep,
    Option.bind_eq_bind, Option.bind_some, pure]
  change (readMembers fuel (depth - 1) ('"' :: cs)).bind _ = _
  rw [read, Option.bind_some]

theorem readMembers_strings {fuel depth : Nat} {members : Members} (filled : members ≠ [])
    (strings : AllStrings members) (enough : members.length < fuel) (rest : List Char) :
    readMembers fuel depth (writeMembers members ++ '\x7d' :: rest) = some (members, rest) := by
  have comma : isBlank ',' = false := rfl
  have brace : isBlank '\x7d' = false := rfl
  induction members generalizing fuel with
  | nil => exact absurd rfl filled
  | cons m others ih =>
    obtain ⟨fuel, rfl⟩ : ∃ n, fuel = n + 2 :=
      ⟨fuel - 2, by simp only [List.length_cons] at enough; omega⟩
    obtain ⟨key, value⟩ := m
    obtain ⟨⟨s, rfl⟩, later⟩ := List.forall_mem_cons.mp strings
    rw [writeMembers_cons, List.append_assoc, List.cons_append, List.append_assoc, write]
    cases others with
    | nil => exact readMembers_last key (readValue_quote fuel depth s _) (skipBlanks_cons brace rest)
    | cons second others =>
      have enough : (second :: others).length < fuel + 1 := by
        simp only [List.length_cons] at enough ⊢
        omega
      exact readMembers_next key (readValue_quote fuel depth s _) (skipBlanks_cons comma _)
        (ih (List.cons_ne_nil second others) later enough)

theorem length_le_length_writeMembers (members : Members) :
    members.length ≤ (writeMembers members).length := by
  induction members with
  | nil => exact Nat.zero_le _
  | cons m others ih =>
    rw [writeMembers_cons]
    cases others with
    | nil =>
      simp only [List.length_append, List.length_cons, List.length_nil]
      omega
    | cons second others =>
      simp only [List.length_append, List.length_cons] at ih ⊢
      omega

theorem tree?_compress_strings {members : Members} (strings : AllStrings members) :
    tree? (object members).compress = some (object members) := by
  cases members with
  | nil => rfl
  | cons m others =>
    have filled : m :: others ≠ [] := List.cons_ne_nil m others
    have bound := length_le_length_writeMembers (m :: others)
    have text : (object (m :: others)).write =
        '\x7b' :: (writeMembers (m :: others) ++ ['\x7d']) := by
      simp [write]
    have read := @readMembers_strings (2 * (object (m :: others)).write.length + 1) (nestingLimit - 1)
      (m :: others) filled strings (by
        simp only [text, List.length_cons, List.length_append] at bound ⊢
        omega) []
    rw [writeMembers_cons, List.append_assoc, quote_append] at read text
    have whole := readValue_members (by decide) read
    rw [← text] at whole
    have ended : skipBlanks [] = [] := rfl
    rw [tree?, compress, String.toList_ofList]
    simp only [whole, ended, List.isEmpty_nil, guard, if_true, Option.bind_eq_bind,
      Option.bind_some, pure]

theorem collapseMembers_of_strings {members : Members} (strings : AllStrings members) :
    collapseMembers members = members := by
  rw [collapseMembers_eq_map, map_of_strings (fun _ => rfl) strings]

/-- Printed objects of strings read back as they are. -/
theorem parse?_compress_strings {members : Members} (strings : AllStrings members)
    (distinct : (keys members).Nodup) :
    parse? (object members).compress = some (object members) := by
  rw [parse?, tree?_compress_strings strings, Option.map_some, collapse,
    collapseMembers_of_strings strings, insertMembers_of_nodup (by simpa using distinct),
    List.nil_append]

theorem tree?_compress_object {members : Members} {v : Json}
    (read : tree? (object members).compress = some v) :
    ∃ ms, v = object ms ∧ List.Forall₂ SameMember members ms := by
  obtain ⟨⟨w, rest⟩, inside, read⟩ := Option.bind_eq_some_iff.mp read
  obtain ⟨_, _, read⟩ := Option.bind_eq_some_iff.mp read
  obtain rfl := Option.some.inj read
  rw [compress, String.toList_ofList, ← List.append_nil (object members).write] at inside
  obtain ⟨ms, rfl, same, _⟩ :=
    readValue_object (fun filled => readMembers_write filled) inside
  exact ⟨ms, rfl, same⟩

theorem keys_of_sameMembers {members ms : Members} (same : List.Forall₂ SameMember members ms) :
    keys members = keys ms := by
  induction same with
  | nil => rfl
  | cons first _ ih => simpa [keys, first.1] using ih

theorem eq_of_sameMembers {members ms : Members} (same : List.Forall₂ SameMember members ms)
    (strings : AllStrings (collapseMembers ms)) : members = collapseMembers ms := by
  induction same with
  | nil => rfl
  | @cons m n members ms first _ ih =>
    rw [collapseMembers_eq_map, List.map_cons, ← collapseMembers_eq_map] at strings ⊢
    obtain ⟨⟨s, text⟩, later⟩ := List.forall_mem_cons.mp strings
    have value : m.2 = n.2.collapse :=
      ((first.2 s).mpr (collapse_eq_string.mp text)).trans text.symm
    rw [← ih later, ← value, ← first.1]

/-- Printed objects of other values do not read back as objects of strings. -/
theorem eq_of_parse?_compress {members strings : Members} (distinct : (keys members).Nodup)
    (allStrings : AllStrings strings)
    (parsed : parse? (object members).compress = some (object strings)) : members = strings := by
  obtain ⟨v, read, collapsed⟩ := Option.map_eq_some_iff.mp parsed
  obtain ⟨ms, rfl, same⟩ := tree?_compress_object read
  have once : (keys ([] ++ collapseMembers ms)).Nodup := by
    rw [List.nil_append, keys_collapseMembers, ← keys_of_sameMembers same]
    exact distinct
  have kept : collapseMembers ms = strings := by
    rw [collapse, insertMembers_of_nodup once, List.nil_append] at collapsed
    exact object.inj collapsed
  rw [← kept] at allStrings ⊢
  exact eq_of_sameMembers same allStrings

end Strings

end HttpWorkflow.Json
