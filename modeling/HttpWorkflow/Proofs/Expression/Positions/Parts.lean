import HttpWorkflow.Proofs.Expression.Positions
import HttpWorkflow.Proofs.Expression.Translation

/-! The parts of a text, found by positions.

A position in a text is the length of the marked characters before it. From there on each loop over
positions does what the function on the rest of the marked characters does, and in doing so it
leaves no text: all that it reads and cuts out is there.
-/

set_option autoImplicit false

namespace HttpWorkflow.Expression.Positions

section Access

variable {cs : List Char} {front back : List Marked} {m : Marked}

theorem slice_eq {first part last : List Char} {start stop : Nat}
    (whole : cs = first ++ (part ++ last)) (begins : start = first.length)
    (ends : stop = start + part.length) : slice cs start stop = .ok part := by
  subst whole begins ends
  have within : first.length ≤ first.length + part.length ∧
      first.length + part.length ≤ (first ++ (part ++ last)).length := by
    simp
  rw [slice, if_pos within, ← List.append_assoc, ← List.length_append, List.take_left,
    List.drop_left]

theorem slice_length {part : List Marked} (whole : mark cs = front ++ (part ++ back)) :
    slice cs front.length (front.length + part.length) = .ok (chars part) := by
  have same := congrArg chars whole
  rw [chars_mark, chars, List.map_append, List.map_append] at same
  exact slice_eq same (length_chars front).symm (by rw [length_chars])

theorem get_map {α : Type} (f : Marked → α) (whole : mark cs = front ++ m :: back) :
    get ((mark cs).map f) front.length = .ok (f m) := by
  simp [get, whole]

theorem isOutermost_length (whole : mark cs = front ++ m :: back) :
    isOutermost cs front.length = .ok (decide (m.2 = some 0)) := by
  rw [isOutermost, depths, get_map (·.2) whole]
  rfl

theorem get_char (whole : mark cs = front ++ m :: back) : get cs front.length = .ok m.1 := by
  have place := get_map (·.1) whole
  rwa [← chars, chars_mark] at place

theorem before?_length (whole : mark cs = front ++ back) :
    before? cs front.length = .ok (chars front).getLast? := by
  rcases List.eq_nil_or_concat front with rfl | ⟨first, m, rfl⟩
  · rfl
  · rw [List.concat_eq_append, List.append_assoc, List.singleton_append] at whole
    rw [List.length_concat, before?, get_char whole, List.concat_eq_append, chars, List.map_append,
      List.map_singleton, List.getLast?_concat]
    rfl

theorem getElem?_length (whole : mark cs = front ++ m :: back) :
    cs[front.length + 1]? = (chars back).head? := by
  have same := congrArg chars whole
  rw [chars_mark] at same
  have place : front.length + 1 = (chars front ++ [m.1]).length := by simp [chars]
  have regroup : chars (front ++ m :: back) = (chars front ++ [m.1]) ++ chars back := by
    simp [chars]
  rw [same, regroup, place, List.getElem?_append_right (Nat.le_refl _), Nat.sub_self,
    List.head?_eq_getElem?]

end Access

section Splitting

variable {cs : List Char} {front ms : List Marked} {m : Marked}

theorem splitFrom_cons (whole : mark cs = front ++ m :: ms) (question : Option Nat) (nested : Nat) :
    splitFrom cs question nested front.length (chars (m :: ms)) =
      if isQuestion (chars front).getLast? m ms then
        match question with
        | none => splitFrom cs (some front.length) nested (front.length + 1) (chars ms)
        | some q => splitFrom cs (some q) (nested + 1) (front.length + 1) (chars ms)
      else if question ≠ none ∧ isColon (chars front).getLast? m ms then
        match nested with
        | 0 => .ok (question.map fun q => (q, front.length))
        | nested + 1 => splitFrom cs question nested (front.length + 1) (chars ms)
      else splitFrom cs question nested (front.length + 1) (chars ms) := by
  rw [chars, List.map_cons, splitFrom.eq_def]
  dsimp only
  rw [isOutermost_length whole, before?_length whole, getElem?_length whole]
  dsimp only [bind, Except.bind]
  by_cases outermost : m.2 = some 0
  · have asks : (m.1 = '?' ∧ (chars front).getLast? ≠ some '?' ∧
        ¬((chars ms).head? = some '?' ∨ (chars ms).head? = some '.' ∨
          (chars ms).head? = some '[')) ↔
        isQuestion (chars front).getLast? m ms = true := by
      rw [isQuestion_iff]
      exact (and_iff_right outermost).symm
    have ends : (m.1 = ':' ∧ question ≠ none ∧ (chars front).getLast? ≠ some ':' ∧
        (chars ms).head? ≠ some ':') ↔
        (question ≠ none ∧ isColon (chars front).getLast? m ms = true) := by
      rw [isColon_iff, and_iff_right outermost]
      exact and_left_comm
    rw [if_pos (decide_eq_true outermost)]
    simp only [asks, ends]
    cases nested <;> cases question <;> rfl
  · rw [if_neg fun same => outermost (of_decide_eq_true same),
      if_neg fun asks => outermost (isQuestion_iff.mp asks).1,
      if_neg fun ends => outermost (isColon_iff.mp ends.2).1]
    rfl

theorem append_singleton (whole : mark cs = front ++ m :: ms) :
    mark cs = (front ++ [m]) ++ ms := by
  rw [whole, List.append_assoc, List.singleton_append]

theorem getLast?_chars (front : List Marked) (m : Marked) :
    (chars (front ++ [m])).getLast? = some m.1 := by
  simp [chars]

/-- From the question mark on, the colon is looked for. -/
theorem splitFrom_some (whole : mark cs = front ++ ms) (q nested : Nat) :
    splitFrom cs (some q) nested front.length (chars ms) =
      .ok ((splitColon (chars front).getLast? nested ms).map
        fun (yes, _) => (q, front.length + yes.length)) := by
  induction ms generalizing front nested with
  | nil => rfl
  | cons m ms ih =>
    -- The step over `m` is the same in each mode; only the count differs.
    have later (nested : Nat) : splitFrom cs (some q) nested (front.length + 1) (chars ms) =
        .ok (((splitColon (some m.1) nested ms).map fun (a, b) => (m.1 :: a, b)).map
          fun (yes, _) => (q, front.length + yes.length)) := by
      have next := ih (append_singleton whole) nested
      rw [getLast?_chars, List.length_append, List.length_singleton] at next
      rw [next, Option.map_map]
      congr 2
      funext parts
      simp only [Function.comp_apply, List.length_cons, Prod.mk.injEq, true_and]
      omega
    rw [splitFrom_cons whole, splitColon.eq_def]
    dsimp only
    by_cases question : isQuestion (chars front).getLast? m ms = true
    · rw [if_pos question, if_pos question, later]
    · by_cases colon : isColon (chars front).getLast? m ms = true
      · rw [if_neg question, if_neg question, if_pos ⟨Option.some_ne_none q, colon⟩, if_pos colon]
        cases nested with
        | zero => rfl
        | succ nested => exact later nested
      · rw [if_neg question, if_neg question, if_neg fun both => colon both.2, if_neg colon, later]

/-- Before the question mark, colons do not count. -/
theorem splitFrom_none (whole : mark cs = front ++ ms) :
    splitFrom cs none 0 front.length (chars ms) =
      match splitQuestion (chars front).getLast? ms with
      | none => .ok none
      | some (before, after) =>
        splitFrom cs (some (front.length + before.length)) 0 (front.length + before.length + 1)
          (chars after) := by
  induction ms generalizing front with
  | nil => rfl
  | cons m ms ih =>
    rw [splitFrom_cons whole, splitQuestion]
    by_cases question : isQuestion (chars front).getLast? m ms = true
    · rw [if_pos question, if_pos question]
      rfl
    · have next := ih (append_singleton whole)
      rw [getLast?_chars, List.length_append, List.length_singleton] at next
      rw [if_neg question, if_neg question, if_neg fun both => both.1 rfl, next]
      cases splitQuestion (some m.1) ms with
      | none => rfl
      | some parts =>
        have moved : front.length + (parts.1.length + 1) = front.length + 1 + parts.1.length := by
          omega
        simp only [Option.map_some, List.length_cons, moved]

theorem splitPositions_eq (cs : List Char) :
    splitPositions cs = .ok ((split? cs).map fun (condition, yes, _) =>
      (condition.length, condition.length + 1 + yes.length)) := by
  have start := @splitFrom_none cs [] (mark cs) rfl
  rw [chars_mark, show (chars []).getLast? = none from rfl] at start
  rw [splitPositions, split?]
  cases question : splitQuestion none (mark cs) with
  | none =>
    rw [question] at start
    exact start
  | some parts =>
    obtain ⟨before, after⟩ := parts
    obtain ⟨front, whole, rfl⟩ := splitQuestion_eq_some question
    have next := splitFrom_some (append_singleton whole) front.length 0
    rw [getLast?_chars, List.length_append, List.length_singleton] at next
    rw [question] at start
    dsimp only at start
    rw [List.length_nil, Nat.zero_add, length_chars, next] at start
    rw [start, Option.bind_eq_bind, Option.bind_some]
    dsimp only
    cases splitColon (some '?') 0 after with
    | none => rfl
    | some parts => simp

end Splitting

section Groups

variable {cs : List Char} {front ms : List Marked}

def chunks : Piece → List Chunk
  | .char c => [.text [c]]
  | .group opening inner closing => [.text [opening], .call (.items inner), .text [closing]]

theorem findM?_range' (whole : mark cs = front ++ ms) :
    (List.range' front.length ms.length).findM? (isOutermost cs) =
      .ok (if ms.dropWhile isInner = [] then none
        else some (front.length + (ms.takeWhile isInner).length)) := by
  induction ms generalizing front with
  | nil => rfl
  | cons m ms ih =>
    rw [List.length_cons, List.range'_succ, List.findM?, isOutermost_length whole]
    dsimp only [bind, Except.bind]
    by_cases outermost : m.2 = some 0
    · have outer : ¬isInner m = true := by simp [isInner, outermost]
      rw [decide_eq_true outermost, List.dropWhile_cons_of_neg outer,
        List.takeWhile_cons_of_neg outer]
      rfl
    · have inner : isInner m = true := by simp [isInner, outermost]
      have next := ih (append_singleton whole)
      rw [List.length_append, List.length_singleton] at next
      rw [decide_eq_false outermost, List.dropWhile_cons_of_pos inner,
        List.takeWhile_cons_of_pos inner, List.length_cons, ← Nat.add_assoc, Nat.add_right_comm]
      exact next

variable {m close : Marked} {rest after : List Marked}

theorem closing?_length (whole : mark cs = front ++ m :: rest) :
    closing? cs m.1 front.length =
      .ok (if m = ('(', some 0) ∨ m = ('[', some 0) then
        if rest.dropWhile isInner = [] then none
        else some (front.length + 1 + (rest.takeWhile isInner).length)
      else none) := by
  have left : cs.length - (front.length + 1) = rest.length := by
    rw [← length_mark cs, whole, List.length_append, List.length_cons]
    omega
  have find := findM?_range' (append_singleton whole)
  rw [List.length_append, List.length_singleton] at find
  rw [closing?, isOutermost_length whole, left]
  dsimp only [bind, Except.bind]
  rw [find]
  obtain ⟨c, d⟩ := m
  by_cases outermost : d = some 0
  · by_cases opens : c = '(' ∨ c = '[' <;> simp [outermost, opens, pure, Except.pure]
  · simp [outermost, pure, Except.pure]

theorem groupsFrom_char (whole : mark cs = front ++ m :: rest)
    (plain : closing? cs m.1 front.length = .ok none) {steps : Nat} {later : List Chunk}
    (next : groupsFrom cs (front.length + 1) steps = .ok later) :
    groupsFrom cs front.length (steps + 1) = .ok (.text [m.1] :: later) := by
  have inside : front.length < cs.length := by
    rw [← length_mark cs, whole, List.length_append, List.length_cons]
    omega
  rw [groupsFrom, if_pos inside, get_char whole]
  dsimp only [bind, Except.bind]
  rw [plain]
  dsimp only
  rw [next]
  rfl

theorem groupsFrom_group (whole : mark cs = front ++ m :: rest)
    (opens : m = ('(', some 0) ∨ m = ('[', some 0))
    (first : rest.dropWhile isInner = close :: after)
    {steps : Nat} {later : List Chunk}
    (next : groupsFrom cs (front.length + 1 + (rest.takeWhile isInner).length + 1) steps =
      .ok later) :
    groupsFrom cs front.length (steps + 1) =
      .ok (.text [m.1] :: .call (.items (chars (rest.takeWhile isInner))) :: .text [close.1] ::
        later) := by
  have inside : front.length < cs.length := by
    rw [← length_mark cs, whole, List.length_append, List.length_cons]
    omega
  have closing : closing? cs m.1 front.length =
      .ok (some (front.length + 1 + (rest.takeWhile isInner).length)) := by
    rw [closing?_length whole, if_pos opens, if_neg (by simp [first])]
  -- The text up to the closing bracket, and that bracket right after it.
  have last : mark cs = (front ++ [m] ++ rest.takeWhile isInner) ++ close :: after := by
    rw [List.append_assoc, ← first, List.takeWhile_append_dropWhile]
    exact append_singleton whole
  have slot : slice cs (front.length + 1) (front.length + 1 + (rest.takeWhile isInner).length) =
      .ok (chars (rest.takeWhile isInner)) := by
    have place := slice_length (last.trans (List.append_assoc _ _ _))
    rwa [List.length_append, List.length_singleton] at place
  have bracket := get_char last
  rw [List.length_append, List.length_append, List.length_singleton] at bracket
  rw [groupsFrom, if_pos inside, get_char whole]
  dsimp only [bind, Except.bind]
  rw [closing]
  dsimp only
  rw [slot, bracket]
  dsimp only
  rw [next]
  rfl

theorem groupsFrom_eq (whole : mark cs = front ++ ms) {steps : Nat} (enough : ms.length ≤ steps) :
    groupsFrom cs front.length steps = .ok ((pieces ms).flatMap chunks) := by
  fun_induction pieces ms generalizing front steps with
  | case1 =>
    have outside : ¬front.length < cs.length := by
      rw [← length_mark cs, whole, List.append_nil]
      exact Nat.lt_irrefl _
    cases steps with
    | zero => rw [groupsFrom, if_neg outside]; rfl
    | succ steps => rw [groupsFrom, if_neg outside]; rfl
  | case2 m rest opens close after first ih =>
    obtain ⟨steps, rfl⟩ := Nat.exists_eq_add_one_of_ne_zero (Nat.ne_zero_of_lt enough)
    have parts : rest = rest.takeWhile isInner ++ close :: after := by
      rw [← first, List.takeWhile_append_dropWhile]
    have later : mark cs = (front ++ [m] ++ rest.takeWhile isInner ++ [close]) ++ after := by
      rw [List.append_assoc _ [close], List.singleton_append, List.append_assoc, ← parts]
      exact append_singleton whole
    have total := congrArg List.length parts
    simp only [List.length_append, List.length_cons] at total enough
    have next := ih later (show after.length ≤ steps by omega)
    simp only [List.length_append, List.length_singleton] at next
    exact groupsFrom_group whole opens first next
  | case3 m rest opens first ih =>
    obtain ⟨steps, rfl⟩ := Nat.exists_eq_add_one_of_ne_zero (Nat.ne_zero_of_lt enough)
    have next := ih (append_singleton whole) (Nat.le_of_succ_le_succ enough)
    rw [List.length_append, List.length_singleton] at next
    refine groupsFrom_char whole ?_ next
    rw [closing?_length whole, if_pos opens, if_pos first]
  | case4 m rest plain ih =>
    obtain ⟨steps, rfl⟩ := Nat.exists_eq_add_one_of_ne_zero (Nat.ne_zero_of_lt enough)
    have next := ih (append_singleton whole) (Nat.le_of_succ_le_succ enough)
    rw [List.length_append, List.length_singleton] at next
    refine groupsFrom_char whole ?_ next
    rw [closing?_length whole, if_neg plain]

end Groups

section Items

variable {cs : List Char} {front part ms : List Marked} {m : Marked}

theorem itemsFrom_comma (whole : mark cs = front ++ (part ++ (',', some 0) :: ms))
    {later : List (List Char)}
    (next : itemsFrom cs (front.length + part.length + 1) (front.length + part.length + 1)
      (chars ms) = .ok later) :
    itemsFrom cs front.length (front.length + part.length) (',' :: chars ms) =
      .ok (chars part :: later) := by
  have outermost := isOutermost_length (whole.trans (List.append_assoc _ _ _).symm)
  rw [List.length_append] at outermost
  rw [itemsFrom, if_pos rfl, outermost]
  dsimp only [bind, Except.bind]
  rw [if_pos (by rfl), slice_length whole]
  dsimp only
  rw [next]
  rfl

theorem itemsFrom_other (whole : mark cs = front ++ (part ++ m :: ms)) (other : m ≠ (',', some 0)) :
    itemsFrom cs front.length (front.length + part.length) (m.1 :: chars ms) =
      itemsFrom cs front.length (front.length + part.length + 1) (chars ms) := by
  have outermost := isOutermost_length (whole.trans (List.append_assoc _ _ _).symm)
  rw [List.length_append] at outermost
  rw [itemsFrom]
  by_cases comma : m.1 = ','
  · have inner : ¬m.2 = some 0 := fun outer => other (Prod.ext comma outer)
    rw [if_pos comma, outermost, decide_eq_false inner]
    rfl
  · rw [if_neg comma]

/-- The first item goes on from the part of it that has been passed. -/
theorem itemsFrom_eq (whole : mark cs = front ++ (part ++ ms)) {first : List Char}
    {others : List (List Char)} (same : items ms = first :: others) :
    itemsFrom cs front.length (front.length + part.length) (chars ms) =
      .ok ((chars part ++ first) :: others) := by
  induction ms generalizing front part first others with
  | nil =>
    obtain ⟨rfl, rfl⟩ := List.cons.inj same
    have total : cs.length = front.length + part.length := by
      rw [← length_mark cs, whole, List.append_nil, List.length_append]
    rw [chars, List.map_nil, itemsFrom, total, slice_length whole, List.append_nil]
    rfl
  | cons m ms ih =>
    obtain ⟨next, rest, more⟩ := List.exists_cons_of_ne_nil (items_ne_nil ms)
    by_cases comma : m = (',', some 0)
    · subst comma
      rw [items, if_pos rfl, more] at same
      obtain ⟨rfl, rfl⟩ := List.cons.inj same
      have later := @ih (front ++ part ++ [(',', some 0)]) [] (by simp [whole]) next rest more
      simp only [List.length_append, List.length_cons, List.length_nil, Nat.add_zero,
        Nat.zero_add] at later
      rw [List.append_nil]
      exact itemsFrom_comma whole later
    · rw [items, if_neg comma, more] at same
      obtain ⟨rfl, rfl⟩ := List.cons.inj same
      have later := @ih front (part ++ [m]) (by simp [whole]) next rest more
      rw [List.length_append, List.length_singleton, ← Nat.add_assoc] at later
      rw [chars_cons, itemsFrom_other whole comma]
      simpa [chars] using later

end Items

end HttpWorkflow.Expression.Positions
