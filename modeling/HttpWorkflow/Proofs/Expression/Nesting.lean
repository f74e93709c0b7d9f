import HttpWorkflow.Proofs.Expression.Expansion
import HttpWorkflow.Proofs.Expression.Tree

/-! Depths of the characters of a text.

A text is closed when it can stand at any depth and leaves the text after it at that depth. The
depths of its characters are then those that they have on their own, moved by one number.
-/

set_option autoImplicit false

namespace HttpWorkflow.Expression

def lift (depth : Nat) (m : Marked) : Marked := (m.1, m.2.map (· + depth))

def Closed (s : List Char) : Prop :=
  ∀ depth rest, markCode depth (s ++ rest) = (mark s).map (lift depth) ++ markCode depth rest

theorem lift_zero (m : Marked) : lift 0 m = m := by
  obtain ⟨c, _ | depth⟩ := m <;> rfl

theorem map_lift_zero (ms : List Marked) : ms.map (lift 0) = ms := by
  rw [show lift 0 = id from funext lift_zero, List.map_id]

theorem lift_lift (d e : Nat) (m : Marked) : lift d (lift e m) = lift (e + d) m := by
  obtain ⟨c, _ | depth⟩ := m
  · rfl
  · simp [lift, Nat.add_assoc]

mutual

theorem chars_markCode (depth : Nat) (cs : List Char) : chars (markCode depth cs) = cs := by
  cases cs with
  | nil => simp [markCode, chars]
  | cons c rest =>
    unfold markCode
    split
    · exact congrArg (c :: ·) (chars_markLiteral depth c false rest)
    · split
      · exact congrArg (c :: ·) (chars_markCode (depth + 1) rest)
      · split
        · exact congrArg (c :: ·) (chars_markCode (depth - 1) rest)
        · exact congrArg (c :: ·) (chars_markCode depth rest)

theorem chars_markLiteral (depth : Nat) (quote : Char) (escaped : Bool) (cs : List Char) :
    chars (markLiteral depth quote escaped cs) = cs := by
  cases cs with
  | nil => simp [markLiteral, chars]
  | cons c rest =>
    unfold markLiteral
    refine congrArg (c :: ·) ?_
    split
    · exact chars_markLiteral depth quote false rest
    · split
      · exact chars_markLiteral depth quote true rest
      · split
        · exact chars_markCode depth rest
        · exact chars_markLiteral depth quote false rest

end

theorem chars_cons (m : Marked) (ms : List Marked) : chars (m :: ms) = m.1 :: chars ms := rfl

@[simp] theorem length_chars (ms : List Marked) : (chars ms).length = ms.length := List.length_map _

@[simp] theorem chars_mark (cs : List Char) : chars (mark cs) = cs := chars_markCode 0 cs

@[simp] theorem chars_lift (depth : Nat) (ms : List Marked) :
    chars (ms.map (lift depth)) = chars ms := by
  simp [chars, lift, Function.comp_def]

namespace Closed

variable {s t : List Char}

theorem mark_append (closed : Closed s) (rest : List Char) :
    mark (s ++ rest) = mark s ++ mark rest := by
  have moved := closed 0 rest
  rwa [map_lift_zero] at moved

theorem append (first : Closed s) (second : Closed t) : Closed (s ++ t) := by
  intro depth rest
  rw [List.append_assoc, first, second, first.mark_append, List.map_append, List.append_assoc]

theorem nil : Closed [] := fun _ _ => rfl

end Closed

section Char

/-- Characters that keep the depth and begin no literal. -/
def isLevel (c : Char) : Bool := !(c = '"' || c = '`' || isOpening c || isClosing c)

variable {c : Char}

theorem markCode_level (level : isLevel c) (depth : Nat) (rest : List Char) :
    markCode depth (c :: rest) = (c, some depth) :: markCode depth rest := by
  simp only [isLevel, Bool.not_eq_true', Bool.or_eq_false_iff, decide_eq_false_iff_not] at level
  obtain ⟨⟨⟨notQuote, notTick⟩, notOpening⟩, notClosing⟩ := level
  simp [markCode, notQuote, notTick, notOpening, notClosing]

theorem mark_level (level : isLevel c) : mark [c] = [(c, some 0)] := by
  rw [mark, markCode_level level, markCode]

theorem closed_level (level : isLevel c) : Closed [c] := by
  intro depth rest
  rw [mark_level level, List.singleton_append, markCode_level level]
  simp [lift]

end Char

section Literals

theorem markLiteral_text {quote : Quote} (parts : List (Part quote)) (depth : Nat)
    (rest : List Char) :
    markLiteral depth quote.char false (parts.flatMap Part.text ++ quote.char :: rest) =
      (parts.flatMap Part.text ++ [quote.char]).map (fun c => (c, none)) ++ markCode depth rest := by
  have notSlash : quote.char ≠ '\\' := by cases quote <;> decide
  induction parts with
  | nil => simp [markLiteral, notSlash]
  | cons part parts ih =>
    rw [List.flatMap_cons, List.append_assoc, List.append_assoc, List.map_append, List.append_assoc,
      ← ih]
    cases part with
    | plain c inside => simp [Part.text, markLiteral, inside.1, inside.2]
    | escaped c => simp [Part.text, markLiteral]

variable {l : Literal}

theorem markCode_literal (other : l.quote ≠ .single) (depth : Nat) (rest : List Char) :
    markCode depth (l.text ++ rest) = l.text.map (fun c => (c, none)) ++ markCode depth rest := by
  obtain ⟨quote, parts⟩ := l
  have begins : quote.char = '"' ∨ quote.char = '`' := by
    cases quote with
    | single => exact absurd rfl other
    | double => exact Or.inl rfl
    | back => exact Or.inr rfl
  have inside := markLiteral_text parts depth rest
  simp only [Literal.text, List.cons_append, List.append_assoc, List.nil_append, List.map_cons]
  rw [markCode, if_pos begins, inside]

theorem mark_literal (other : l.quote ≠ .single) : mark l.text = l.text.map (fun c => (c, none)) := by
  have whole := markCode_literal other 0 []
  rwa [List.append_nil, markCode, List.append_nil] at whole

theorem closed_literal (other : l.quote ≠ .single) : Closed l.text := by
  intro depth rest
  rw [markCode_literal other, mark_literal other, List.map_map]
  rfl

end Literals

section Brackets

variable {inner : List Char}

theorem markCode_list (bracket : Bracket) (closed : Closed inner) (depth : Nat)
    (rest : List Char) :
    markCode depth (bracket.opening :: (inner ++ bracket.closing :: rest)) =
      (bracket.opening, some depth) :: ((mark inner).map (lift (depth + 1)) ++
        (bracket.closing, some depth) :: markCode depth rest) := by
  have opens (cs : List Char) : markCode depth (bracket.opening :: cs) =
      (bracket.opening, some depth) :: markCode (depth + 1) cs := by
    cases bracket <;> simp [markCode, Bracket.opening, isOpening]
  have closes (cs : List Char) : markCode (depth + 1) (bracket.closing :: cs) =
      (bracket.closing, some depth) :: markCode depth cs := by
    cases bracket <;> simp [markCode, Bracket.closing, isOpening, isClosing]
  rw [opens, closed, closes]

theorem mark_list (bracket : Bracket) (closed : Closed inner) :
    mark (bracket.opening :: (inner ++ [bracket.closing])) =
      (bracket.opening, some 0) :: ((mark inner).map (lift 1) ++ [(bracket.closing, some 0)]) := by
  rw [mark, markCode_list bracket closed, markCode]

theorem closed_list (bracket : Bracket) (closed : Closed inner) :
    Closed (bracket.opening :: (inner ++ [bracket.closing])) := by
  intro depth rest
  -- What is inside is one deeper than the brackets, at whatever depth these stand.
  have moved : lift depth ∘ lift 1 = lift (depth + 1) := by
    funext m
    rw [Function.comp_apply, lift_lift, Nat.add_comm]
  rw [mark_list bracket closed, List.cons_append, List.append_assoc, List.singleton_append,
    markCode_list bracket closed]
  simp [lift, moved]

end Brackets

end HttpWorkflow.Expression
