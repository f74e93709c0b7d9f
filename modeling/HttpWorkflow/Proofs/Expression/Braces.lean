import HttpWorkflow.Expression.Evaluator
import HttpWorkflow.Proofs.Expression.Splitting
import HttpWorkflow.Proofs.Text.Trim
import Mathlib

/-! Texts that begin with a brace.

Blocks of code are no expressions, and the translation of conditionals leaves a brace at the front
of its text or of the first condition. So such a text is JSON or stands for itself.
-/

set_option autoImplicit false

namespace HttpWorkflow

namespace Script

namespace Parser

section Braces

variable {fuel : Nat} {place : Place} {s : State} {rest : List Token}

@[simp] theorem run_fail {α : Type} (s : State) : (fail : Parser α).run s = none := rfl

@[simp] theorem run_peek (s : State) : peek.run s = some (s.tokens.head?, s) := rfl

@[simp] theorem run_advance (s : State) :
    advance.run s = some ((), { s with tokens := s.tokens.drop 1 }) := rfl

theorem run_deeper_bind {α : Type} {f : Place × State → Option α}
    (fails : ∀ p : Place, p.bare = place.bare → f (p, s) = none) :
    (place.deeper.run s).bind f = none := by
  unfold Place.deeper
  split
  · exact fails _ rfl
  · rfl

/-- An expression without a sign in front fails with its first operand. -/
theorem expression_of_primary {t : Token} (bare : place.bare = true)
    (head : s.tokens.head? = some t) (unsigned : ∀ sign ∈ ["-", "+", "!"], t ≠ .symbol sign)
    (fails : ∀ (fuel : Nat) (p : Place), p.bare = true → (primary fuel p).run s = none) :
    (expression fuel place).run s = none := by
  -- Nothing is taken off the tokens on the way down to the first operand.
  have operand (fuel : Nat) (p : Place) (bare : p.bare = true) : (unary fuel p).run s = none := by
    cases fuel with
    | zero => rfl
    | succ fuel =>
      rw [unary, StateT.run_bind, run_peek, head]
      simp only [List.forall_mem_cons] at unsigned
      obtain ⟨minus, plus, bang, _⟩ := unsigned
      simp only [Option.bind_eq_bind, Option.bind_some]
      split
      · next same => exact absurd (Option.some.inj same) minus
      · next same => exact absurd (Option.some.inj same) plus
      · next same => exact absurd (Option.some.inj same) bang
      · rw [StateT.run_bind, fails fuel p bare, Option.bind_eq_bind, Option.bind_none]
  cases fuel with
  | zero => rfl
  | succ fuel =>
    rw [expression, StateT.run_bind]
    refine run_deeper_bind fun p same => ?_
    dsimp only
    rw [StateT.run_bind, operand fuel p (same.trans bare), Option.bind_eq_bind, Option.bind_none]

theorem primary_brace (bare : place.bare = true) (head : s.tokens = .symbol "\x7b" :: rest) :
    (primary fuel place).run s = none := by
  cases fuel with
  | zero => rfl
  | succ fuel => simp [primary, StateT.run_bind, head, bare]

theorem expression_brace (bare : place.bare = true) (head : s.tokens = .symbol "\x7b" :: rest) :
    (expression fuel place).run s = none :=
  expression_of_primary bare (congrArg List.head? head) (by simp)
    fun _ _ bare => primary_brace bare head

theorem run_accept_of_ne {sign : String} (other : isSymbol sign s.tokens.head? = false) :
    (accept sign).run s = some (false, s) := by
  simp [accept, nextIs, StateT.run_bind, other]

theorem primary_parenthesis (bare : place.bare = true)
    (head : s.tokens = .symbol "(" :: .symbol "\x7b" :: rest) :
    (primary fuel place).run s = none := by
  cases fuel with
  | zero => rfl
  | succ fuel =>
    simp only [primary, StateT.run_bind, run_peek, head, List.head?_cons, Option.bind_eq_bind,
      Option.bind_some, run_advance, List.drop_one, List.tail_cons]
    refine run_deeper_bind fun p same => ?_
    dsimp only
    rw [run_accept_of_ne (by rfl)]
    simp only [Option.bind_some, Bool.false_eq_true, if_false, StateT.run_bind]
    rw [expression_brace (same.trans bare) (by rfl), Option.bind_eq_bind, Option.bind_none]

theorem expression_parenthesis (bare : place.bare = true)
    (head : s.tokens = .symbol "(" :: .symbol "\x7b" :: rest) :
    (expression fuel place).run s = none :=
  expression_of_primary bare (congrArg List.head? head) (by simp)
    fun _ _ bare => primary_parenthesis bare head

theorem branch_parenthesis (bare : place.bare = true)
    (head : s.tokens = .keyword "if" :: .symbol "(" :: .symbol "\x7b" :: rest) :
    (branch fuel place).run s = none := by
  cases fuel with
  | zero => rfl
  | succ fuel =>
    have word : (expectWord "if").run s = some ((), { s with tokens := s.tokens.drop 1 }) := by
      simp [expectWord, acceptWord, nextIsWord, StateT.run_bind, head, isKeyword]
    rw [branch, StateT.run_bind, word]
    simp only [Option.bind_eq_bind, Option.bind_some]
    rw [StateT.run_bind]
    refine run_deeper_bind fun p same => ?_
    dsimp only
    rw [StateT.run_bind, expression_parenthesis (same.trans bare) (by rw [head]; rfl)]
    rfl

theorem primary_if (bare : place.bare = true)
    (head : s.tokens = .keyword "if" :: .symbol "(" :: .symbol "\x7b" :: rest) :
    (primary fuel place).run s = none := by
  cases fuel with
  | zero => rfl
  | succ fuel =>
    simp only [primary, StateT.run_bind, run_peek, head, List.head?_cons, Option.bind_eq_bind,
      Option.bind_some]
    refine run_deeper_bind fun p same => ?_
    change ((branch fuel p).run s).bind _ = none
    rw [branch_parenthesis (same.trans bare) head, Option.bind_none]

theorem expression_if (bare : place.bare = true)
    (head : s.tokens = .keyword "if" :: .symbol "(" :: .symbol "\x7b" :: rest) :
    (expression fuel place).run s = none :=
  expression_of_primary bare (congrArg List.head? head) (by simp)
    fun _ _ bare => primary_if bare head

end Braces

end Parser

namespace Token

variable {fuel : Nat} {cs rest : List Char} {ts : List Token}

theorem tokens?_brace (scanned : tokens? fuel none false ('\x7b' :: cs) = some (ts, rest)) :
    ∃ more, ts = .symbol "\x7b" :: more := by
  cases fuel with
  | zero => simp [tokens?] at scanned
  | succ fuel =>
    simp only [tokens?] at scanned
    obtain ⟨⟨more, _⟩, _, scanned⟩ := Option.bind_eq_some_iff.mp scanned
    simp only [pure, Option.some.injEq, Prod.mk.injEq] at scanned
    exact ⟨more, scanned.1.symm⟩

theorem tokens?_parenthesis
    (scanned : tokens? fuel none false ('(' :: '\x7b' :: cs) = some (ts, rest)) :
    ∃ more, ts = .symbol "(" :: .symbol "\x7b" :: more := by
  cases fuel with
  | zero => simp [tokens?] at scanned
  | succ fuel =>
    have sign : sign? ('(' :: '\x7b' :: cs) = some (.symbol "(", '\x7b' :: cs) := by rfl
    have operand : (Token.symbol "(").endsOperand = false := by rfl
    simp [tokens?, isSpace, isNameStart, notIn?, sign, operand] at scanned
    obtain ⟨⟨later, _⟩, more, scanned⟩ := Option.bind_eq_some_iff.mp scanned
    simp only [Option.some.injEq, Prod.mk.injEq] at scanned
    obtain ⟨rfl, rfl⟩ := scanned
    obtain ⟨last, rfl⟩ := tokens?_brace more
    exact ⟨last, rfl⟩

theorem tokens?_space (scanned : tokens? fuel none false (' ' :: cs) = some (ts, rest)) :
    ∃ fuel, tokens? fuel none false cs = some (ts, rest) := by
  cases fuel with
  | zero => simp [tokens?] at scanned
  | succ fuel =>
    simp [tokens?, isSpace] at scanned
    exact ⟨fuel, scanned⟩

theorem tokens?_if (scanned : tokens? fuel none false ("if (".toList ++ '\x7b' :: cs) =
    some (ts, rest)) :
    ∃ more, ts = .keyword "if" :: .symbol "(" :: .symbol "\x7b" :: more := by
  cases fuel with
  | zero => simp [tokens?] at scanned
  | succ fuel =>
    have taken : ('i' :: 'f' :: ' ' :: '(' :: '\x7b' :: cs).takeWhile isNamePart = ['i', 'f'] := by
      rfl
    have left : ('i' :: 'f' :: ' ' :: '(' :: '\x7b' :: cs).dropWhile isNamePart =
        ' ' :: '(' :: '\x7b' :: cs := by
      rfl
    have read (left : Nat) : word ['i', 'f'] left = .keyword "if" := by rfl
    simp [tokens?, isSpace, isNameStart] at scanned
    rw [taken, left, read] at scanned
    obtain ⟨⟨later, _⟩, more, scanned⟩ := Option.bind_eq_some_iff.mp scanned
    simp only [Option.some.injEq, Prod.mk.injEq] at scanned
    obtain ⟨rfl, rfl⟩ := scanned
    obtain ⟨_, more⟩ := tokens?_space more
    obtain ⟨last, rfl⟩ := tokens?_parenthesis more
    exact ⟨last, rfl⟩

end Token

theorem scan?_brace {text : String} {cs : List Char} {ts : List Token}
    (head : text.toList = '\x7b' :: cs ∨ text.toList = "if (".toList ++ '\x7b' :: cs)
    (scanned : Token.scan? text = some ts) :
    ∃ more, ts = .symbol "\x7b" :: more ∨
      ts = .keyword "if" :: .symbol "(" :: .symbol "\x7b" :: more := by
  obtain ⟨⟨_, rest⟩, read, rfl⟩ := Option.map_eq_some_iff.mp scanned
  rcases head with same | same
  · rw [same] at read
    obtain ⟨more, first⟩ := Token.tokens?_brace read
    exact ⟨more, Or.inl first⟩
  · rw [same] at read
    obtain ⟨more, first⟩ := Token.tokens?_if read
    exact ⟨more, Or.inr first⟩

theorem compileExpression?_brace {text : String} {cs : List Char}
    (head : text.toList = '\x7b' :: cs ∨ text.toList = "if (".toList ++ '\x7b' :: cs) :
    Program.compileExpression? text = none := by
  unfold Program.compileExpression?
  cases scanned : Token.scan? text with
  | none => rfl
  | some ts =>
    have fails : (Parser.expression (Parser.fuelFor text)
        ⟨0, Parser.expressionLimit, true, false⟩).run (Parser.start text ts "e") = none := by
      obtain ⟨more, rfl | rfl⟩ := scan?_brace head scanned
      · exact Parser.expression_brace rfl rfl
      · exact Parser.expression_if rfl rfl
    simp only [Option.bind_eq_bind, Option.bind_some, fails, Option.bind_none]

end Script

namespace Expression

theorem mark_brace (cs : List Char) : mark ('\x7b' :: cs) = ('\x7b', some 0) :: markCode 1 cs := by
  simp [mark, markCode, isOpening]

theorem expandGroups_brace (cs : List Char) :
    ∃ more, expandGroups ('\x7b' :: cs) = '\x7b' :: more := by
  have other : ¬(('\x7b', some 0) = ('(', some 0) ∨ ('\x7b', some 0) = (('[', some 0) : Marked)) := by
    decide
  rw [expandGroups_eq, mark_brace, pieces, if_neg other, List.flatMap_cons]
  exact ⟨_, rfl⟩

theorem split?_brace {cs condition yes no : List Char}
    (split : split? ('\x7b' :: cs) = some (condition, yes, no)) :
    ∃ more, condition = '\x7b' :: more := by
  have whole := split?_eq_some split
  cases condition with
  | nil => simp at whole
  | cons c more =>
    obtain ⟨rfl, _⟩ := List.cons.inj whole
    exact ⟨more, rfl⟩

theorem expand_brace (cs : List Char) : ∃ more, expand ('\x7b' :: cs) = '\x7b' :: more ∨
    expand ('\x7b' :: cs) = "if (".toList ++ '\x7b' :: more := by
  cases split : split? ('\x7b' :: cs) with
  | none =>
    obtain ⟨more, same⟩ := expandGroups_brace cs
    exact ⟨more, Or.inl ((expand_of_none split).trans same)⟩
  | some parts =>
    obtain ⟨condition, yes, no⟩ := parts
    -- The brace begins the condition, which the script puts right after the parenthesis.
    obtain ⟨front, rfl⟩ := split?_brace split
    obtain ⟨more, same⟩ := expandGroups_brace (Text.trimEnd front)
    have whole := expand_of_some split
    rw [Text.trim_cons_visible rfl, same] at whole
    simp only [List.append_assoc, List.cons_append] at whole
    exact ⟨_, Or.inr whole⟩

theorem toScript_brace {text : String} {cs : List Char} (head : text.toList = '\x7b' :: cs) :
    ∃ more, (toScript text).toList = '\x7b' :: more ∨
      (toScript text).toList = "if (".toList ++ '\x7b' :: more := by
  have kept : normalize .code ('\x7b' :: cs) = '\x7b' :: normalize .code cs := by
    simp [normalize]
  rw [toScript, String.toList_ofList, head, kept]
  exact expand_brace _

/-- A text that begins with a brace is JSON or stands for itself. -/
theorem evaluate_brace {text : String} {cs : List Char} (head : text.toList = '\x7b' :: cs)
    (library : Script.Program) (constants : Script.Constants) (maxOperations : Nat) :
    evaluate library constants maxOperations text =
      match Json.parse? text with
      | some literal => integral literal
      | none => .string text := by
  obtain ⟨more, script⟩ := toScript_brace head
  have noValue : value? library constants maxOperations text = none := by
    rw [value?, Script.compileExpression?_brace script]
    rfl
  cases parsed : Json.parse? text with
  | some literal => simp only [evaluate, parsed]
  | none => simp only [evaluate, parsed, noValue]

end Expression

end HttpWorkflow
