import HttpWorkflow.Proofs.Expression.Normalization
import HttpWorkflow.Proofs.Expression.Nesting

/-! Expansion of groups.

A group has no question mark, colon or comma outside its literals and brackets, so it is expanded
piece by piece: literals stay, and what brackets hold is expanded as a list.
-/

set_option autoImplicit false

namespace HttpWorkflow.Expression

/-- What stands for itself in a group, and what its blocks are expanded to. -/
def groupRules : Rules where
  Ordinary c := c ∉ ['?', ':', ',', '"', '`', '(', ')', '[', ']', '\x7b', '\x7d']
  Block a b := (∃ l : Literal, l.quote ≠ .single ∧ a = l.text ∧ b = l.text) ∨
    ∃ (bracket : Bracket) (inner : List Char), Closed inner ∧
      a = bracket.opening :: (inner ++ [bracket.closing]) ∧
      b = bracket.opening :: (expandItems inner ++ [bracket.closing])
  Next _ := True
  solid := by
    rintro a b (⟨l, _, rfl, rfl⟩ | ⟨bracket, inner, _, rfl, rfl⟩)
    · exact ⟨solid_literal l, solid_literal l⟩
    · cases bracket with
      | round => exact ⟨Solid.of_ends rfl rfl _, Solid.of_ends rfl rfl _⟩
      | square => exact ⟨Solid.of_ends rfl rfl _, Solid.of_ends rfl rfl _⟩
  next_append := fun _ _ => trivial
  next_front := fun _ => trivial

theorem isLevel_of_ordinary {c : Char} (ordinary : groupRules.Ordinary c) : isLevel c := by
  simp only [groupRules, List.mem_cons, List.not_mem_nil, or_false, not_or] at ordinary
  simp [isLevel, isOpening, isClosing, ordinary]

section Pieces

theorem pieces_char {m : Marked} (plain : ¬(m = ('(', some 0) ∨ m = ('[', some 0)))
    (rest : List Marked) : pieces (m :: rest) = .char m.1 :: pieces rest := by
  rw [pieces, if_neg plain]

theorem pieces_literal (cs : List Char) (rest : List Marked) :
    pieces (cs.map (fun c => (c, none)) ++ rest) = cs.map .char ++ pieces rest := by
  induction cs with
  | nil => rfl
  | cons c cs ih =>
    rw [List.map_cons, List.cons_append, pieces_char (by simp), ih]
    rfl

theorem isInner_lift (depth : Nat) (m : Marked) : isInner (lift (depth + 1) m) := by
  obtain ⟨c, _ | d⟩ := m <;> simp [isInner, lift]

theorem pieces_list (bracket : Bracket) (ms rest : List Marked) :
    pieces ((bracket.opening, some 0) :: (ms.map (lift 1) ++ (bracket.closing, some 0) :: rest)) =
      .group bracket.opening (chars ms) bracket.closing :: pieces rest := by
  have inner : ∀ m ∈ ms.map (lift 1), isInner m := by
    intro m member
    obtain ⟨m, _, rfl⟩ := List.mem_map.mp member
    exact isInner_lift 0 m
  have outer : isInner (bracket.closing, some 0) = false := rfl
  have opens : (bracket.opening, some 0) = ('(', some 0) ∨
      (bracket.opening, some 0) = ('[', some 0) := by
    cases bracket
    · exact Or.inl rfl
    · exact Or.inr rfl
  -- The closing bracket is the first outer one, since all that is between is deeper.
  have left : (ms.map (lift 1) ++ (bracket.closing, some 0) :: rest).dropWhile isInner =
      (bracket.closing, some 0) :: rest := by
    rw [List.dropWhile_append_of_pos inner, List.dropWhile_cons_of_neg (by simp [outer])]
  have taken : (ms.map (lift 1) ++ (bracket.closing, some 0) :: rest).takeWhile isInner =
      ms.map (lift 1) := by
    rw [List.takeWhile_append_of_pos inner, List.takeWhile_cons_of_neg (by simp [outer]),
      List.append_nil]
  rw [pieces, if_pos opens]
  split
  · next close after same =>
    rw [left] at same
    obtain ⟨rfl, rfl⟩ := List.cons.inj same
    rw [taken, chars_lift]
  · next none =>
    rw [left] at none
    cases none

end Pieces

section Groups

variable {s t : List Char}

/-- No question mark, colon or comma on the outermost level. -/
def Quiet (ms : List Marked) : Prop :=
  ∀ m ∈ ms, m ≠ ('?', some 0) ∧ m ≠ (':', some 0) ∧ m ≠ (',', some 0)

theorem Aligned.closed (group : Aligned groupRules s t) : Closed s := by
  induction group with
  | nil => exact Closed.nil
  | char ordinary _ ih => exact (closed_level (isLevel_of_ordinary ordinary)).append ih
  | block block _ _ ih =>
    obtain ⟨l, other, rfl, rfl⟩ | ⟨bracket, inner, closed, rfl, rfl⟩ := block
    · exact (closed_literal other).append ih
    · exact (closed_list bracket closed).append ih

theorem quiet_literal (cs : List Char) : Quiet (cs.map fun c => (c, none)) := by
  intro m member
  obtain ⟨c, _, rfl⟩ := List.mem_map.mp member
  simp

theorem quiet_lift (ms : List Marked) : Quiet (ms.map (lift 1)) := by
  intro m member
  obtain ⟨⟨c, depth⟩, _, rfl⟩ := List.mem_map.mp member
  cases depth <;> simp [lift]

theorem Quiet.append {ms ns : List Marked} (first : Quiet ms) (second : Quiet ns) :
    Quiet (ms ++ ns) := by
  intro m member
  rcases List.mem_append.mp member with early | late
  · exact first m early
  · exact second m late

theorem quiet_singleton {c : Char} (plain : c ≠ '?' ∧ c ≠ ':' ∧ c ≠ ',') (depth : Option Nat) :
    Quiet [(c, depth)] := by
  intro m member
  rw [List.mem_singleton.mp member]
  simp [plain]

theorem Aligned.quiet (group : Aligned groupRules s t) : Quiet (mark s) := by
  induction group with
  | nil => exact nofun
  | @char c s _ ordinary _ ih =>
    have level := isLevel_of_ordinary ordinary
    have plain : c ≠ '?' ∧ c ≠ ':' ∧ c ≠ ',' := by
      simp only [groupRules, List.mem_cons, not_or] at ordinary
      exact ⟨ordinary.1, ordinary.2.1, ordinary.2.2.1⟩
    rw [mark, markCode_level level]
    exact (quiet_singleton plain (some 0)).append ih
  | block block _ _ ih =>
    obtain ⟨l, other, rfl, rfl⟩ | ⟨bracket, inner, closed, rfl, rfl⟩ := block
    · rw [(closed_literal other).mark_append, mark_literal other]
      exact (quiet_literal _).append ih
    · rw [(closed_list bracket closed).mark_append, mark_list bracket closed]
      have opening : Quiet [(bracket.opening, some 0)] :=
        quiet_singleton (by cases bracket <;> decide) _
      have closing : Quiet [(bracket.closing, some 0)] :=
        quiet_singleton (by cases bracket <;> decide) _
      exact (opening.append ((quiet_lift (mark inner)).append closing)).append ih

theorem Aligned.expandGroups (group : Aligned groupRules s t) : expandGroups s = t := by
  induction group with
  | nil => simp [expandGroups_eq, mark, markCode, pieces]
  | @char c s _ ordinary _ ih =>
    have plain : ¬((c, some 0) = ('(', some 0) ∨ (c, some 0) = ('[', some 0)) := by
      rintro (same | same) <;> obtain ⟨rfl, _⟩ := Prod.mk.inj same <;> exact ordinary (by decide)
    rw [expandGroups_eq, mark, markCode_level (isLevel_of_ordinary ordinary), pieces_char plain,
      List.flatMap_cons, ← mark, ← expandGroups_eq, ih]
    rfl
  | block block _ _ ih =>
    rw [expandGroups_eq] at ih ⊢
    obtain ⟨l, other, rfl, rfl⟩ | ⟨bracket, inner, closed, rfl, rfl⟩ := block
    · rw [(closed_literal other).mark_append, mark_literal other, pieces_literal,
        List.flatMap_append, ih, List.flatMap_map]
      simp [Piece.expand]
    · rw [(closed_list bracket closed).mark_append, mark_list bracket closed, List.cons_append,
        List.append_assoc, List.singleton_append, pieces_list, List.flatMap_cons, ih, chars_mark]
      rfl

end Groups

end HttpWorkflow.Expression
