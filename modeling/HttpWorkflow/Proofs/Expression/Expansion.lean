import HttpWorkflow.Expression.Conditional

/-! Equations of the expansion of conditionals, without the bounds that its recursion carries. -/

set_option autoImplicit false

namespace HttpWorkflow.Expression

def Piece.expand : Piece → List Char
  | .char c => [c]
  | .group opening inner closing => opening :: expandItems inner ++ [closing]

theorem expandGroups_eq (cs : List Char) :
    expandGroups cs = (pieces (mark cs)).flatMap Piece.expand := by
  rw [expandGroups, List.flatMap_subtype (g := Piece.expand), List.unattach_attach]
  intro piece member
  cases piece <;> rfl

theorem expandItems_eq (cs : List Char) :
    expandItems cs = [','].intercalate ((items (mark cs)).map expand) := by
  rw [expandItems, List.map_subtype (g := expand), List.unattach_attach]
  intro item member
  rfl

theorem expand_of_none {cs : List Char} (whole : split? cs = none) :
    expand cs = expandGroups cs := by
  rw [expand]
  split
  · next split => simp [whole] at split
  · rfl

theorem expand_of_some {cs condition yes no : List Char}
    (split : split? cs = some (condition, yes, no)) :
    expand cs = "if (".toList ++ expandGroups (Text.trim condition) ++ ") \x7b ".toList
      ++ expand (Text.trim yes) ++ " \x7d else \x7b ".toList ++ expand (Text.trim no)
      ++ " \x7d".toList := by
  rw [expand]
  split
  · next same =>
    rw [split] at same
    simp only [Option.some.injEq, Prod.mk.injEq] at same
    obtain ⟨rfl, rfl, rfl⟩ := same
    rfl
  · next whole => simp [split] at whole

end HttpWorkflow.Expression
