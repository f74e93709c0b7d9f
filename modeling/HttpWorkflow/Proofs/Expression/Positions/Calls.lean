import HttpWorkflow.Proofs.Expression.Positions.Parts
import Mathlib.Logic.Relation

/-! Calls and runs of the expansion by positions.

The body of a call succeeds, whatever its text. The calls in it go down in rank, which joins the
length of the text with the function that it is given to: the same text is handed on from items to
conditionals and from conditionals to groups, and only a shorter one gets back. So runs end, and
with the text that the expansion is defined by.
-/

set_option autoImplicit false

namespace HttpWorkflow.Expression.Positions

section Runs

/-- What a call writes, said without positions. -/
def plan : Call → List Chunk
  | .conditionals cs =>
    match split? cs with
    | some (condition, yes, no) =>
      [.text "if (".toList, .call (.groups (Text.trim condition)), .text ") \x7b ".toList,
        .call (.conditionals (Text.trim yes)), .text " \x7d else \x7b ".toList,
        .call (.conditionals (Text.trim no)), .text " \x7d".toList]
    | none => [.call (.groups cs)]
  | .groups cs => (pieces (mark cs)).flatMap chunks
  | .items cs =>
    ((items (mark cs)).map fun item => .call (.conditionals item)).intersperse (.text [','])

/-- No position is out of range, no counter goes below zero and no loop is left early. -/
theorem body_eq (call : Call) : body call = .ok (plan call) := by
  cases call with
  | conditionals cs =>
    rw [body, splitPositions_eq]
    dsimp only [bind, Except.bind]
    rw [plan]
    cases found : split? cs with
    | none => rfl
    | some parts =>
      obtain ⟨condition, yes, no⟩ := parts
      have whole := split?_eq_some found
      have first : slice cs 0 condition.length = .ok condition :=
        slice_eq (show cs = [] ++ (condition ++ _) from whole) rfl (Nat.zero_add _).symm
      have second : slice cs (condition.length + 1) (condition.length + 1 + yes.length) =
          .ok yes := by
        have parts : cs = (condition ++ ['?']) ++ (yes ++ ':' :: no) := by simp [whole]
        exact slice_eq parts (by simp) rfl
      have third : slice cs (condition.length + 1 + yes.length + 1) cs.length = .ok no := by
        have parts : cs = (condition ++ '?' :: (yes ++ [':'])) ++ (no ++ []) := by simp [whole]
        refine slice_eq parts ?_ ?_
        · simp
          omega
        · simp [whole]
          omega
      dsimp only [Option.map_some]
      rw [first]
      dsimp only
      rw [second]
      dsimp only
      rw [third]
      rfl
  | groups cs => exact @groupsFrom_eq cs [] (mark cs) rfl cs.length (Nat.le_of_eq (length_mark cs))
  | items cs =>
    obtain ⟨first, others, same⟩ := List.exists_cons_of_ne_nil (items_ne_nil (mark cs))
    have whole := @itemsFrom_eq cs [] [] (mark cs) rfl first others same
    rw [chars_mark] at whole
    rw [body, plan, same]
    dsimp only [bind, Except.bind]
    rw [show itemsFrom cs 0 0 cs = .ok (first :: others) from whole]
    rfl

section Separated

variable {α β : Type} (separator : α)

theorem map_intersperse (f : α → β) (xs : List α) :
    (xs.intersperse separator).map f = (xs.map f).intersperse (f separator) := by
  induction xs with
  | nil => rfl
  | cons x xs ih =>
    cases xs with
    | nil => rfl
    | cons y xs => simpa using ih

theorem mem_of_mem_intersperse {x : α} {xs : List α} (member : x ∈ xs.intersperse separator)
    (other : x ≠ separator) : x ∈ xs := by
  induction xs with
  | nil => exact member
  | cons y xs ih =>
    cases xs with
    | nil => exact member
    | cons z xs =>
      simp only [List.intersperse_cons_cons, List.mem_cons, other, false_or] at member
      exact List.mem_cons.mpr (member.imp_right fun later => ih later)

end Separated

def Call.value : Call → List Char
  | conditionals cs => expand cs
  | groups cs => expandGroups cs
  | items cs => expandItems cs

def Chunk.value : Chunk → List Char
  | text cs => cs
  | call c => c.value

theorem flatMap_chunks (piece : Piece) : (chunks piece).flatMap Chunk.value = piece.expand := by
  cases piece with
  | char c => rfl
  | group opening inner closing => simp [chunks, Chunk.value, Call.value, Piece.expand]

theorem flatMap_plan (call : Call) : (plan call).flatMap Chunk.value = call.value := by
  cases call with
  | conditionals cs =>
    rw [plan, Call.value]
    cases found : split? cs with
    | none => simp [Chunk.value, Call.value, expand_of_none found]
    | some parts =>
      obtain ⟨condition, yes, no⟩ := parts
      simp [Chunk.value, Call.value, expand_of_some found]
  | groups cs =>
    rw [plan, List.flatMap_assoc, Call.value, expandGroups_eq, funext flatMap_chunks]
  | items cs =>
    rw [plan, Call.value, expandItems_eq, List.flatMap_def, map_intersperse, List.map_map]
    rfl

/-- Calls go down in it: a part of the text is shorter, and the same text is only handed on from
items to conditionals and from conditionals to groups. -/
def Call.rank : Call → Nat
  | conditionals cs => 3 * cs.length + 1
  | groups cs => 3 * cs.length
  | items cs => 3 * cs.length + 2

theorem rank_lt_of_mem {call inner : Call} (member : .call inner ∈ plan call) :
    inner.rank < call.rank := by
  cases call with
  | conditionals cs =>
    rw [plan] at member
    cases found : split? cs with
    | none =>
      rw [found] at member
      obtain rfl := Chunk.call.inj (List.mem_singleton.mp member)
      exact Nat.lt_succ_self _
    | some parts =>
      obtain ⟨condition, yes, no⟩ := parts
      have shorter := length_split found
      have first := Text.length_trim_le condition
      have second := Text.length_trim_le yes
      have third := Text.length_trim_le no
      rw [found] at member
      simp only [List.mem_cons, reduceCtorEq, Chunk.call.injEq, List.not_mem_nil, or_false,
        false_or] at member
      rcases member with rfl | rfl | rfl <;> simp only [Call.rank] <;> omega
  | groups cs =>
    obtain ⟨piece, group, member⟩ := List.mem_flatMap.mp member
    cases piece with
    | char c => simp [chunks] at member
    | group opening held closing =>
      have shorter := length_of_group_mem group
      simp only [chunks, List.mem_cons, reduceCtorEq, Chunk.call.injEq, List.not_mem_nil, or_false,
        false_or] at member
      simp only [length_mark] at shorter
      rw [member, Call.rank, Call.rank]
      omega
  | items cs =>
    have member := mem_of_mem_intersperse _ member nofun
    obtain ⟨item, listed, same⟩ := List.mem_map.mp member
    have within := length_of_mem_items listed
    rw [length_mark] at within
    rw [← Chunk.call.inj same, Call.rank, Call.rank]
    omega

theorem mapM_write {depth : Nat} {parts : List Chunk}
    (answers : ∀ inner, .call inner ∈ parts → run depth inner = .ok inner.value) :
    parts.mapM (Chunk.write (run depth)) = .ok (parts.map Chunk.value) := by
  induction parts with
  | nil => rfl
  | cons part parts ih =>
    have first : part.write (run depth) = .ok part.value := by
      cases part with
      | text cs => rfl
      | call c => exact answers c List.mem_cons_self
    rw [List.mapM_cons, first, ih fun inner later => answers inner (List.mem_cons_of_mem _ later)]
    rfl

theorem run_eq {depth : Nat} {call : Call} (enough : call.rank < depth) :
    run depth call = .ok call.value := by
  -- What a call makes is of lower rank, so one open call less is enough for it.
  induction depth generalizing call with
  | zero => cases enough
  | succ depth ih =>
    have answers : ∀ inner, .call inner ∈ plan call → run depth inner = .ok inner.value := by
      intro inner member
      exact ih (Nat.lt_of_lt_of_le (rank_lt_of_mem member) (Nat.le_of_lt_succ enough))
    rw [run, body_eq]
    dsimp only [bind, Except.bind]
    rw [mapM_write answers, ← flatMap_plan, List.flatMap_def]
    rfl

theorem rank_lt_of_calls {call inner : Call} (calls : Calls call inner) :
    inner.rank < call.rank := by
  obtain ⟨parts, same, member⟩ := calls
  rw [body_eq] at same
  obtain rfl := Except.ok.inj same
  exact rank_lt_of_mem member

theorem rank_lt_of_path {call inner : Call} (path : Relation.TransGen Calls call inner) :
    inner.rank < call.rank := by
  induction path with
  | single calls => exact rank_lt_of_calls calls
  | tail _ calls shorter => exact Nat.lt_trans (rank_lt_of_calls calls) shorter

/-- The expansion of conditionals ends, with every position in range, and each way back from it to
itself is taken with fewer characters. -/
theorem run_ends (cs : List Char) :
    (∀ depth, 3 * cs.length + 2 ≤ depth → run depth (.conditionals cs) = .ok (expand cs)) ∧
      (∀ call, Relation.ReflTransGen Calls (.conditionals cs) call →
        ∃ parts, body call = .ok parts) ∧
      ∀ ds, Relation.TransGen Calls (.conditionals cs) (.conditionals ds) →
        ds.length < cs.length := by
  refine ⟨fun depth enough => run_eq enough, fun call _ => ⟨plan call, body_eq call⟩, ?_⟩
  intro ds path
  have less := rank_lt_of_path path
  rw [Call.rank, Call.rank] at less
  omega

/-- A conditional in brackets is reached through its group and its item. -/
theorem nested_ends :
    Relation.TransGen Calls (.conditionals "(b?c:d)".toList) (.conditionals "b?c:d".toList) ∧
      "b?c:d".toList.length < "(b?c:d)".toList.length := by
  have first : Calls (.conditionals "(b?c:d)".toList) (.groups "(b?c:d)".toList) :=
    ⟨[.call (.groups "(b?c:d)".toList)], rfl, by simp⟩
  have second : Calls (.groups "(b?c:d)".toList) (.items "b?c:d".toList) :=
    ⟨[.text ['('], .call (.items "b?c:d".toList), .text [')']], rfl, by simp⟩
  have third : Calls (.items "b?c:d".toList) (.conditionals "b?c:d".toList) :=
    ⟨[.call (.conditionals "b?c:d".toList)], rfl, by simp⟩
  have path := ((Relation.TransGen.single first).tail second).tail third
  exact ⟨path, (run_ends "(b?c:d)".toList).2.2 _ path⟩

end Runs

end HttpWorkflow.Expression.Positions
