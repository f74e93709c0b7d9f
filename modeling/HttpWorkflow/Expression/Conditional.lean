import HttpWorkflow.Expression.Literals
import HttpWorkflow.Text.Blank

/-! Conditionals `c ? a : b`, written out as `if (c) { a } else { b }`.

Every character outside string literals has a nesting depth. A conditional is found by its
outermost question mark and the colon that matches it; then its parts are expanded in turn, and so
are the items inside round and square brackets. All of these are shorter than the text that holds
them, so the expansion ends.
-/

set_option autoImplicit false

namespace HttpWorkflow.Expression

/-- A character with its nesting depth, or with none inside a literal. -/
abbrev Marked := Char × Option Nat

def isOpening (c : Char) : Bool := c = '(' || c = '[' || c = '{'

def isClosing (c : Char) : Bool := c = ')' || c = ']' || c = '}'

mutual

/-- Depths of the characters of code. A bracket has the depth of the level it opens or closes. -/
def markCode (depth : Nat) : List Char → List Marked
  | [] => []
  | c :: rest =>
    if c = '"' ∨ c = '`' then (c, none) :: markLiteral depth c false rest
    else if isOpening c then (c, some depth) :: markCode (depth + 1) rest
    else if isClosing c then (c, some (depth - 1)) :: markCode (depth - 1) rest
    else (c, some depth) :: markCode depth rest

def markLiteral (depth : Nat) (quote : Char) (escaped : Bool) : List Char → List Marked
  | [] => []
  | c :: rest =>
    (c, none) ::
      if escaped then markLiteral depth quote false rest
      else if c = '\\' then markLiteral depth quote true rest
      else if c = quote then markCode depth rest
      else markLiteral depth quote false rest

end

def mark (cs : List Char) : List Marked := markCode 0 cs

def chars (ms : List Marked) : List Char := ms.map (·.1)

/-- Whether an outermost `?` begins a conditional: `??`, `?.` and `?[` are operators. -/
def isQuestion (previous : Option Char) (m : Marked) (rest : List Marked) : Bool :=
  let next := rest.head?.map (·.1)
  m = ('?', some 0) && previous ≠ some '?'
    && !(next = some '?' || next = some '.' || next = some '[')

/-- Whether an outermost `:` is not part of a `::`. -/
def isColon (previous : Option Char) (m : Marked) (rest : List Marked) : Bool :=
  m = (':', some 0) && previous ≠ some ':' && rest.head?.map (·.1) ≠ some ':'

/-- The text before the first question mark, and the text after it. -/
def splitQuestion (previous : Option Char) : List Marked → Option (List Char × List Marked)
  | [] => none
  | m :: rest =>
    if isQuestion previous m rest then some ([], rest)
    else (splitQuestion (some m.1) rest).map fun (before, after) => (m.1 :: before, after)

/-- The text before the colon that matches, and the text after it. `nested` question marks still
wait for theirs. -/
def splitColon (previous : Option Char) (nested : Nat) : List Marked → Option (List Char × List Char)
  | [] => none
  | m :: rest =>
    let go (nested : Nat) := (splitColon (some m.1) nested rest).map fun (a, b) => (m.1 :: a, b)
    if isQuestion previous m rest then go (nested + 1)
    else if isColon previous m rest then
      match nested with
      | 0 => some ([], chars rest)
      | nested + 1 => go nested
    else go nested

/-- The condition and the two branches of the outermost conditional. -/
def split? (cs : List Char) : Option (List Char × List Char × List Char) := do
  let (condition, rest) ← splitQuestion none (mark cs)
  let (yes, no) ← splitColon (some '?') 0 rest
  return (condition, yes, no)

/-- A part of a text: a character, or a bracketed group on its outermost level. -/
inductive Piece where
  | char (c : Char)
  | group (opening : Char) (inner : List Char) (closing : Char)

def isInner (m : Marked) : Bool := m.2 ≠ some 0

/-- Round and square brackets with what they hold; one that stays open is a plain character. -/
def pieces : List Marked → List Piece
  | [] => []
  | m :: rest =>
    if m = ('(', some 0) ∨ m = ('[', some 0) then
      match _h : rest.dropWhile isInner with
      | close :: after => .group m.1 (chars (rest.takeWhile isInner)) close.1 :: pieces after
      | [] => .char m.1 :: pieces rest
    else .char m.1 :: pieces rest
termination_by ms => ms.length
decreasing_by
  · have := congrArg List.length _h
    have := (List.dropWhile_sublist (l := rest) isInner).length_le
    simp only [List.length_cons] at *
    omega
  all_goals simp

/-- The items between outermost commas. -/
def items : List Marked → List (List Char)
  | [] => [[]]
  | m :: rest =>
    if m = (',', some 0) then [] :: items rest
    else match items rest with
      | [] => [[m.1]]
      | first :: others => (m.1 :: first) :: others

mutual

theorem length_markCode (depth : Nat) (cs : List Char) : (markCode depth cs).length = cs.length := by
  cases cs with
  | nil => simp [markCode]
  | cons c rest =>
    unfold markCode
    split
    · simp [length_markLiteral]
    · split
      · simp [length_markCode]
      · split <;> simp [length_markCode]

theorem length_markLiteral (depth : Nat) (quote : Char) (escaped : Bool) (cs : List Char) :
    (markLiteral depth quote escaped cs).length = cs.length := by
  cases cs with
  | nil => simp [markLiteral]
  | cons c rest =>
    unfold markLiteral
    simp only [List.length_cons]
    congr 1
    split
    · exact length_markLiteral ..
    · split
      · exact length_markLiteral ..
      · split
        · exact length_markCode ..
        · exact length_markLiteral ..

end

@[simp] theorem length_mark (cs : List Char) : (mark cs).length = cs.length := length_markCode 0 cs

theorem length_splitQuestion {previous : Option Char} {ms : List Marked} {before : List Char}
    {after : List Marked} (h : splitQuestion previous ms = some (before, after)) :
    before.length + after.length + 1 = ms.length := by
  induction ms generalizing previous before after with
  | nil => simp [splitQuestion] at h
  | cons m rest ih =>
    unfold splitQuestion at h
    split at h
    · simp only [Option.some.injEq, Prod.mk.injEq] at h
      simp [← h.1, ← h.2]
    · obtain ⟨⟨b, a⟩, hs, he⟩ := Option.map_eq_some_iff.1 h
      simp only [Prod.mk.injEq] at he
      have := ih hs
      simp only [← he.1, ← he.2, List.length_cons]
      omega

theorem length_splitColon {previous : Option Char} {nested : Nat} {ms : List Marked}
    {yes no : List Char} (h : splitColon previous nested ms = some (yes, no)) :
    yes.length + no.length + 1 = ms.length := by
  induction ms generalizing previous nested yes no with
  | nil => simp [splitColon] at h
  | cons m rest ih =>
    have step {nested : Nat} {yes no : List Char}
        (h : (splitColon (some m.1) nested rest).map (fun (a, b) => (m.1 :: a, b)) = some (yes, no)) :
        yes.length + no.length + 1 = (m :: rest).length := by
      obtain ⟨⟨a, b⟩, hs, he⟩ := Option.map_eq_some_iff.1 h
      simp only [Prod.mk.injEq] at he
      have := ih hs
      simp only [← he.1, ← he.2, List.length_cons]
      omega
    unfold splitColon at h
    split at h
    · exact step h
    · split at h
      · cases nested with
        | zero =>
          simp only [Option.some.injEq, Prod.mk.injEq] at h
          simp [← h.1, ← h.2, chars]
        | succ nested => exact step h
      · exact step h

/-- Nothing but the question mark and the colon is lost. -/
theorem length_split {cs condition yes no : List Char}
    (h : split? cs = some (condition, yes, no)) :
    condition.length + yes.length + no.length + 2 = cs.length := by
  unfold split? at h
  obtain ⟨⟨c, rest⟩, hq, h⟩ := Option.bind_eq_some_iff.1 h
  obtain ⟨⟨a, b⟩, hc, h⟩ := Option.bind_eq_some_iff.1 h
  have hq := length_splitQuestion hq
  have hc := length_splitColon hc
  simp only [length_mark] at hq
  simp only [pure, Option.some.injEq, Prod.mk.injEq] at h
  obtain ⟨rfl, rfl, rfl⟩ := h
  omega

theorem length_of_group_mem {ms : List Marked} {opening closing : Char} {inner : List Char}
    (h : .group opening inner closing ∈ pieces ms) : inner.length + 2 ≤ ms.length := by
  fun_induction pieces ms with
  | case1 => simp at h
  | case2 m rest hm close after hd ih =>
    rcases List.mem_cons.1 h with h | h
    · simp only [Piece.group.injEq] at h
      have := congrArg List.length (List.takeWhile_append_dropWhile (p := isInner) (l := rest))
      simp only [hd, List.length_append, List.length_cons] at this
      simp only [h.2.1, chars, List.length_map, List.length_cons]
      omega
    · have := ih h
      have := congrArg List.length hd
      have := (List.dropWhile_sublist (l := rest) isInner).length_le
      simp only [List.length_cons] at *
      omega
  | case3 m rest hm hd ih =>
    have := ih (by simpa using h)
    simp only [List.length_cons]
    omega
  | case4 m rest hm ih =>
    have := ih (by simpa using h)
    simp only [List.length_cons]
    omega

theorem length_of_mem_items {ms : List Marked} {item : List Char} (h : item ∈ items ms) :
    item.length ≤ ms.length := by
  induction ms generalizing item with
  | nil => simp_all [items]
  | cons m rest ih =>
    unfold items at h
    split at h
    · rcases List.mem_cons.1 h with rfl | h
      · simp
      · exact Nat.le_succ_of_le (ih h)
    · split at h
      · next hi => simp_all
      · next first others hi =>
        rcases List.mem_cons.1 h with rfl | h
        · have := ih (show first ∈ items rest by simp [hi])
          simpa using this
        · exact Nat.le_succ_of_le (ih (by simp [hi, h]))

mutual

/-- The text with its conditionals written out. -/
def expand (cs : List Char) : List Char :=
  match _h : split? cs with
  | some (condition, yes, no) =>
    "if (".toList ++ expandGroups (Text.trim condition) ++ ") \x7b ".toList
      ++ expand (Text.trim yes) ++ " \x7d else \x7b ".toList ++ expand (Text.trim no)
      ++ " \x7d".toList
  | none => expandGroups cs
termination_by (cs.length, 1)
decreasing_by
  · have := length_split _h
    have := Text.length_trim_le condition
    exact Prod.Lex.left _ _ (by omega)
  · have := length_split _h
    have := Text.length_trim_le yes
    exact Prod.Lex.left _ _ (by omega)
  · have := length_split _h
    have := Text.length_trim_le no
    exact Prod.Lex.left _ _ (by omega)
  · exact Prod.Lex.right _ (by omega)

/-- Expand the items inside the outermost brackets. -/
def expandGroups (cs : List Char) : List Char :=
  (pieces (mark cs)).attach.flatMap fun ⟨piece, h⟩ =>
    match piece, h with
    | .char c, _ => [c]
    | .group opening inner closing, h =>
      have := length_of_group_mem h
      opening :: expandItems inner ++ [closing]
termination_by (cs.length, 0)
decreasing_by
  simp only [length_mark] at this
  exact Prod.Lex.left _ _ (by omega)

/-- Expand each item of an argument or array list. -/
def expandItems (cs : List Char) : List Char :=
  [','].intercalate ((items (mark cs)).attach.map fun ⟨item, h⟩ =>
    have := length_of_mem_items h
    expand item)
termination_by (cs.length, 2)
decreasing_by
  simp only [length_mark] at this
  rcases Nat.lt_or_eq_of_le this with h | h
  · exact Prod.Lex.left _ _ h
  · rw [h]; exact Prod.Lex.right _ (by omega)

end

/-- Script text for an expression as config authors write it. -/
def toScript (text : String) : String :=
  String.ofList (expand (normalize .code text.toList))

end HttpWorkflow.Expression
