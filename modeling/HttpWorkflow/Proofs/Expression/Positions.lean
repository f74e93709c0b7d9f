import HttpWorkflow.Expression.Conditional

/-! The expansion of conditionals as a program on positions.

Texts are cut at positions here: a position that is out of range, a slice that ends before it
begins and a counter below zero are faults, and so is a loop that has not ended when its steps are
used up. The three functions that call each other are taken apart: the body of a call says what is
written and what is called in between, and a run carries the calls out.
-/

set_option autoImplicit false

namespace HttpWorkflow.Expression.Positions

inductive Fault where
  | index
  | slice
  | negative
  | limit
  deriving DecidableEq, Repr

abbrev Checked := Except Fault

def get {α : Type} (xs : List α) (i : Nat) : Checked α :=
  match xs[i]? with
  | some x => .ok x
  | none => .error .index

def slice (cs : List Char) (start stop : Nat) : Checked (List Char) :=
  if start ≤ stop ∧ stop ≤ cs.length then .ok ((cs.take stop).drop start) else .error .slice

def decrement : Nat → Checked Nat
  | 0 => .error .negative
  | n + 1 => .ok n

def depths (cs : List Char) : List (Option Nat) := (mark cs).map (·.2)

/-- Whether the character at a position is outside literals and brackets. -/
def isOutermost (cs : List Char) (i : Nat) : Checked Bool :=
  return (← get (depths cs) i) = some 0

/-- The character before a position, if there is one. -/
def before? (cs : List Char) : Nat → Checked (Option Char)
  | 0 => .ok none
  | i + 1 => some <$> get cs i

/-- The positions of the first question mark and of its colon, from the position `i` on. -/
def splitFrom (cs : List Char) (question : Option Nat) (nested i : Nat) :
    List Char → Checked (Option (Nat × Nat))
  | [] => .ok none
  | c :: rest => do
    if ← isOutermost cs i then
      let previous ← before? cs i
      let next := cs[i + 1]?
      if c = '?' ∧ previous ≠ some '?' ∧
          ¬(next = some '?' ∨ next = some '.' ∨ next = some '[') then
        match question with
        | none => splitFrom cs (some i) nested (i + 1) rest
        | some _ => splitFrom cs question (nested + 1) (i + 1) rest
      else if c = ':' ∧ question ≠ none ∧ previous ≠ some ':' ∧ next ≠ some ':' then
        if nested = 0 then return question.map fun q => (q, i)
        else splitFrom cs question (← decrement nested) (i + 1) rest
      else splitFrom cs question nested (i + 1) rest
    else splitFrom cs question nested (i + 1) rest

def splitPositions (cs : List Char) : Checked (Option (Nat × Nat)) := splitFrom cs none 0 0 cs

inductive Call where
  | conditionals (cs : List Char)
  | groups (cs : List Char)
  | items (cs : List Char)

inductive Chunk where
  | text (cs : List Char)
  | call (c : Call)

/-- The position where the group ends that a character begins, if it does and the group ends. -/
def closing? (cs : List Char) (c : Char) (i : Nat) : Checked (Option Nat) := do
  if (← isOutermost cs i) ∧ (c = '(' ∨ c = '[') then
    (List.range' (i + 1) (cs.length - (i + 1))).findM? (isOutermost cs)
  else return none

/-- The groups and the characters between them, from the position `i` on. -/
def groupsFrom (cs : List Char) (i : Nat) : Nat → Checked (List Chunk)
  | 0 => if i < cs.length then .error .limit else .ok []
  | steps + 1 => do
    if i < cs.length then
      let c ← get cs i
      match ← closing? cs c i with
      | some close =>
        let inner ← slice cs (i + 1) close
        let last ← get cs close
        return .text [c] :: .call (.items inner) :: .text [last] ::
          (← groupsFrom cs (close + 1) steps)
      | none => return .text [c] :: (← groupsFrom cs (i + 1) steps)
    else return []

/-- The items between commas, from the position `i` on; the first of them begins at `start`. -/
def itemsFrom (cs : List Char) (start i : Nat) : List Char → Checked (List (List Char))
  | [] => return [← slice cs start cs.length]
  | c :: rest => do
    if c = ',' then
      if ← isOutermost cs i then
        return (← slice cs start i) :: (← itemsFrom cs (i + 1) (i + 1) rest)
      else itemsFrom cs start (i + 1) rest
    else itemsFrom cs start (i + 1) rest

/-- What a call writes, with the calls that it makes in between. -/
def body : Call → Checked (List Chunk)
  | .conditionals cs => do
    match ← splitPositions cs with
    | some (question, colon) =>
      let condition ← slice cs 0 question
      let yes ← slice cs (question + 1) colon
      let no ← slice cs (colon + 1) cs.length
      return [.text "if (".toList, .call (.groups (Text.trim condition)), .text ") \x7b ".toList,
        .call (.conditionals (Text.trim yes)), .text " \x7d else \x7b ".toList,
        .call (.conditionals (Text.trim no)), .text " \x7d".toList]
    | none => return [.call (.groups cs)]
  | .groups cs => groupsFrom cs 0 cs.length
  | .items cs =>
    return ((← itemsFrom cs 0 0 cs).map fun item => .call (.conditionals item)).intersperse
      (.text [','])

/-- The text of a chunk, when calls are answered so. -/
def Chunk.write (answer : Call → Checked (List Char)) : Chunk → Checked (List Char)
  | text cs => .ok cs
  | call c => answer c

/-- The text that a call comes to, when no more than so many calls may be open at a time. -/
def run : Nat → Call → Checked (List Char)
  | 0, _ => .error .limit
  | depth + 1, call => do
    let texts ← (← body call).mapM (Chunk.write (run depth))
    return texts.flatten

/-- One call makes another. -/
def Calls (call inner : Call) : Prop := ∃ chunks, body call = .ok chunks ∧ .call inner ∈ chunks

end HttpWorkflow.Expression.Positions
