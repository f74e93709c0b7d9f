import HttpWorkflow.Proofs.Expression.Groups

/-! Splitting of conditionals.

The colon of a conditional is the first one that no question mark inside its branches waits for. A
branch is balanced: whatever number of question marks wait before it, the same number wait after it.
-/

set_option autoImplicit false

namespace HttpWorkflow.Expression

/-- The same split, with more text before it. -/
def keep {α : Type} (front : List Char) (parts : Option (List Char × α)) :
    Option (List Char × α) :=
  parts.map fun (before, after) => (front ++ before, after)

theorem keep_keep {α : Type} (front inner : List Char) (parts : Option (List Char × α)) :
    keep front (keep inner parts) = keep (front ++ inner) parts := by
  cases parts with
  | none => rfl
  | some parts => simp [keep]

section Quiet

variable {m : Marked} {ms : List Marked}

theorem not_isQuestion (plain : m ≠ ('?', some 0)) (previous : Option Char) (rest : List Marked) :
    isQuestion previous m rest = false := by
  simp [isQuestion, plain]

theorem not_isColon (plain : m ≠ (':', some 0)) (previous : Option Char) (rest : List Marked) :
    isColon previous m rest = false := by
  simp [isColon, plain]

theorem splitQuestion_cons (plain : m ≠ ('?', some 0)) (previous : Option Char)
    (rest : List Marked) :
    splitQuestion previous (m :: rest) = keep [m.1] (splitQuestion (some m.1) rest) := by
  rw [splitQuestion, not_isQuestion plain]
  rfl

theorem splitColon_cons (question : m ≠ ('?', some 0)) (colon : m ≠ (':', some 0))
    (previous : Option Char) (nested : Nat) (rest : List Marked) :
    splitColon previous nested (m :: rest) = keep [m.1] (splitColon (some m.1) nested rest) := by
  rw [splitColon.eq_def]
  dsimp only
  rw [not_isQuestion question, not_isColon colon]
  rfl

theorem splitQuestion_space (previous : Option Char) (rest : List Marked) :
    splitQuestion previous ((' ', some 0) :: rest) = keep [' '] (splitQuestion (some ' ') rest) :=
  splitQuestion_cons (by decide) previous rest

theorem splitColon_space (previous : Option Char) (nested : Nat) (rest : List Marked) :
    splitColon previous nested ((' ', some 0) :: rest) =
      keep [' '] (splitColon (some ' ') nested rest) :=
  splitColon_cons (by decide) (by decide) previous nested rest

theorem splitQuestion_of_quiet (quiet : Quiet ms) (previous : Option Char) :
    splitQuestion previous ms = none := by
  induction ms generalizing previous with
  | nil => rfl
  | cons m ms ih =>
    rw [splitQuestion_cons (quiet m List.mem_cons_self).1,
      ih fun m member => quiet m (List.mem_cons_of_mem _ member)]
    rfl

theorem splitQuestion_append (quiet : Quiet ms) (previous : Option Char) (rest : List Marked) :
    splitQuestion previous (ms ++ (' ', some 0) :: rest) =
      keep (chars ms ++ [' ']) (splitQuestion (some ' ') rest) := by
  induction ms generalizing previous with
  | nil => exact splitQuestion_space previous rest
  | cons m ms ih =>
    rw [List.cons_append, splitQuestion_cons (quiet m List.mem_cons_self).1,
      ih fun m member => quiet m (List.mem_cons_of_mem _ member), keep_keep]
    rfl

theorem splitColon_append (quiet : Quiet ms) (previous : Option Char) (nested : Nat)
    (rest : List Marked) :
    splitColon previous nested (ms ++ (' ', some 0) :: rest) =
      keep (chars ms ++ [' ']) (splitColon (some ' ') nested rest) := by
  induction ms generalizing previous with
  | nil => exact splitColon_space previous nested rest
  | cons m ms ih =>
    have plain := quiet m List.mem_cons_self
    rw [List.cons_append, splitColon_cons plain.1 plain.2.1,
      ih fun m member => quiet m (List.mem_cons_of_mem _ member), keep_keep]
    rfl

end Quiet

section Signs

variable {previous : Option Char} (rest : List Marked)

theorem isQuestion_space (other : previous ≠ some '?') :
    isQuestion previous ('?', some 0) ((' ', some 0) :: rest) = true := by
  simp [isQuestion, other]

theorem splitQuestion_question (other : previous ≠ some '?') :
    splitQuestion previous (('?', some 0) :: (' ', some 0) :: rest) =
      some ([], (' ', some 0) :: rest) := by
  rw [splitQuestion, if_pos (isQuestion_space rest other)]

theorem splitColon_question (other : previous ≠ some '?') (nested : Nat) :
    splitColon previous nested (('?', some 0) :: (' ', some 0) :: rest) =
      keep ['?', ' '] (splitColon (some ' ') (nested + 1) rest) := by
  rw [splitColon.eq_def]
  dsimp only
  rw [if_pos (isQuestion_space rest other), splitColon_space]
  exact keep_keep ['?'] [' '] _

variable {rest}

theorem isColon_of_next (other : previous ≠ some ':') (next : rest.head?.map (·.1) ≠ some ':') :
    isColon previous (':', some 0) rest = true := by
  simp [isColon, other, next]

theorem splitColon_colon_zero (other : previous ≠ some ':')
    (next : rest.head?.map (·.1) ≠ some ':') :
    splitColon previous 0 ((':', some 0) :: rest) = some ([], chars rest) := by
  rw [splitColon, not_isQuestion (by decide), isColon_of_next other next]
  rfl

theorem splitColon_colon_succ (other : previous ≠ some ':')
    (next : rest.head?.map (·.1) ≠ some ':') (nested : Nat) :
    splitColon previous (nested + 1) ((':', some 0) :: rest) =
      keep [':'] (splitColon (some ':') nested rest) := by
  rw [splitColon, not_isQuestion (by decide), isColon_of_next other next]
  rfl

end Signs

section Found

variable {previous : Option Char} {m : Marked} {ms : List Marked}

theorem isQuestion_iff :
    isQuestion previous m ms = true ↔ m.2 = some 0 ∧ m.1 = '?' ∧ previous ≠ some '?' ∧
      ¬((chars ms).head? = some '?' ∨ (chars ms).head? = some '.' ∨
        (chars ms).head? = some '[') := by
  obtain ⟨c, d⟩ := m
  simp [isQuestion, chars, and_assoc, and_left_comm]

theorem isColon_iff :
    isColon previous m ms = true ↔ m.2 = some 0 ∧ m.1 = ':' ∧ previous ≠ some ':' ∧
      (chars ms).head? ≠ some ':' := by
  obtain ⟨c, d⟩ := m
  simp [isColon, chars, and_assoc, and_left_comm]

theorem splitQuestion_eq_some {before : List Char} {after : List Marked}
    (found : splitQuestion previous ms = some (before, after)) :
    ∃ front, ms = front ++ ('?', some 0) :: after ∧ chars front = before := by
  induction ms generalizing previous before with
  | nil => cases found
  | cons m ms ih =>
    rw [splitQuestion] at found
    split at found
    · next question =>
      obtain ⟨rfl, rfl⟩ := Prod.mk.inj (Option.some.inj found)
      obtain ⟨level, sign, _⟩ := isQuestion_iff.mp question
      exact ⟨[], congrArg (· :: ms) (Prod.ext sign level), rfl⟩
    · obtain ⟨⟨rest, _⟩, later, same⟩ := Option.map_eq_some_iff.mp found
      obtain ⟨rfl, rfl⟩ := Prod.mk.inj same
      obtain ⟨front, rfl, rfl⟩ := ih later
      exact ⟨m :: front, rfl, rfl⟩

theorem splitColon_eq_some {nested : Nat} {yes no : List Char}
    (found : splitColon previous nested ms = some (yes, no)) :
    ∃ front after, ms = front ++ (':', some 0) :: after ∧ chars front = yes ∧ chars after = no := by
  induction ms generalizing previous nested yes with
  | nil => cases found
  | cons m ms ih =>
    have later {previous : Option Char} {nested : Nat}
        (found : (splitColon previous nested ms).map (fun parts => (m.1 :: parts.1, parts.2)) =
          some (yes, no)) :
        ∃ front after, m :: ms = front ++ (':', some 0) :: after ∧ chars front = yes ∧
          chars after = no := by
      obtain ⟨⟨rest, _⟩, later, same⟩ := Option.map_eq_some_iff.mp found
      obtain ⟨rfl, rfl⟩ := Prod.mk.inj same
      obtain ⟨front, after, rfl, rfl, rfl⟩ := ih later
      exact ⟨m :: front, after, rfl, rfl, rfl⟩
    rw [splitColon.eq_def] at found
    dsimp only at found
    split at found
    · exact later found
    · split at found
      · next colon =>
        cases nested with
        | zero =>
          obtain ⟨rfl, rfl⟩ := Prod.mk.inj (Option.some.inj found)
          obtain ⟨level, sign, _⟩ := isColon_iff.mp colon
          exact ⟨[], ms, congrArg (· :: ms) (Prod.ext sign level), rfl, rfl⟩
        | succ nested => exact later found
      · exact later found

theorem split?_eq_some {cs condition yes no : List Char}
    (found : split? cs = some (condition, yes, no)) :
    cs = condition ++ '?' :: (yes ++ ':' :: no) := by
  obtain ⟨⟨_, rest⟩, question, found⟩ := Option.bind_eq_some_iff.mp found
  obtain ⟨⟨_, _⟩, colon, same⟩ := Option.bind_eq_some_iff.mp found
  simp only [pure, Option.some.injEq, Prod.mk.injEq] at same
  obtain ⟨rfl, rfl, rfl⟩ := same
  obtain ⟨front, whole, rfl⟩ := splitQuestion_eq_some question
  obtain ⟨middle, after, rfl, rfl, rfl⟩ := splitColon_eq_some colon
  rw [← chars_mark cs, whole]
  simp [chars]

end Found

def Balanced (s : List Char) : Prop :=
  ∀ nested rest, splitColon (some ' ') nested (mark s ++ (' ', some 0) :: rest) =
    keep (s ++ [' ']) (splitColon (some ' ') nested rest)

theorem Aligned.balanced {s t : List Char} (group : Aligned groupRules s t) : Balanced s := by
  intro nested rest
  rw [splitColon_append group.quiet, chars_mark]

theorem Aligned.split?_eq_none {s t : List Char} (group : Aligned groupRules s t) :
    split? s = none := by
  rw [split?, splitQuestion_of_quiet group.quiet]
  rfl

section Ends

/-- What stands before the question mark. The blank after an empty condition is lost when the
conditional is trimmed. -/
inductive Before (condition : List Char) : List Char → Prop
  | spaced : Before condition (condition ++ [' '])
  | empty (none : condition = []) : Before condition []

/-- What stands after the colon. -/
inductive After (no : List Char) : List Char → Prop
  | spaced : After no (' ' :: no)
  | empty (none : no = []) : After no []

variable {c z p q : List Char}

theorem Before.trim (before : Before c p) (trimmed : Text.trim c = c) : Text.trim p = c := by
  cases before with
  | empty none =>
    rw [none]
    rfl
  | spaced =>
    rcases Text.trim_cases c with empty | ⟨first, more, same, visible⟩
    · rw [← trimmed, empty]
      rfl
    · have stop := Text.trimEnd_trim c
      rw [trimmed] at same stop
      rw [Text.trim_eq, same, List.cons_append, Text.trimStart_of_visible visible,
        ← List.cons_append, Text.trimEnd_concat_blank rfl, ← same, stop]

theorem After.trim (after : After z q) (trimmed : Text.trim z = z) : Text.trim q = z := by
  cases after with
  | spaced => rw [Text.trim_eq, Text.trimStart_of_blank rfl, ← Text.trim_eq, trimmed]
  | empty none =>
    rw [none]
    rfl

theorem trimStart_question (trimmed : Text.trim c = c) :
    ∃ p, Before c p ∧ ∀ rest, Text.trimStart (c ++ ' ' :: '?' :: rest) = p ++ '?' :: rest := by
  rcases Text.trim_cases c with empty | ⟨first, more, same, visible⟩
  · rw [trimmed] at empty
    refine ⟨[], .empty empty, ?_⟩
    intro rest
    rw [empty, List.nil_append, Text.trimStart_of_blank rfl, Text.trimStart_of_visible rfl]
    rfl
  · rw [trimmed] at same
    refine ⟨c ++ [' '], .spaced, ?_⟩
    intro rest
    rw [same, List.cons_append, Text.trimStart_of_visible visible]
    simp

theorem trimEnd_colon (trimmed : Text.trim z = z) :
    ∃ q, After z q ∧ ∀ front, Text.trimEnd (front ++ ':' :: ' ' :: z) = front ++ ':' :: q := by
  have stop := Text.trimEnd_trim z
  rw [trimmed] at stop
  by_cases empty : z = []
  · refine ⟨[], .empty empty, ?_⟩
    intro front
    rw [empty, Text.trimEnd_append_visible rfl, Text.trimEnd_cons_of_nil rfl rfl]
  · refine ⟨' ' :: z, .spaced, ?_⟩
    intro front
    rw [Text.trimEnd_append_visible rfl, Text.trimEnd_cons_of_ne_nil (by rwa [stop]), stop]

end Ends

section Conditionals

def choice (p y q : List Char) : List Char := p ++ '?' :: ' ' :: (y ++ ' ' :: ':' :: q)

variable {c c' y z p q : List Char}

theorem questioned_eq_choice : Dialect.questioned c y z = choice (c ++ [' ']) y (' ' :: z) := by
  rw [Dialect.questioned_eq, choice, List.append_assoc]
  rfl

/-- A conditional that is trimmed is a conditional. -/
theorem trim_questioned (first : Text.trim c = c) (last : Text.trim z = z) :
    ∃ p q, Before c p ∧ After z q ∧ Text.trim (Dialect.questioned c y z) = choice p y q := by
  obtain ⟨p, before, start⟩ := trimStart_question first
  obtain ⟨q, after, stop⟩ := trimEnd_colon last
  refine ⟨p, q, before, after, ?_⟩
  have regroup (tail : List Char) : p ++ '?' :: ' ' :: (y ++ ' ' :: ':' :: tail) =
      (p ++ '?' :: ' ' :: (y ++ [' '])) ++ ':' :: tail := by simp
  rw [Dialect.questioned_eq, Text.trim_eq, start, choice, regroup, regroup, stop]

theorem Before.group (before : Before c p) (group : Aligned groupRules c c') :
    ∃ p', Aligned groupRules p p' := by
  cases before with
  | spaced => exact ⟨_, group.append trivial (.singleton (by simp [groupRules]))⟩
  | empty => exact ⟨[], .nil⟩

theorem Before.splitQuestion (before : Before c p) (group : Aligned groupRules c c')
    (rest : List Marked) :
    splitQuestion none (mark p ++ ('?', some 0) :: (' ', some 0) :: rest) =
      some (p, (' ', some 0) :: rest) := by
  cases before with
  | empty => exact splitQuestion_question rest (by decide)
  | spaced =>
    rw [group.closed.mark_append, mark_level rfl, List.append_assoc, List.singleton_append,
      splitQuestion_append group.quiet, splitQuestion_question rest (by decide), chars_mark]
    simp [keep]

theorem Before.splitColon (before : Before c p) (group : Aligned groupRules c c') (nested : Nat)
    (rest : List Marked) :
    splitColon (some ' ') nested (mark p ++ ('?', some 0) :: (' ', some 0) :: rest) =
      keep (p ++ ['?', ' ']) (splitColon (some ' ') (nested + 1) rest) := by
  cases before with
  | empty => exact splitColon_question rest (by decide) nested
  | spaced =>
    rw [group.closed.mark_append, mark_level rfl, List.append_assoc, List.singleton_append,
      splitColon_append group.quiet, splitColon_question rest (by decide), keep_keep, chars_mark]

theorem mark_space (cs : List Char) : mark (' ' :: cs) = (' ', some 0) :: mark cs :=
  markCode_level rfl 0 cs

theorem After.closed (after : After z q) (no : Closed z) : Closed q := by
  cases after with
  | spaced => exact (closed_level rfl).append no
  | empty => exact Closed.nil

theorem After.balanced (after : After z q) (no : Balanced z) (previous : Option Char) (nested : Nat)
    (rest : List Marked) :
    splitColon previous nested (mark q ++ (' ', some 0) :: rest) =
      keep (q ++ [' ']) (splitColon (some ' ') nested rest) := by
  cases after with
  | empty => exact splitColon_space previous nested rest
  | spaced =>
    rw [mark_space, List.cons_append, splitColon_space, no nested rest, keep_keep]
    rfl

end Conditionals

end HttpWorkflow.Expression
