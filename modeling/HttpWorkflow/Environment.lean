import HttpWorkflow.Text.Blank

/-! Variables from a file of settings, one assignment for each line.

A value may stand in quotes, go on over lines inside them, and refer to other variables. Reading
stops at the first line that is no assignment. Variables that are set already stay as they are.
-/

set_option autoImplicit false

namespace HttpWorkflow.Environment

/-- Where the end of a line finds a reader of the file. -/
inductive LineState where
  | complete
  | blank
  | escape
  | weak
  | weakEscape
  | strong
  | strongEscape
  deriving DecidableEq

/-- The state after one more character; `none` when a comment begins. -/
def LineState.next (s : LineState) (c : Char) : Option LineState :=
  let outside : LineState :=
    if c = '\\' then .escape else if c = '"' then .weak else if c = '\'' then .strong else .complete
  match s with
  | .blank => if c = '#' then none else some outside
  | .escape => some .complete
  | .complete =>
    if Text.isBlank c && c ≠ '\n' && c ≠ '\r' then some .blank else some outside
  | .weak => some (if c = '\\' then .weakEscape else if c = '"' then .complete else .weak)
  | .weakEscape => some .weak
  | .strong => some (if c = '\\' then .strongEscape else if c = '\'' then .complete else .strong)
  | .strongEscape => some .strong

/-- The first line with those that its quotes run over, and the rest of the file; no line when the
file ends inside quotes. -/
def takeLine : LineState → List Char → Option (List Char × List Char)
  | s, [] => if s = .complete then some ([], []) else none
  | s, c :: rest =>
    match s.next c with
    | none => some ([], (rest.dropWhile (· ≠ '\n')).drop 1)
    | some t =>
      if c = '\n' && t = .complete then some ([], rest)
      else (takeLine t rest).map fun (line, after) => (c :: line, after)

theorem length_takeLine {s : LineState} {c : Char} {rest line after : List Char}
    (found : takeLine s (c :: rest) = some (line, after)) : after.length ≤ rest.length := by
  induction rest generalizing s c line with
  | nil => grind [takeLine, List.dropWhile_nil]
  | cons d rest ih =>
    rw [takeLine] at found
    split at found
    · have := ((d :: rest).dropWhile_sublist (· ≠ '\n')).length_le
      cases found
      simp only [List.length_drop]
      omega
    · split at found
      · cases found
        exact Nat.le_refl _
      · obtain ⟨⟨l, a⟩, inner, same⟩ := Option.map_eq_some_iff.1 found
        cases same
        exact Nat.le_succ_of_le (ih inner)

/-- The rest of a file after its first line, when this is a comment. -/
def afterComment? (cs : List Char) : Option (List Char) :=
  let first := cs.takeWhile (· ≠ '\n')
  if (first.dropWhile Text.isBlank).head? = some '#' then some (cs.drop (first.length + 1)) else none

theorem length_afterComment? {c : Char} {rest after : List Char}
    (found : afterComment? (c :: rest) = some after) : after.length ≤ rest.length := by
  simp only [afterComment?] at found
  split at found
  · cases found
    simp only [List.length_drop, List.length_cons]
    omega
  · cases found

/-- The lines of a file, up to one that does not end. -/
def lines (cs : List Char) : List (List Char) :=
  match cs with
  | [] => []
  | c :: rest =>
    match _h : afterComment? (c :: rest) with
    | some after => lines after
    | none =>
      match _h : takeLine .complete (c :: rest) with
      | none => []
      | some (line, after) => line :: lines after
termination_by cs.length
decreasing_by
  · exact Nat.lt_succ_of_le (length_afterComment? ‹_›)
  · exact Nat.lt_succ_of_le (length_takeLine ‹_›)

/-- What quotes and signs before a character of a value say about it. -/
inductive Mode where
  | plain
  | weak
  | strong
  | finished
  deriving DecidableEq

/-- The characters of a value. After the name of a variable without braces, one character stands for
itself. `get` is the text of a variable that the value refers to. -/
def value? (get : List Char → List Char) : Mode → List Char → Option (List Char)
  | .plain, [] | .finished, [] => some []
  | _, [] => none
  | .finished, c :: rest =>
    if c = ' ' || c = '\t' then value? get .finished rest
    else if c = '#' then some []
    else none
  | .strong, c :: rest =>
    if c = '\'' then value? get .plain rest else (value? get .strong rest).map (c :: ·)
  | mode, '\\' :: c :: rest =>
    if "\\'\"$ ".toList.contains c then (value? get mode rest).map (c :: ·)
    else if c = 'n' then (value? get mode rest).map ('\n' :: ·)
    else none
  | mode, '$' :: '{' :: rest =>
    let name := rest.takeWhile (· ≠ '}')
    if name.length < rest.length then
      (value? get mode (rest.drop (name.length + 1))).map (get name ++ ·)
    else none
  | mode, '$' :: rest =>
    let name := rest.takeWhile Char.isAlphanum
    match rest.drop name.length with
    | [] => if mode = .plain then some (get name) else none
    | '$' :: _ => (value? get mode (rest.drop name.length)).map (get name ++ ·)
    | c :: _ => (value? get mode (rest.drop (name.length + 1))).map (get name ++ c :: ·)
  | .weak, c :: rest =>
    if c = '"' then value? get .plain rest else (value? get .weak rest).map (c :: ·)
  | .plain, c :: rest =>
    if c = '\'' then value? get .strong rest
    else if c = '"' then value? get .weak rest
    else if c = '\\' then some []
    else if c = ' ' || c = '\t' then value? get .finished rest
    else (value? get .plain rest).map (c :: ·)
termination_by _ cs => cs.length
decreasing_by all_goals simp only [List.length_cons, List.length_drop]; omega

/-- The name at the head of an assignment, and what follows it. -/
def key? (cs : List Char) : Option (List Char × List Char) :=
  match cs with
  | c :: _ =>
    if c.isAlpha || c = '_' then
      let name := cs.takeWhile fun c => c.isAlphanum || c = '_' || c = '.'
      some (name, (cs.drop name.length).dropWhile Text.isBlank)
    else none
  | [] => none

/-- The name and the value of a line; nothing for a line that is empty or a comment, and `none` for
what is neither. -/
def assignment? (get : String → Option String) (line : List Char) :
    Option (Option (String × String)) := do
  let trimmed := Text.trim line
  if trimmed.isEmpty || trimmed.head? = some '#' then return none
  let (name, rest) ← key? trimmed
  let (name, rest) ← match rest with
    | '=' :: rest => some (name, rest)
    | rest =>
      if name = "export".toList then
        match key? rest with
        | some (name, '=' :: rest) => some (name, rest)
        | _ => none
      else none
  let rest := rest.dropWhile Text.isBlank
  if rest.isEmpty || rest.head? = some '#' then return some (String.ofList name, "")
  let text ← value? (fun v => ((get (String.ofList v)).getD "").toList) .plain rest
  return some (String.ofList name, String.ofList text)

/-- Take assignments into an environment, up to a line that is none. -/
def extend (env : String → Option String) : List (List Char) → String → Option String
  | [] => env
  | line :: rest =>
    match assignment? env line with
    | none => env
    | some none => extend env rest
    | some (some (name, v)) => extend (fun k => (env k).or (if k = name then some v else none)) rest

/-- An environment with the variables of a file. -/
def withFile (env : String → Option String) (text : String) : String → Option String :=
  let cs := text.toList
  extend env (lines (if cs.head? = some '\uFEFF' then cs.drop 1 else cs))

end HttpWorkflow.Environment
