import HttpWorkflow.Proofs.Expression.Translation

/-! Texts without conditionals.

A question mark in a string literal, or in one of the operators `??`, `?.` and `?[`, begins no
conditional. The translator takes a text apart at its brackets and commas. What it takes out begins
outside literals and touches no operator of the text around it, so its question marks are to be read
as they are in the whole text. Where none of them begins a conditional, all that was taken apart is
put together again as it was, stray brackets and open literals included.
-/

set_option autoImplicit false

namespace HttpWorkflow.Expression

/-- A text in which every literal has ended, so that what follows it is code. -/
inductive EndsInCode : List Char → Prop
  | nil : EndsInCode []
  | char {c : Char} {s : List Char} (plain : c ≠ '"' ∧ c ≠ '`') (rest : EndsInCode s) :
    EndsInCode (c :: s)
  | literal {l : Literal} {s : List Char} (other : l.quote ≠ .single) (rest : EndsInCode s) :
    EndsInCode (l.text ++ s)

/-- Whether a question mark between two characters is part of an operator. -/
abbrev Operates (previous next : Option Char) : Prop :=
  previous = some '?' ∨ next ∈ [some '?', some '.', some '[']

/-- Every question mark is in a literal or in an operator. -/
def Unconditional (cs : List Char) : Prop :=
  ∀ before after, cs = before ++ '?' :: after → EndsInCode before →
    Operates before.getLast? after.head?

section Places

variable {s t : List Char} {c : Char}

theorem EndsInCode.append (first : EndsInCode s) (second : EndsInCode t) :
    EndsInCode (s ++ t) := by
  induction first with
  | nil => exact second
  | char plain _ ih => exact .char plain ih
  | literal other _ ih =>
    rw [List.append_assoc]
    exact .literal other ih

theorem EndsInCode.singleton (plain : c ≠ '"' ∧ c ≠ '`') : EndsInCode [c] := .char plain .nil

/-- A character of code has the depth around it, unless it closes a bracket. -/
theorem markCode_plain (plain : c ≠ '"' ∧ c ≠ '`') (depth : Nat) :
    ∃ level next, level ≤ next ∧ (isOpening c → next = level + 1) ∧ (isClosing c ∨ level = depth) ∧
      ∀ rest, markCode depth (c :: rest) = (c, some level) :: markCode next rest := by
  have begins : ¬(c = '"' ∨ c = '`') := not_or.mpr plain
  by_cases opening : isOpening c = true
  · refine ⟨depth, depth + 1, Nat.le_succ depth, fun _ => rfl, .inr rfl, fun rest => ?_⟩
    rw [markCode, if_neg begins, if_pos opening]
  · by_cases closing : isClosing c = true
    · refine ⟨depth - 1, depth - 1, Nat.le_refl _, (absurd · opening), .inl closing, fun rest => ?_⟩
      rw [markCode, if_neg begins, if_neg opening, if_pos closing]
    · refine ⟨depth, depth, Nat.le_refl _, (absurd · opening), .inr rfl, fun rest => ?_⟩
      rw [markCode, if_neg begins, if_neg opening, if_neg closing]

/-- What comes after such a text is marked as code. -/
theorem EndsInCode.markCode_append (ends : EndsInCode s) (depth : Nat) :
    ∃ ms level, chars ms = s ∧ ∀ rest, markCode depth (s ++ rest) = ms ++ markCode level rest := by
  induction ends generalizing depth with
  | nil => exact ⟨[], depth, rfl, fun _ => rfl⟩
  | @char c s plain _ ih =>
    obtain ⟨level, next, _, _, _, marked⟩ := markCode_plain plain depth
    obtain ⟨ms, last, rfl, later⟩ := ih next
    refine ⟨(c, some level) :: ms, last, rfl, fun rest => ?_⟩
    rw [List.cons_append, marked, later, List.cons_append]
  | @literal l s other _ ih =>
    obtain ⟨ms, level, rfl, later⟩ := ih depth
    refine ⟨l.text.map (fun c => (c, none)) ++ ms, level, ?_, fun rest => ?_⟩
    · simp [chars, Function.comp_def]
    · rw [List.append_assoc, markCode_literal other, later, List.append_assoc]

/-- A character with a depth stands in code, and the text from it on is marked as code. -/
structure InCode (before : List Char) (c : Char) (level : Nat) (after : List Marked) : Prop where
  plain : c ≠ '"' ∧ c ≠ '`'
  ends : EndsInCode before
  marked : ∃ depth, markCode depth (c :: chars after) = (c, some level) :: after

theorem exists_quote (begins : c = '"' ∨ c = '`') :
    ∃ quote : Quote, quote ≠ .single ∧ c = quote.char := by
  rcases begins with rfl | rfl
  · exact ⟨.double, by decide, rfl⟩
  · exact ⟨.back, by decide, rfl⟩

mutual

theorem inCode_of_markCode {depth level : Nat} {c : Char} {before after : List Marked} :
    ∀ cs : List Char, markCode depth cs = before ++ (c, some level) :: after →
      InCode (chars before) c level after
  | [], split => by simp [markCode] at split
  | d :: rest, split => by
    by_cases begins : d = '"' ∨ d = '`'
    · rw [markCode, if_pos begins] at split
      obtain ⟨_, same⟩ | ⟨front, rfl, later⟩ := List.cons_eq_append_iff.mp split
      · simp at same
      · obtain ⟨quote, other, rfl⟩ := exists_quote begins
        obtain ⟨parts, tail, same, inCode⟩ := inCode_of_markLiteral other false rest later
        have whole : chars ((quote.char, none) :: front) = Literal.text ⟨quote, parts⟩ ++ tail := by
          simpa [chars, Literal.text] using same
        exact ⟨inCode.plain, whole ▸ inCode.ends.literal other, inCode.marked⟩
    · have plain := not_or.mp begins
      obtain ⟨here, next, _, _, _, marked⟩ := markCode_plain plain depth
      rw [marked] at split
      obtain ⟨rfl, same⟩ | ⟨front, rfl, later⟩ := List.cons_eq_append_iff.mp split
      · obtain ⟨first, rfl⟩ := List.cons.inj same
        obtain ⟨rfl, rfl⟩ : c = d ∧ level = here := by simpa using first
        exact ⟨plain, .nil, depth, by rw [chars_markCode, marked]⟩
      · have inCode := inCode_of_markCode rest later
        exact ⟨inCode.plain, inCode.ends.char plain, inCode.marked⟩

/-- What stands before the place begins with the rest of the literal. -/
theorem inCode_of_markLiteral {depth level : Nat} {quote : Quote} (other : quote ≠ .single)
    {c : Char} {before after : List Marked} (escaped : Bool) :
    ∀ cs : List Char,
      markLiteral depth quote.char escaped cs = before ++ (c, some level) :: after →
      ∃ (parts : List (Part quote)) (tail : List Char),
        (if escaped then ['\\'] else []) ++ chars before =
          parts.flatMap Part.text ++ quote.char :: tail ∧ InCode tail c level after
  | [], split => by simp [markLiteral] at split
  | d :: rest, split => by
    rw [markLiteral] at split
    obtain ⟨_, same⟩ | ⟨front, rfl, later⟩ := List.cons_eq_append_iff.mp split
    · simp at same
    cases escaped with
    | true =>
      -- The backslash is already in front, so the two are one part of the literal.
      rw [if_pos rfl] at later
      obtain ⟨parts, tail, same, inCode⟩ := inCode_of_markLiteral other false rest later
      refine ⟨.escaped d :: parts, tail, ?_, inCode⟩
      simpa [chars, Part.text] using same
    | false =>
      rw [if_neg Bool.false_ne_true] at later
      by_cases slash : d = '\\'
      · rw [if_pos slash] at later
        obtain ⟨parts, tail, same, inCode⟩ := inCode_of_markLiteral other true rest later
        refine ⟨parts, tail, ?_, inCode⟩
        simpa [chars, slash] using same
      · rw [if_neg slash] at later
        by_cases closes : d = quote.char
        · rw [if_pos closes] at later
          refine ⟨[], chars front, ?_, inCode_of_markCode rest later⟩
          simp [chars, closes]
        · rw [if_neg closes] at later
          obtain ⟨parts, tail, same, inCode⟩ := inCode_of_markLiteral other false rest later
          refine ⟨.plain d ⟨slash, closes⟩ :: parts, tail, ?_, inCode⟩
          simpa [chars, Part.text] using same

end

end Places

section Questions

variable {cs : List Char} {previous : Option Char} {ms : List Marked}

/-- Every question mark with a depth is in an operator. -/
def isUnconditional (previous : Option Char) : List Marked → Bool
  | [] => true
  | m :: rest =>
    (m.1 ≠ '?' || m.2 = none || decide (Operates previous (chars rest).head?)) &&
      isUnconditional (some m.1) rest

theorem isUnconditional_iff :
    isUnconditional previous ms = true ↔
      ∀ before level after, ms = before ++ ('?', some level) :: after →
        Operates ((chars before).getLast?.or previous) (chars after).head? := by
  induction ms generalizing previous with
  | nil => simp [isUnconditional]
  | cons m rest ih =>
    have last (front : List Marked) :
        (chars (m :: front)).getLast?.or previous = (chars front).getLast?.or (some m.1) := by
      simp [chars, List.getLast?_cons]
    rw [isUnconditional, Bool.and_eq_true, ih]
    constructor
    · rintro ⟨first, others⟩ before level after split
      obtain ⟨rfl, same⟩ | ⟨front, rfl, later⟩ := List.cons_eq_append_iff.mp split
      · obtain ⟨rfl, rfl⟩ := List.cons.inj same
        simp only [Bool.or_eq_true, decide_eq_true_eq] at first
        exact first.resolve_left (by simp)
      · rw [last]
        exact others front level after later
    · intro all
      refine ⟨?_, fun before level after later => ?_⟩
      · obtain ⟨c, _ | level⟩ := m
        · simp
        · by_cases question : c = '?'
          · subst question
            have here : Operates previous (chars rest).head? := all [] level rest rfl
            simp only [decide_eq_true here, Bool.or_true]
          · simp [question]
      · rw [← last]
        exact all (m :: before) level after (congrArg (m :: ·) later)

theorem unconditional_iff : Unconditional cs ↔ isUnconditional none (mark cs) = true := by
  rw [isUnconditional_iff]
  constructor
  · intro plain before level after split
    have inCode := inCode_of_markCode cs split
    have whole : cs = chars before ++ '?' :: chars after := by
      rw [← chars_mark cs, split]
      simp [chars]
    rw [Option.or_none]
    exact plain (chars before) (chars after) whole inCode.ends
  · rintro plain before after rfl ends
    obtain ⟨ms, level, rfl, marked⟩ := ends.markCode_append 0
    have here := plain ms level (markCode level after) (by rw [mark, marked, markCode_level rfl])
    rwa [Option.or_none, chars_markCode] at here

instance (cs : List Char) : Decidable (Unconditional cs) := decidable_of_iff _ unconditional_iff.symm

theorem isQuestion_of_operates {rest : List Marked} (operates : Operates previous (chars rest).head?)
    (m : Marked) : isQuestion previous m rest = false := by
  rw [chars, List.head?_map] at operates
  unfold isQuestion
  generalize rest.head?.map (·.1) = next at *
  rcases operates with rfl | next
  · simp
  · simp only [List.mem_cons, List.not_mem_nil, or_false] at next
    rcases next with rfl | rfl | rfl <;> simp

/-- There is no place to split such a text at. -/
theorem splitQuestion_eq_none (plain : isUnconditional previous ms = true) :
    splitQuestion previous ms = none := by
  induction ms generalizing previous with
  | nil => rfl
  | cons m rest ih =>
    obtain ⟨first, others⟩ := (Bool.and_eq_true _ _).mp plain
    have noQuestion : isQuestion previous m rest = false := by
      by_cases question : m = ('?', some 0)
      · subst question
        simp only [Bool.or_eq_true, decide_eq_true_eq] at first
        exact isQuestion_of_operates (first.resolve_left (by simp)) _
      · exact not_isQuestion question previous rest
    rw [splitQuestion, noQuestion, if_neg Bool.false_ne_true, ih others, Option.map_none]

theorem Unconditional.split?_eq_none (plain : Unconditional cs) : split? cs = none := by
  rw [split?, splitQuestion_eq_none (unconditional_iff.mp plain)]
  rfl

end Questions

section Excerpts

/-- A part of a text that begins in code and touches no operator of the text around it. -/
inductive Excerpt (part : List Char) : List Char → Prop
  | intro {before after : List Char} (begins : EndsInCode before)
    (apart : ¬Operates before.getLast? after.head?) : Excerpt part (before ++ part ++ after)

variable {cs part inner item : List Char} {opening closing : Char} {ms : List Marked}

theorem Excerpt.unconditional (excerpt : Excerpt part cs) (plain : Unconditional cs) :
    Unconditional part := by
  obtain ⟨begins, apart⟩ := excerpt
  rintro before after rfl ends
  rename_i front rest
  have here := plain (front ++ before) (after ++ rest) (by simp) (begins.append ends)
  rw [List.getLast?_append, List.head?_append] at here
  rw [Operates, not_or] at apart
  rcases here with previous | next
  · cases last : before.getLast? with
    | none =>
      rw [last, Option.none_or] at previous
      exact absurd previous apart.1
    | some c =>
      rw [last, Option.some_or] at previous
      exact .inl previous
  · cases first : after.head? with
    | none =>
      rw [first, Option.none_or] at next
      exact absurd next apart.2
    | some c =>
      rw [first, Option.some_or] at next
      exact .inr next

mutual

/-- Inside a bracket, the first character of the outermost level closes it. -/
theorem isClosing_of_markCode {depth : Nat} {close : Marked} {after : List Marked} :
    ∀ cs : List Char, (markCode (depth + 1) cs).dropWhile isInner = close :: after →
      isClosing close.1 = true
  | [], first => by simp [markCode] at first
  | c :: rest, first => by
    by_cases begins : c = '"' ∨ c = '`'
    · rw [markCode, if_pos begins, List.dropWhile_cons_of_pos (by rfl)] at first
      exact isClosing_of_markLiteral rest first
    · obtain ⟨level, next, bound, _, around, marked⟩ := markCode_plain (not_or.mp begins) (depth + 1)
      rw [marked] at first
      by_cases outermost : level = 0
      · rw [List.dropWhile_cons_of_neg (by simp [isInner, outermost])] at first
        obtain ⟨rfl, rfl⟩ := List.cons.inj first
        exact around.resolve_right (by omega)
      · obtain ⟨below, rfl⟩ := Nat.exists_eq_add_one_of_ne_zero (show next ≠ 0 by omega)
        rw [List.dropWhile_cons_of_pos (by simp [isInner, outermost])] at first
        exact isClosing_of_markCode rest first

theorem isClosing_of_markLiteral {depth : Nat} {quote : Char} {escaped : Bool} {close : Marked}
    {after : List Marked} :
    ∀ cs : List Char,
      (markLiteral (depth + 1) quote escaped cs).dropWhile isInner = close :: after →
      isClosing close.1 = true
  | [], first => by simp [markLiteral] at first
  | c :: rest, first => by
    rw [markLiteral, List.dropWhile_cons_of_pos (by rfl)] at first
    split at first
    · exact isClosing_of_markLiteral rest first
    · split at first
      · exact isClosing_of_markLiteral rest first
      · split at first
        · exact isClosing_of_markCode rest first
        · exact isClosing_of_markLiteral rest first

end

/-- Where a group is cut out of the marked characters. -/
structure GroupAt (opening : Char) (inner : List Char) (closing : Char) (ms : List Marked) : Prop where
  opens : opening = '(' ∨ opening = '['
  place : ∃ before rest close after, ms = before ++ (opening, some 0) :: rest ∧
    rest.dropWhile isInner = close :: after ∧ inner = chars (rest.takeWhile isInner) ∧
    closing = close.1

theorem GroupAt.append (group : GroupAt opening inner closing ms) (front : List Marked) :
    GroupAt opening inner closing (front ++ ms) := by
  obtain ⟨opens, before, rest, close, after, rfl, others⟩ := group
  exact ⟨opens, front ++ before, rest, close, after, by rw [List.append_assoc], others⟩

theorem groupAt_of_mem (member : .group opening inner closing ∈ pieces ms) :
    GroupAt opening inner closing ms := by
  fun_induction pieces ms with
  | case1 => cases member
  | case2 m rest opens close after first ih =>
    rcases List.mem_cons.mp member with same | later
    · obtain ⟨rfl, rfl, rfl⟩ := Piece.group.inj same
      obtain ⟨round, square⟩ : (m.1 = '(' ∨ m.1 = '[') ∧ m.2 = some 0 := by
        rcases opens with rfl | rfl <;> simp
      exact ⟨round, [], rest, close, after, by rw [← square]; rfl, first, rfl, rfl⟩
    · have whole : m :: rest = (m :: rest.takeWhile isInner ++ [close]) ++ after := by
        rw [List.append_assoc, List.singleton_append, List.cons_append, ← first,
          List.takeWhile_append_dropWhile]
      rw [whole]
      exact (ih later).append _
  | case3 m rest _ _ ih => exact (ih (by simpa using member)).append [m]
  | case4 m rest _ ih => exact (ih (by simpa using member)).append [m]

theorem excerpt_of_group (member : .group opening inner closing ∈ pieces (mark cs)) :
    Excerpt inner cs := by
  obtain ⟨opens, before, rest, close, after, split, first, rfl, rfl⟩ := groupAt_of_mem member
  have opening_ : isOpening opening = true := by rcases opens with rfl | rfl <;> rfl
  have inCode := inCode_of_markCode cs split
  -- What follows the opening bracket is marked one level deeper.
  have deeper : markCode 1 (chars rest) = rest := by
    obtain ⟨depth, marked⟩ := inCode.marked
    obtain ⟨level, next, _, opens, _, equation⟩ := markCode_plain inCode.plain depth
    rw [equation] at marked
    obtain ⟨same, later⟩ := List.cons.inj marked
    obtain rfl : level = 0 := by simpa using same
    rwa [opens opening_] at later
  have closes : isClosing close.1 = true := by
    rw [← deeper] at first
    exact isClosing_of_markCode _ first
  have joined : chars rest = chars (rest.takeWhile isInner) ++ close.1 :: chars after := by
    have parts := congrArg chars (List.takeWhile_append_dropWhile (p := isInner) (l := rest))
    rw [first] at parts
    simpa [chars] using parts.symm
  have whole : cs = (chars before ++ [opening]) ++ chars (rest.takeWhile isInner) ++
      close.1 :: chars after := by
    rw [← chars_mark cs, split, List.append_assoc, ← joined]
    simp [chars]
  rw [whole]
  refine .intro (inCode.ends.append (.singleton inCode.plain)) ?_
  simp only [isClosing, Bool.or_eq_true, decide_eq_true_eq] at closes
  rcases opens with rfl | rfl <;> rcases closes with (same | same) | same <;> simp [same]

/-- Without a comma on the outermost level there is one item; else the first one ends there. -/
theorem items_cases (ms : List Marked) :
    items ms = [chars ms] ∨ ∃ part rest, ms = part ++ (',', some 0) :: rest ∧
      items ms = chars part :: items rest := by
  by_cases comma : (',', some 0) ∈ ms
  · obtain ⟨part, rest, rfl, plain⟩ := List.eq_append_cons_of_mem comma
    exact .inr ⟨part, rest, rfl, items_append plain rest⟩
  · exact .inl (items_of_notMem comma)

theorem exists_of_mem_items (ms : List Marked) (member : item ∈ items ms) :
    ∃ before part after, ms = before ++ part ++ after ∧ item = chars part ∧
      (before = [] ∨ before.getLast? = some (',', some 0)) ∧
      (after = [] ∨ after.head? = some (',', some 0)) := by
  rcases items_cases ms with whole | ⟨first, rest, split, several⟩
  · rw [whole, List.mem_singleton] at member
    exact ⟨[], ms, [], by simp, member, .inl rfl, .inl rfl⟩
  · have shorter : rest.length < ms.length := by simp [split]; omega
    rw [several, List.mem_cons] at member
    rcases member with same | later
    · exact ⟨[], first, (',', some 0) :: rest, split, same, .inl rfl, .inr rfl⟩
    · obtain ⟨before, part, after, rfl, same, begins, ends⟩ := exists_of_mem_items rest later
      refine ⟨first ++ (',', some 0) :: before, part, after, by simp [split], same, .inr ?_, ends⟩
      rcases begins with rfl | last
      · simp
      · simp [List.getLast?_append, List.getLast?_cons, last]
termination_by ms.length

theorem excerpt_of_item (member : item ∈ items (mark cs)) : Excerpt item cs := by
  obtain ⟨before, part, after, split, rfl, begins, ends⟩ := exists_of_mem_items _ member
  have whole : cs = chars before ++ chars part ++ chars after := by
    rw [← chars_mark cs, split]
    simp [chars]
  have first : EndsInCode (chars before) := by
    rcases begins with rfl | last
    · exact .nil
    · obtain ⟨front, rfl⟩ := List.getLast?_eq_some_iff.mp last
      rw [List.append_assoc, List.append_assoc] at split
      have inCode := inCode_of_markCode cs split
      rw [chars, List.map_append]
      exact inCode.ends.append (.singleton inCode.plain)
  rw [whole]
  refine .intro first ?_
  rcases begins with rfl | last <;> rcases ends with rfl | next <;>
    simp [chars, List.getLast?_map, *]

end Excerpts

section Expansion

variable {cs : List Char}

def Piece.text : Piece → List Char
  | .char c => [c]
  | .group opening inner closing => opening :: inner ++ [closing]

theorem flatMap_pieces (ms : List Marked) : (pieces ms).flatMap Piece.text = chars ms := by
  fun_induction pieces ms with
  | case1 => rfl
  | case2 m rest opens close after first ih =>
    have joined : rest.takeWhile isInner ++ close :: after = rest := by
      rw [← first, List.takeWhile_append_dropWhile]
    rw [List.flatMap_cons, ih]
    conv => rhs; rw [← joined]
    simp [Piece.text, chars]
  | case3 m rest _ _ ih => simpa [Piece.text, chars] using ih
  | case4 m rest _ ih => simpa [Piece.text, chars] using ih

theorem intercalate_items (ms : List Marked) : [','].intercalate (items ms) = chars ms := by
  rcases items_cases ms with whole | ⟨first, rest, split, several⟩
  · rw [whole]
    simp
  · have shorter : rest.length < ms.length := by simp [split]; omega
    rw [several, List.intercalate_cons_of_ne_nil (items_ne_nil rest), intercalate_items rest, split]
    simp [chars]
termination_by ms.length

theorem expandItems_of_fixed (fixed : ∀ item ∈ items (mark cs), expand item = item) :
    expandItems cs = cs := by
  rw [expandItems_eq, List.map_congr_left fixed, List.map_id', intercalate_items, chars_mark]

theorem expandGroups_of_fixed
    (fixed : ∀ opening inner closing, .group opening inner closing ∈ pieces (mark cs) →
      expandItems inner = inner) :
    expandGroups cs = cs := by
  have same : ∀ piece ∈ pieces (mark cs), piece.expand = piece.text := by
    rintro (c | ⟨opening, inner, closing⟩) member
    · rfl
    · rw [Piece.expand, fixed opening inner closing member, Piece.text]
  rw [expandGroups_eq, List.flatMap_def, List.map_congr_left same, ← List.flatMap_def, flatMap_pieces,
    chars_mark]

theorem expand_of_unconditional (cs : List Char) (plain : Unconditional cs) : expand cs = cs := by
  rw [expand_of_none plain.split?_eq_none]
  refine expandGroups_of_fixed fun opening inner closing group => ?_
  refine expandItems_of_fixed fun item listed => ?_
  have shorter : item.length < cs.length := by
    have inside := length_of_group_mem group
    have within := length_of_mem_items listed
    simp only [length_mark] at inside within
    omega
  -- An item is an excerpt of the group, and the group is one of the whole text.
  have plain := (excerpt_of_group group).unconditional plain
  exact expand_of_unconditional item ((excerpt_of_item listed).unconditional plain)
termination_by cs.length

/-- The translator leaves a text without conditionals as normalization has it. -/
theorem toScript_verbatim (text : String) (plain : Unconditional (normalize .code text.toList)) :
    toScript text = String.ofList (normalize .code text.toList) := by
  rw [toScript, expand_of_unconditional _ plain]

theorem malformed_verbatim :
    Unconditional (normalize .code "f(a ?? b?.c, 'why? \"' ] [d?[0] === ) `open ? (".toList) ∧
      toScript "f(a ?? b?.c, 'why? \"' ] [d?[0] === ) `open ? (" =
        "f(a ?? b?.c, \"why? \\\"\" ] [d?[0] == ) `open ? (" :=
  ⟨by decide, toScript_verbatim _ (by decide)⟩

end Expansion

end HttpWorkflow.Expression
