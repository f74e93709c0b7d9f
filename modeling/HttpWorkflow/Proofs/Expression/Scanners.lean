import HttpWorkflow.Expression.Conditional
import HttpWorkflow.Proofs.Expression.Cut
import HttpWorkflow.Proofs.Expression.Normalization

/-! Literals, as normalization writes them and as depths are given to them.

Normalization and the marking of depths each scan for literals, by rules of their own. The first
takes escapes in pairs and writes single-quoted literals anew; the second goes through what was
written, one character at a time. To tell literals that touch from one literal, both are run here
with a count of the literals, and after each step of the first the second is in the same mode.
-/

set_option autoImplicit false

namespace HttpWorkflow.Expression

section Shortening

/-- Code with `===` and `!==` written as `==` and `!=`, taken from the left. -/
def shorten : List Char → List Char
  | '=' :: '=' :: '=' :: rest => '=' :: '=' :: shorten rest
  | '!' :: '=' :: '=' :: rest => '!' :: '=' :: shorten rest
  | c :: rest => c :: shorten rest
  | [] => []

theorem shorten_sublist (cs : List Char) : List.Sublist (shorten cs) cs := by
  fun_induction shorten cs with
  | case1 rest ih => exact ((ih.cons '=').cons_cons '=').cons_cons '='
  | case2 rest ih => exact ((ih.cons '=').cons_cons '=').cons_cons '!'
  | case3 c rest _ _ ih => exact ih.cons_cons c
  | case4 => exact .slnil

theorem normalize_append {cs rest : List Char} (plain : ∀ c ∈ cs, Quote.ofChar? c = none)
    (next : rest.head? ≠ some '=') :
    normalize .code (cs ++ rest) = shorten cs ++ normalize .code rest := by
  -- No sign goes on from the code to the text after it.
  have within {tail more : List Char} (same : tail ++ rest = '=' :: '=' :: more) :
      ∃ other, tail = '=' :: '=' :: other := by
    rcases tail with _ | ⟨c, _ | ⟨d, other⟩⟩
    · rw [List.nil_append] at same
      exact absurd (congrArg List.head? same) next
    · obtain ⟨_, later⟩ := List.cons.inj same
      exact absurd (congrArg List.head? later) next
    · obtain ⟨rfl, later⟩ := List.cons.inj same
      obtain ⟨rfl, _⟩ := List.cons.inj later
      exact ⟨other, rfl⟩
  fun_induction shorten cs with
  | case1 cs ih =>
    simp only [List.forall_mem_cons] at plain
    simp [normalize, ih plain.2.2.2]
  | case2 cs ih =>
    simp only [List.forall_mem_cons] at plain
    simp [normalize, ih plain.2.2.2]
  | case3 c cs same different ih =>
    obtain ⟨code, others⟩ := List.forall_mem_cons.mp plain
    obtain ⟨notSingle, notDouble, notBack⟩ := Quote.ofChar?_eq_none_iff.mp code
    rw [List.cons_append, normalize, ih others, List.cons_append]
    · exact notSingle
    · exact notDouble
    · exact notBack
    · rintro more rfl joined
      obtain ⟨other, rfl⟩ := within joined
      exact same other rfl rfl
    · rintro more rfl joined
      obtain ⟨other, rfl⟩ := within joined
      exact different other rfl rfl
  | case4 => rfl

end Shortening

def Code.shorten (c : Code) : Code where
  text := Expression.shorten c.text
  plain d member := c.plain d ((shorten_sublist c.text).mem member)

def OpenLiteral.requote : OpenLiteral → OpenLiteral
  | ⟨.single, parts, slash⟩ => ⟨.double, parts.map Part.requote, slash⟩
  | l => l

/-- The same literals as scripts have them, and the code between them without strict signs. -/
def Cut.normal : Cut → Cut
  | code c => code c.shorten
  | unfinished c l => unfinished c.shorten l.requote
  | literal c l rest => literal c.shorten l.requote rest.normal

section Normalization

theorem head?_quote (quote : Quote) (rest : List Char) :
    (quote.char :: rest).head? ≠ some '=' := by
  cases quote <;> simp [Quote.char]

theorem normalize_slash (quoting : Quoting) (slash : Bool) :
    normalize quoting (if slash then ['\\'] else []) = if slash then ['\\'] else [] := by
  cases slash <;> cases quoting <;> simp [normalize]

theorem normalize_openLiteral (l : OpenLiteral) : normalize .code l.text = l.requote.text := by
  obtain ⟨quote, parts, slash⟩ := l
  cases quote with
  | single =>
    have inside := normalize_single parts (if slash then ['\\'] else [])
    rw [normalize_slash] at inside
    rw [OpenLiteral.text, Quote.char, normalize, inside]
    rfl
  | double =>
    have inside := @normalize_other .double parts (if slash then ['\\'] else [])
    rw [normalize_slash] at inside
    rw [OpenLiteral.text, Quote.char, normalize]
    exact congrArg ('"' :: ·) inside
  | back =>
    have inside := @normalize_other .back parts (if slash then ['\\'] else [])
    rw [normalize_slash] at inside
    rw [OpenLiteral.text, Quote.char, normalize]
    exact congrArg ('`' :: ·) inside

theorem normalize_text (x : Cut) : normalize .code x.text = x.normal.text := by
  induction x with
  | code c =>
    have whole := @normalize_append c.text [] c.plain (by simp)
    rwa [List.append_nil, normalize, List.append_nil] at whole
  | unfinished c l =>
    have next : l.text.head? ≠ some '=' := head?_quote l.quote _
    rw [Cut.text, normalize_append c.plain next, normalize_openLiteral]
    rfl
  | literal c l rest ih =>
    have next : (l.text ++ rest.text).head? ≠ some '=' := head?_quote l.quote _
    rw [Cut.text, normalize_append c.plain next, normalize_literal, ih]
    rfl

end Normalization

section Numbers

/-- A character with the number of the literal that it is in, or with none in code. -/
abbrev Numbered := Char × Option Nat

mutual

/-- What `markCode` does, with a count of literals in place of the depth. -/
def numberCode (count : Nat) : List Char → List Numbered
  | [] => []
  | c :: rest =>
    if c = '"' ∨ c = '`' then (c, some count) :: numberLiteral count c false rest
    else (c, none) :: numberCode count rest

def numberLiteral (count : Nat) (quote : Char) (escaped : Bool) : List Char → List Numbered
  | [] => []
  | c :: rest =>
    (c, some count) ::
      if escaped then numberLiteral count quote false rest
      else if c = '\\' then numberLiteral count quote true rest
      else if c = quote then numberCode (count + 1) rest
      else numberLiteral count quote false rest

end

def Cut.numbered (count : Nat) : Cut → List Numbered
  | code c => c.text.map fun d => (d, none)
  | unfinished c l => c.text.map (fun d => (d, none)) ++ l.text.map fun d => (d, some count)
  | literal c l rest =>
    c.text.map (fun d => (d, none)) ++
      (l.text.map (fun d => (d, some count)) ++ rest.numbered (count + 1))

mutual

/-- Just the characters that a literal is counted for have no depth. -/
theorem depths_markCode (depth count : Nat) (cs : List Char) :
    (markCode depth cs).map (fun m => (m.1, m.2.isNone)) =
      (numberCode count cs).map (fun m => (m.1, m.2.isSome)) := by
  cases cs with
  | nil => simp [markCode, numberCode]
  | cons c rest =>
    unfold markCode numberCode
    split
    · exact congrArg ((c, true) :: ·) (depths_markLiteral depth count c false rest)
    · split
      · exact congrArg ((c, false) :: ·) (depths_markCode (depth + 1) count rest)
      · split
        · exact congrArg ((c, false) :: ·) (depths_markCode (depth - 1) count rest)
        · exact congrArg ((c, false) :: ·) (depths_markCode depth count rest)

theorem depths_markLiteral (depth count : Nat) (quote : Char) (escaped : Bool) (cs : List Char) :
    (markLiteral depth quote escaped cs).map (fun m => (m.1, m.2.isNone)) =
      (numberLiteral count quote escaped cs).map (fun m => (m.1, m.2.isSome)) := by
  cases cs with
  | nil => simp [markLiteral, numberLiteral]
  | cons c rest =>
    unfold markLiteral numberLiteral
    refine congrArg ((c, true) :: ·) ?_
    split
    · exact depths_markLiteral depth count quote false rest
    · split
      · exact depths_markLiteral depth count quote true rest
      · split
        · exact depths_markCode depth (count + 1) rest
        · exact depths_markLiteral depth count quote false rest

end

theorem numberCode_plain {c : Char} (notDouble : c ≠ '"') (notBack : c ≠ '`') (count : Nat)
    (rest : List Char) : numberCode count (c :: rest) = (c, none) :: numberCode count rest := by
  rw [numberCode, if_neg (not_or.mpr ⟨notDouble, notBack⟩)]

theorem numberCode_code (c : Code) (count : Nat) (rest : List Char) :
    numberCode count (c.text ++ rest) =
      c.text.map (fun d => (d, none)) ++ numberCode count rest := by
  obtain ⟨cs, plain⟩ := c
  induction cs with
  | nil => rfl
  | cons c cs ih =>
    obtain ⟨first, others⟩ := List.forall_mem_cons.mp plain
    obtain ⟨_, notDouble, notBack⟩ := Quote.ofChar?_eq_none_iff.mp first
    rw [List.cons_append, numberCode_plain notDouble notBack, ih others]
    rfl

theorem numberCode_quote {quote : Quote} (other : quote ≠ .single) (count : Nat)
    (rest : List Char) :
    numberCode count (quote.char :: rest) =
      (quote.char, some count) :: numberLiteral count quote.char false rest := by
  have begins : quote.char = '"' ∨ quote.char = '`' := by
    cases quote with
    | single => exact absurd rfl other
    | double => exact Or.inl rfl
    | back => exact Or.inr rfl
  rw [numberCode, if_pos begins]

theorem numberLiteral_escaped (count : Nat) (quote c : Char) (rest : List Char) :
    numberLiteral count quote false ('\\' :: c :: rest) =
      ('\\', some count) :: (c, some count) :: numberLiteral count quote false rest := by
  simp [numberLiteral]

theorem numberLiteral_quote {quote : Char} (other : quote ≠ '\\') (count : Nat)
    (rest : List Char) :
    numberLiteral count quote false (quote :: rest) =
      (quote, some count) :: numberCode (count + 1) rest := by
  simp [numberLiteral, other]

/-- A backslash that escapes nothing is the last character of the text. -/
theorem numberLiteral_plain {quote c : Char} {count : Nat} {rest : List Char} (other : c ≠ quote)
    (last : c = '\\' → rest = []) :
    numberLiteral count quote false (c :: rest) =
      (c, some count) :: numberLiteral count quote false rest := by
  by_cases slash : c = '\\'
  · rw [last slash, slash]
    simp [numberLiteral]
  · simp [numberLiteral, slash, other]

theorem numberLiteral_parts {quote : Quote} (parts : List (Part quote)) (count : Nat)
    (rest : List Char) :
    numberLiteral count quote.char false (parts.flatMap Part.text ++ rest) =
      (parts.flatMap Part.text).map (fun d => (d, some count)) ++
        numberLiteral count quote.char false rest := by
  induction parts with
  | nil => rfl
  | cons part parts ih =>
    rw [List.flatMap_cons, List.append_assoc, List.map_append, List.append_assoc, ← ih]
    cases part with
    | plain c inside => exact numberLiteral_plain inside.2 fun slash => absurd slash inside.1
    | escaped c => exact numberLiteral_escaped count quote.char c _

theorem numberCode_literal {l : Literal} (other : l.quote ≠ .single) (count : Nat)
    (rest : List Char) :
    numberCode count (l.text ++ rest) =
      l.text.map (fun d => (d, some count)) ++ numberCode (count + 1) rest := by
  obtain ⟨quote, parts⟩ := l
  rw [Literal.text, List.cons_append, numberCode_quote other, List.append_assoc,
    numberLiteral_parts, List.singleton_append, numberLiteral_quote quote.char_ne_slash]
  simp

theorem numberCode_openLiteral {l : OpenLiteral} (other : l.quote ≠ .single) (count : Nat) :
    numberCode count l.text = l.text.map fun d => (d, some count) := by
  obtain ⟨quote, parts, slash⟩ := l
  rw [OpenLiteral.text, numberCode_quote other, numberLiteral_parts]
  cases slash <;> simp [numberLiteral]

theorem OpenLiteral.requote_quote (l : OpenLiteral) : l.requote.quote ≠ .single := by
  obtain ⟨quote, parts, slash⟩ := l
  cases quote <;> nofun

theorem numberCode_normal (x : Cut) (count : Nat) :
    numberCode count x.normal.text = x.normal.numbered count := by
  induction x generalizing count with
  | code c =>
    have whole := numberCode_code c.shorten count []
    rwa [List.append_nil, numberCode, List.append_nil] at whole
  | unfinished c l =>
    rw [Cut.normal, Cut.text, numberCode_code, numberCode_openLiteral l.requote_quote, Cut.numbered]
  | literal c l rest ih =>
    rw [Cut.normal, Cut.text, numberCode_code, numberCode_literal l.requote_quote, ih, Cut.numbered]

end Numbers

section Emission

/-- What `normalize` writes, and the number of the literal for which it writes it. -/
def emit (count : Nat) : Quoting → List Char → List Numbered
  | _, [] => []
  | .single, '\\' :: '\'' :: rest => ('\'', some count) :: emit count .single rest
  | .single, '\\' :: c :: rest => ('\\', some count) :: (c, some count) :: emit count .single rest
  | .single, '"' :: rest => ('\\', some count) :: ('"', some count) :: emit count .single rest
  | .single, '\'' :: rest => ('"', some count) :: emit (count + 1) .code rest
  | .single, c :: rest => (c, some count) :: emit count .single rest
  | .other q, '\\' :: c :: rest =>
    ('\\', some count) :: (c, some count) :: emit count (.other q) rest
  | .other q, c :: rest =>
    (c, some count) :: if c = q then emit (count + 1) .code rest else emit count (.other q) rest
  | .code, '\'' :: rest => ('"', some count) :: emit count .single rest
  | .code, '"' :: rest => ('"', some count) :: emit count (.other '"') rest
  | .code, '`' :: rest => ('`', some count) :: emit count (.other '`') rest
  | .code, '=' :: '=' :: '=' :: rest => ('=', none) :: ('=', none) :: emit count .code rest
  | .code, '!' :: '=' :: '=' :: rest => ('!', none) :: ('=', none) :: emit count .code rest
  | .code, c :: rest => (c, none) :: emit count .code rest

theorem map_emit (count : Nat) (quoting : Quoting) (cs : List Char) :
    (emit count quoting cs).map (·.1) = normalize quoting cs := by
  fun_induction emit count quoting cs with
  | case8 count q c rest last later more =>
    rw [normalize, List.map_cons]
    · split
      · rw [later]
      · rw [more]
    · exact last
  | _ => simp_all [normalize]

/-- The second scanner, in the mode in which it goes on after what has been written. -/
def number (count : Nat) : Quoting → List Char → List Numbered
  | .code => numberCode count
  | .single => numberLiteral count '"' false
  | .other q => numberLiteral count q false

theorem eq_nil_of_slash_last {c : Char} {rest : List Char}
    (last : ∀ d more, c = '\\' → rest = d :: more → False) : c = '\\' → rest = [] := by
  intro slash
  cases rest with
  | nil => rfl
  | cons d more => exact (last d more slash rfl).elim

theorem number_normalize (count : Nat) {quoting : Quoting} (cs : List Char)
    (other : quoting ≠ .other '\\') :
    number count quoting (normalize quoting cs) = emit count quoting cs := by
  have code : Quoting.code ≠ .other '\\' := by decide
  have single : Quoting.single ≠ .other '\\' := by decide
  -- Each step of the first scanner reads whole pairs, and what it writes for one is a whole pair or
  -- no escape at all. So the second scanner is never left inside an escape.
  fun_induction emit count quoting cs with
  | case1 count quoting =>
    cases quoting <;> simp [normalize, number, numberCode, numberLiteral]
  | case2 count rest ih =>
    rw [normalize, ← ih single]
    exact numberLiteral_plain (by decide) (absurd · (by decide))
  | case3 count c rest different ih =>
    rw [normalize, ← ih single]
    · exact numberLiteral_escaped count '"' c _
    · exact different
  | case4 count rest ih =>
    rw [normalize, ← ih single]
    exact numberLiteral_escaped count '"' '"' _
  | case5 count rest ih =>
    rw [normalize, ← ih code]
    exact numberLiteral_quote (by decide) count _
  | case6 count c rest notQuote last notDouble notSingle ih =>
    rw [normalize, ← ih single]
    -- A double quote is escaped, in the case above, so what is written here closes nothing.
    · refine numberLiteral_plain notDouble fun slash => ?_
      rw [eq_nil_of_slash_last last slash, normalize]
    · exact notQuote
    · exact last
    · exact notDouble
    · exact notSingle
  | case7 count q c rest ih =>
    rw [normalize, ← ih other]
    exact numberLiteral_escaped count q c _
  | case8 count q c rest last later more =>
    rw [normalize]
    · by_cases closes : c = q
      · subst closes
        have quote : c ≠ '\\' := fun slash => other (congrArg Quoting.other slash)
        rw [if_pos rfl, if_pos rfl, ← later code]
        exact numberLiteral_quote quote count _
      · rw [if_neg closes, if_neg closes, ← more other]
        refine numberLiteral_plain closes fun slash => ?_
        rw [eq_nil_of_slash_last last slash, normalize]
    · exact last
  | case9 count rest ih =>
    rw [normalize, ← ih single]
    exact @numberCode_quote .double (by decide) count _
  | case10 count rest ih =>
    rw [normalize, ← ih (by decide)]
    exact @numberCode_quote .double (by decide) count _
  | case11 count rest ih =>
    rw [normalize, ← ih (by decide)]
    exact @numberCode_quote .back (by decide) count _
  | case12 count rest ih =>
    rw [normalize, ← ih code, number, numberCode_plain (by decide) (by decide),
      numberCode_plain (by decide) (by decide)]
  | case13 count rest ih =>
    rw [normalize, ← ih code, number, numberCode_plain (by decide) (by decide),
      numberCode_plain (by decide) (by decide)]
  | case14 count c rest notSingle notDouble notBack same different ih =>
    rw [normalize, ← ih code]
    · exact numberCode_plain notDouble notBack count _
    · exact notSingle
    · exact notDouble
    · exact notBack
    · exact same
    · exact different

end Emission

/-- The second scanner counts the literals that normalization writes, and gives no depth to just
the characters of these. They are the literals that the text is cut at, as scripts have them, and
the code between them is changed only at strict signs. -/
theorem scanners_agree (cs : List Char) :
    (emit 0 .code cs).map (·.1) = normalize .code cs ∧
      numberCode 0 (normalize .code cs) = emit 0 .code cs ∧
      (mark (normalize .code cs)).map (fun m => (m.1, m.2.isNone)) =
        (emit 0 .code cs).map (fun m => (m.1, m.2.isSome)) ∧
      emit 0 .code cs = (cut cs).normal.numbered 0 ∧
      ∀ x : Cut, x.text = cs ↔ x = cut cs := by
  have together : numberCode 0 (normalize .code cs) = emit 0 .code cs :=
    @number_normalize 0 .code cs (by decide)
  refine ⟨map_emit 0 .code cs, together, ?_, ?_, fun x => text_eq_iff⟩
  · rw [← together, mark, depths_markCode 0 0]
  · have written : normalize .code cs = (cut cs).normal.text := by
      rw [← normalize_text, text_cut]
    rw [← together, written, numberCode_normal]

example : emit 0 .code "x==='\\''\"?\"`".toList =
    [('x', none), ('=', none), ('=', none), ('"', some 0), ('\'', some 0), ('"', some 0),
      ('"', some 1), ('?', some 1), ('"', some 1), ('`', some 2)] := by
  decide

end HttpWorkflow.Expression
