import HttpWorkflow.Proofs.Expression.Tree

/-! Texts cut at their literals.

A text is code, with literals in it. Only the last literal may have no closing quote, and then the
text may end right after a backslash of it. Every text is cut in one way only.
-/

set_option autoImplicit false

namespace HttpWorkflow.Expression

namespace Quote

def ofChar? (c : Char) : Option Quote :=
  if c = '\'' then some single
  else if c = '"' then some double
  else if c = '`' then some back
  else none

@[simp] theorem ofChar?_char (quote : Quote) : ofChar? quote.char = some quote := by
  cases quote <;> rfl

theorem char_of_ofChar? {c : Char} {quote : Quote} (begins : ofChar? c = some quote) :
    quote.char = c := by
  unfold ofChar? at begins
  split at begins
  · next same => rw [← Option.some.inj begins, same, char]
  · split at begins
    · next same => rw [← Option.some.inj begins, same, char]
    · split at begins
      · next same => rw [← Option.some.inj begins, same, char]
      · cases begins

theorem ofChar?_eq_none_iff {c : Char} : ofChar? c = none ↔ c ≠ '\'' ∧ c ≠ '"' ∧ c ≠ '`' := by
  unfold ofChar?
  by_cases single : c = '\'' <;> by_cases double : c = '"' <;> by_cases back : c = '`' <;>
    simp [single, double, back]

theorem char_ne_slash (quote : Quote) : quote.char ≠ '\\' := by cases quote <;> decide

end Quote

/-- Code without literals. -/
@[ext] structure Code where
  text : List Char
  plain : ∀ c ∈ text, Quote.ofChar? c = none

namespace Code

def empty : Code := ⟨[], nofun⟩

def singleton (c : Char) (plain : Quote.ofChar? c = none) : Code :=
  ⟨[c], List.forall_mem_singleton.mpr plain⟩

def append (first second : Code) : Code where
  text := first.text ++ second.text
  plain := List.forall_mem_append.mpr ⟨first.plain, second.plain⟩

@[simp] theorem text_append (first second : Code) :
    (first.append second).text = first.text ++ second.text := rfl

theorem append_empty (code : Code) : code.append empty = code := by
  ext1
  exact List.append_nil code.text

end Code

/-- A literal without a closing quote. The text may end after a backslash in it. -/
structure OpenLiteral where
  quote : Quote
  parts : List (Part quote)
  slash : Bool

def OpenLiteral.text (l : OpenLiteral) : List Char :=
  l.quote.char :: (l.parts.flatMap Part.text ++ if l.slash then ['\\'] else [])

inductive Cut where
  | code (c : Code)
  | unfinished (c : Code) (l : OpenLiteral)
  | literal (c : Code) (l : Literal) (rest : Cut)

/-- What follows an opening quote. -/
inductive Inside (quote : Quote) where
  | unfinished (parts : List (Part quote)) (slash : Bool)
  | closed (parts : List (Part quote)) (rest : Cut)

namespace Cut

def text : Cut → List Char
  | code c => c.text
  | unfinished c l => c.text ++ l.text
  | literal c l rest => c.text ++ (l.text ++ rest.text)

/-- The same literals, with more code before them. -/
def after (front : Code) : Cut → Cut
  | code c => code (front.append c)
  | unfinished c l => unfinished (front.append c) l
  | literal c l rest => literal (front.append c) l rest

@[simp] theorem text_after (front : Code) (x : Cut) :
    (x.after front).text = front.text ++ x.text := by
  cases x <;> simp [after, text]

theorem after_empty (x : Cut) : x.after .empty = x := by
  cases x <;> rfl

theorem after_after (first second : Code) (x : Cut) :
    (x.after second).after first = x.after (first.append second) := by
  cases x <;> simp [after, Code.append]

end Cut

namespace Inside

variable {quote : Quote}

def text : Inside quote → List Char
  | unfinished parts slash => parts.flatMap Part.text ++ if slash then ['\\'] else []
  | closed parts rest => parts.flatMap Part.text ++ quote.char :: rest.text

def after (front : List (Part quote)) : Inside quote → Inside quote
  | unfinished parts slash => unfinished (front ++ parts) slash
  | closed parts rest => closed (front ++ parts) rest

theorem after_nil (x : Inside quote) : x.after [] = x := by
  cases x <;> rfl

theorem after_after (first second : List (Part quote)) (x : Inside quote) :
    (x.after second).after first = x.after (first ++ second) := by
  cases x <;> simp [after]

/-- The text with its opening quote. -/
def cut : Inside quote → Cut
  | unfinished parts slash => .unfinished .empty ⟨quote, parts, slash⟩
  | closed parts rest => .literal .empty ⟨quote, parts⟩ rest

@[simp] theorem text_after (front : List (Part quote)) (x : Inside quote) :
    (x.after front).text = front.flatMap Part.text ++ x.text := by
  cases x <;> simp [after, text]

@[simp] theorem text_cut (x : Inside quote) : x.cut.text = quote.char :: x.text := by
  cases x <;> simp [cut, text, Cut.text, Code.empty, Literal.text, OpenLiteral.text]

end Inside

mutual

def cut : List Char → Cut
  | [] => .code .empty
  | c :: rest =>
    match begins : Quote.ofChar? c with
    | some quote => (cutInside quote rest).cut
    | none => (cut rest).after (.singleton c begins)

def cutInside (quote : Quote) : List Char → Inside quote
  | [] => .unfinished [] false
  | c :: rest =>
    if slash : c = '\\' then
      match rest with
      | [] => .unfinished [] true
      | d :: more => (cutInside quote more).after [.escaped d]
    else if closes : c = quote.char then .closed [] (cut rest)
    else (cutInside quote rest).after [.plain c ⟨slash, closes⟩]

end

section Reading

mutual

theorem text_cut (cs : List Char) : (cut cs).text = cs := by
  cases cs with
  | nil => rfl
  | cons c rest =>
    rw [cut]
    split
    · next quote begins =>
      rw [Inside.text_cut, text_cutInside quote rest, Quote.char_of_ofChar? begins]
    · next plain =>
      rw [Cut.text_after, text_cut rest]
      rfl

theorem text_cutInside (quote : Quote) (cs : List Char) : (cutInside quote cs).text = cs := by
  cases cs with
  | nil => rfl
  | cons c rest =>
    rw [cutInside.eq_def]
    dsimp only
    split
    · next slash =>
      cases rest with
      | nil =>
        rw [slash]
        rfl
      | cons d more =>
        rw [Inside.text_after, text_cutInside quote more, slash]
        rfl
    · split
      · next closes =>
        rw [Inside.text, text_cut rest, closes]
        rfl
      · rw [Inside.text_after, text_cutInside quote rest]
        rfl

end

variable {quote : Quote}

theorem cut_quote (quote : Quote) (rest : List Char) :
    cut (quote.char :: rest) = (cutInside quote rest).cut := by
  rw [cut]
  split
  · next same =>
    rw [Quote.ofChar?_char] at same
    rw [Option.some.inj same]
  · next none =>
    rw [Quote.ofChar?_char] at none
    cases none

theorem cut_plain {c : Char} (plain : Quote.ofChar? c = none) (rest : List Char) :
    cut (c :: rest) = (cut rest).after (.singleton c plain) := by
  rw [cut]
  split
  · next begins =>
    rw [plain] at begins
    cases begins
  · rfl

theorem cut_code (code : Code) (rest : List Char) :
    cut (code.text ++ rest) = (cut rest).after code := by
  obtain ⟨cs, plain⟩ := code
  induction cs with
  | nil => exact (Cut.after_empty (cut rest)).symm
  | cons c cs ih =>
    obtain ⟨first, others⟩ := List.forall_mem_cons.mp plain
    rw [List.cons_append, cut_plain first, ih others, Cut.after_after]
    rfl

theorem cutInside_part (part : Part quote) (rest : List Char) :
    cutInside quote (part.text ++ rest) = (cutInside quote rest).after [part] := by
  cases part with
  | plain c inside =>
    rw [Part.text, List.singleton_append, cutInside.eq_def]
    dsimp only
    rw [dif_neg inside.1, dif_neg inside.2]
  | escaped c =>
    rw [Part.text, List.cons_append, List.singleton_append, cutInside, dif_pos rfl]

theorem cutInside_parts (parts : List (Part quote)) (rest : List Char) :
    cutInside quote (parts.flatMap Part.text ++ rest) = (cutInside quote rest).after parts := by
  induction parts with
  | nil => exact (Inside.after_nil (cutInside quote rest)).symm
  | cons part parts ih =>
    rw [List.flatMap_cons, List.append_assoc, cutInside_part, ih, Inside.after_after]
    rfl

theorem cutInside_quote (rest : List Char) :
    cutInside quote (quote.char :: rest) = .closed [] (cut rest) := by
  rw [cutInside.eq_def]
  dsimp only
  rw [dif_neg quote.char_ne_slash, dif_pos rfl]

theorem cut_literal (l : Literal) (rest : List Char) :
    cut (l.text ++ rest) = .literal .empty l (cut rest) := by
  obtain ⟨quote, parts⟩ := l
  rw [Literal.text, List.cons_append, cut_quote, List.append_assoc, cutInside_parts,
    List.singleton_append, cutInside_quote, Inside.after, List.append_nil, Inside.cut]

theorem cut_openLiteral (l : OpenLiteral) : cut l.text = .unfinished .empty l := by
  obtain ⟨quote, parts, slash⟩ := l
  have rest : cutInside quote (if slash then ['\\'] else []) = .unfinished [] slash := by
    cases slash <;> rfl
  rw [OpenLiteral.text, cut_quote, cutInside_parts, rest, Inside.after, List.append_nil, Inside.cut]

theorem cut_text (x : Cut) : cut x.text = x := by
  induction x with
  | code c =>
    have whole := cut_code c []
    rw [List.append_nil] at whole
    rw [Cut.text, whole, cut, Cut.after, Code.append_empty]
  | unfinished c l => rw [Cut.text, cut_code, cut_openLiteral, Cut.after, Code.append_empty]
  | literal c l rest ih => rw [Cut.text, cut_code, cut_literal, Cut.after, Code.append_empty, ih]

/-- Every text is cut in one way. -/
theorem text_eq_iff {x : Cut} {cs : List Char} : x.text = cs ↔ x = cut cs := by
  constructor
  · rintro rfl
    exact (cut_text x).symm
  · rintro rfl
    exact text_cut cs

end Reading

end HttpWorkflow.Expression
