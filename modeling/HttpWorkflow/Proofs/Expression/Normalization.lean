import HttpWorkflow.Expression.Literals
import HttpWorkflow.Proofs.Expression.Aligned
import HttpWorkflow.Proofs.Expression.Tree

/-! Normalization of printed trees.

The text of a tree is aligned with the text that has the signs and literals of scripts, and
normalization replaces just these blocks.
-/

set_option autoImplicit false

namespace HttpWorkflow.Expression

section Literals

variable {rest : List Char}

theorem normalize_single (parts : List (Part .single)) (rest : List Char) :
    normalize .single (parts.flatMap Part.text ++ rest) =
      (parts.map Part.requote).flatMap Part.text ++ normalize .single rest := by
  induction parts with
  | nil => rfl
  | cons part parts ih =>
    rw [List.flatMap_cons, List.map_cons, List.flatMap_cons, List.append_assoc, List.append_assoc,
      ← ih]
    cases part with
    | plain c inside =>
      by_cases quoted : c = '"'
      · subst quoted
        simp [Part.text, Part.requote, normalize]
      · simp only [Part.requote, quoted, dif_neg, not_false_eq_true, Part.text,
          List.singleton_append]
        rw [normalize]
        all_goals simp_all [Quote.char]
    | escaped c =>
      by_cases quoted : c = '\''
      · subst quoted
        simp [Part.text, Part.requote, normalize]
      · simp only [Part.requote, quoted, if_neg, not_false_eq_true, Part.text, List.cons_append,
          List.nil_append]
        rw [normalize]
        simp_all

theorem normalize_other {quote : Quote} (parts : List (Part quote)) (rest : List Char) :
    normalize (.other quote.char) (parts.flatMap Part.text ++ rest) =
      parts.flatMap Part.text ++ normalize (.other quote.char) rest := by
  induction parts with
  | nil => rfl
  | cons part parts ih =>
    rw [List.flatMap_cons, List.append_assoc, List.append_assoc, ← ih]
    cases part with
    | plain c inside =>
      simp only [Part.text, List.singleton_append]
      rw [normalize]
      · rw [if_neg inside.2]
      · simp_all
    | escaped c => simp [Part.text, normalize]

theorem normalize_literal (l : Literal) (rest : List Char) :
    normalize .code (l.text ++ rest) = l.requote.text ++ normalize .code rest := by
  obtain ⟨quote, parts⟩ := l
  cases quote with
  | single =>
    have inside := normalize_single parts ('\'' :: rest)
    simp [Literal.text, Literal.requote, Quote.char, normalize] at inside ⊢
    exact inside
  | double =>
    have inside := @normalize_other .double parts ('"' :: rest)
    simp [Literal.text, Literal.requote, Quote.char, normalize] at inside ⊢
    exact inside
  | back =>
    have inside := @normalize_other .back parts ('`' :: rest)
    simp [Literal.text, Literal.requote, Quote.char, normalize] at inside ⊢
    exact inside

theorem normalize_sign (op : Operator) (next : rest.head? ≠ some '=') :
    normalize .code (op.sign ++ rest) = op.loose.sign ++ normalize .code rest := by
  have other (more : List Char) : rest ≠ '=' :: more := by
    rintro rfl
    exact next rfl
  cases op <;> simp [Operator.sign, Operator.loose, normalize, other]

end Literals

section Rules

theorem solid_literal (l : Literal) : Solid l.text := by
  obtain ⟨quote, parts⟩ := l
  cases quote with
  | single => exact Solid.of_ends rfl rfl _
  | double => exact Solid.of_ends rfl rfl _
  | back => exact Solid.of_ends rfl rfl _

theorem solid_sign (op : Operator) : Solid op.sign := by
  cases op with
  | assign => exact Solid.singleton rfl
  | not => exact Solid.singleton rfl
  | equal => exact Solid.of_ends rfl rfl []
  | unequal => exact Solid.of_ends rfl rfl []
  | atMost => exact Solid.of_ends rfl rfl []
  | atLeast => exact Solid.of_ends rfl rfl []
  | same => exact Solid.of_ends rfl rfl ['=']
  | different => exact Solid.of_ends rfl rfl ['=']

/-- What normalization replaces. An equality sign right after an operator would be read as a part
of it. -/
def normalRules : Rules where
  Ordinary c := c ∉ ['\'', '"', '`', '=', '!']
  Block a b := (∃ op : Operator, a = op.sign ∧ b = op.loose.sign) ∨
    ∃ l : Literal, a = l.text ∧ b = l.requote.text
  Next s := s.head? ≠ some '='
  solid := by
    rintro a b (⟨op, rfl, rfl⟩ | ⟨l, rfl, rfl⟩)
    · exact ⟨solid_sign op, solid_sign op.loose⟩
    · exact ⟨solid_literal l, solid_literal l.requote⟩
  next_append := by
    intro s t first second
    cases s with
    | nil => exact second
    | cons => exact first
  next_front := by
    intro s t whole
    cases s with
    | nil => simp
    | cons => exact whole

theorem normalize_of_aligned {s t : List Char} (aligned : Aligned normalRules s t) :
    normalize .code s = t := by
  induction aligned with
  | nil => rfl
  | char ordinary _ ih => rw [normalize_char ordinary, ih]
  | block block next _ ih =>
    obtain ⟨op, rfl, rfl⟩ | ⟨l, rfl, rfl⟩ := block
    · rw [normalize_sign op next, ih]
    · rw [normalize_literal, ih]

end Rules

section Trees

theorem Dialect.questioned_eq (condition yes no : List Char) :
    questioned condition yes no =
      condition ++ ' ' :: '?' :: ' ' :: (yes ++ ' ' :: ':' :: ' ' :: no) := by
  simp [questioned]

def isSyntax (c : Char) : Bool := [' ', '?', ':', ',', '(', ')', '[', ']'].contains c

theorem ordinary_of_isSyntax {c : Char} (sign : isSyntax c) : normalRules.Ordinary c := by
  have all : ∀ c ∈ [' ', '?', ':', ',', '(', ')', '[', ']'], c ∉ ['\'', '"', '`', '=', '!'] := by
    simp
  exact all c (List.contains_iff_mem.mp sign)

theorem next_of_isSyntax {c : Char} (sign : isSyntax c) (s : List Char) :
    normalRules.Next (c :: s) := by
  intro same
  obtain rfl := Option.some.inj same
  exact absurd sign (by decide)

theorem Aligned.questioned {c c' y y' n n' : List Char} (condition : Aligned normalRules c c')
    (yes : Aligned normalRules y y') (no : Aligned normalRules n n') :
    Aligned normalRules (Dialect.questioned c y n) (Dialect.questioned c' y' n') := by
  have space := @ordinary_of_isSyntax ' ' rfl
  rw [Dialect.questioned_eq, Dialect.questioned_eq]
  refine condition.append (next_of_isSyntax rfl _) (.char space (.char (ordinary_of_isSyntax rfl)
    (.char space ?_)))
  exact yes.append (next_of_isSyntax rfl _) (.char space (.char (ordinary_of_isSyntax rfl)
    (.char space no)))

theorem ordinary_of_isCode {c : Char} (plain : isCode c) : normalRules.Ordinary c := by
  simp only [isCode, List.mem_cons, List.not_mem_nil, or_false, not_or, decide_eq_true_eq] at plain
  simp [normalRules, plain]

/-- No item begins with an equality sign. -/
theorem next_printItem (item : Item) (rest : List Char) :
    normalRules.Next (item.print .web ++ rest) := by
  intro head
  cases item with
  | code c plain =>
    simp only [Item.print, List.singleton_append, List.head?_cons, Option.some.injEq] at head
    exact absurd plain (by simp [head, isCode])
  | operator op => cases head
  | literal l =>
    obtain ⟨quote, parts⟩ := l
    cases quote <;> cases head
  | list bracket trees => cases bracket <;> cases head

theorem next_printItems (items : List Item) : normalRules.Next (printItems .web items) := by
  cases items with
  | nil => exact nofun
  | cons item rest => exact next_printItem item _

mutual

theorem aligned_tree : ∀ e : Tree, Aligned normalRules (e.print .web) (e.print .normal)
  | .group items => by
    rw [Tree.print, Tree.print]
    exact aligned_items items
  | .conditional condition yes no => by
    rw [Tree.print, Tree.print]
    exact (aligned_items condition).trim.questioned (aligned_tree yes).trim (aligned_tree no).trim

theorem aligned_item : ∀ item : Item, Aligned normalRules (item.print .web) (item.print .normal)
  | .code c plain => by
    rw [Item.print, Item.print]
    exact .singleton (ordinary_of_isCode plain)
  | .operator op => by
    have space := @ordinary_of_isSyntax ' ' rfl
    rw [Item.print, Item.print]
    exact .char space (.block (Or.inl ⟨op, rfl, rfl⟩) (next_of_isSyntax rfl []) (.singleton space))
  | .literal l => by
    have next : normalRules.Next [] := nofun
    have aligned := Aligned.block (r := normalRules) (Or.inr ⟨l, rfl, rfl⟩) next .nil
    rw [List.append_nil, List.append_nil] at aligned
    rw [Item.print, Item.print]
    exact aligned
  | .list bracket trees => by
    have opening : normalRules.Ordinary bracket.opening := by
      cases bracket <;> exact ordinary_of_isSyntax rfl
    have closing : isSyntax bracket.closing := by
      cases bracket <;> rfl
    rw [Item.print, Item.print]
    exact .char opening ((aligned_trees trees).append (next_of_isSyntax closing [])
      (.singleton (ordinary_of_isSyntax closing)))

theorem aligned_items : ∀ items : List Item,
    Aligned normalRules (printItems .web items) (printItems .normal items)
  | [] => by
    rw [printItems, printItems]
    exact .nil
  | item :: rest => by
    rw [printItems, printItems]
    exact (aligned_item item).append (next_printItems rest) (aligned_items rest)

theorem aligned_trees : ∀ trees : List Tree,
    Aligned normalRules (printTrees .web trees) (printTrees .normal trees)
  | [] => by
    rw [printTrees, printTrees]
    exact .nil
  | [tree] => by
    rw [printTrees, printTrees]
    exact aligned_tree tree
  | tree :: next :: rest => by
    have comma := @ordinary_of_isSyntax ',' rfl
    rw [printTrees_cons, printTrees_cons]
    exact (aligned_tree tree).append (next_of_isSyntax rfl _)
      (.char comma (aligned_trees (next :: rest)))

end

/-- Normalization gives the signs and literals of scripts, and keeps all conditionals. -/
theorem normalize_print (e : Tree) : normalize .code (e.print .web) = e.print .normal :=
  normalize_of_aligned (aligned_tree e)

end Trees

end HttpWorkflow.Expression
