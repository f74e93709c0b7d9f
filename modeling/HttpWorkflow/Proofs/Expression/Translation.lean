import HttpWorkflow.Proofs.Expression.Splitting

/-! Translation of printed trees.

The expansion follows the tree. A group is expanded piece by piece; the split of a conditional finds
the parts that were printed; the items of a list are the trees in it.
-/

set_option autoImplicit false

namespace HttpWorkflow.Expression

/-- A text that is expanded to another one, on its own and inside longer texts. -/
structure Translates (s t : List Char) : Prop where
  closed : Closed s
  balanced : Balanced s
  noComma : (',', some 0) ∉ mark s
  expands : expand s = t

variable {c c' y y' z z' p q s t : List Char}

theorem Aligned.translates (group : Aligned groupRules s t) : Translates s t := by
  refine ⟨group.closed, group.balanced, ?_, ?_⟩
  · intro comma
    exact (group.quiet _ comma).2.2 rfl
  · rw [expand_of_none group.split?_eq_none, group.expandGroups]

section Conditionals

theorem mark_choice (before : Closed p) (yes : Closed y) :
    mark (choice p y q) = mark p ++ ('?', some 0) :: (' ', some 0) ::
      (mark y ++ (' ', some 0) :: (':', some 0) :: mark q) := by
  have question (cs : List Char) : mark ('?' :: cs) = ('?', some 0) :: mark cs :=
    markCode_level rfl 0 cs
  have colon (cs : List Char) : mark (':' :: cs) = (':', some 0) :: mark cs :=
    markCode_level rfl 0 cs
  rw [choice, before.mark_append, question, mark_space, yes.mark_append, mark_space, colon]

theorem closed_choice (before : Closed p) (yes : Closed y) (after : Closed q) :
    Closed (choice p y q) := by
  have regroup : choice p y q = p ++ (['?'] ++ ([' '] ++ (y ++ ([' '] ++ ([':'] ++ q))))) := by
    simp [choice]
  rw [regroup]
  exact before.append ((closed_level rfl).append ((closed_level rfl).append
    (yes.append ((closed_level rfl).append ((closed_level rfl).append after)))))

/-- The text after the colon of a conditional does not go on with a colon. -/
theorem After.head (after : After z q) {rest : List Marked}
    (other : rest.head?.map (·.1) ≠ some ':') :
    (mark q ++ rest).head?.map (·.1) ≠ some ':' := by
  cases after with
  | spaced =>
    rw [mark_space]
    simp
  | empty => simpa [mark, markCode] using other

theorem balanced_choice (before : Before c p) (condition : Aligned groupRules c c')
    (yes : Translates y y') (after : After z q) (no : Translates z z') :
    Balanced (choice p y q) := by
  intro nested rest
  obtain ⟨_, group⟩ := before.group condition
  -- One more question mark waits during the first branch, and its colon ends that.
  rw [mark_choice group.closed yes.closed, List.append_assoc, List.cons_append, List.cons_append,
    List.append_assoc, List.cons_append, List.cons_append, before.splitColon condition,
    yes.balanced, splitColon_colon_succ (by decide) (after.head (by simp)),
    after.balanced no.balanced, keep_keep, keep_keep, keep_keep]
  simp [choice]

theorem split_choice (before : Before c p) (condition : Aligned groupRules c c')
    (yes : Translates y y') (after : After z q) :
    split? (choice p y q) = some (p, ' ' :: (y ++ [' ']), q) := by
  obtain ⟨_, group⟩ := before.group condition
  have next := @After.head z q after [] (by simp)
  rw [List.append_nil] at next
  rw [split?, mark_choice group.closed yes.closed, before.splitQuestion condition,
    Option.bind_eq_bind, Option.bind_some]
  dsimp only
  rw [splitColon_space, yes.balanced, splitColon_colon_zero (by decide) next, chars_mark]
  simp [keep]

theorem translates_choice (before : Before c p) (condition : Aligned groupRules c c')
    (yes : Translates y y') (after : After z q) (no : Translates z z')
    (trimmed : Text.trim c = c ∧ Text.trim y = y ∧ Text.trim z = z) :
    Translates (choice p y q) (Dialect.branching c' y' z') := by
  obtain ⟨_, group⟩ := before.group condition
  refine ⟨closed_choice group.closed yes.closed (after.closed no.closed),
    balanced_choice before condition yes after no, ?_, ?_⟩
  · have plain : (',', some 0) ∉ mark p := group.translates.noComma
    have last : (',', some 0) ∉ mark q := by
      cases after with
      | spaced => simp [mark_space, no.noComma]
      | empty => simp [mark, markCode]
    rw [mark_choice group.closed yes.closed]
    simp [plain, yes.noComma, last]
  · have inner : Text.trim (' ' :: (y ++ [' '])) = y := by
      rw [Text.trim_eq, Text.trimStart_of_blank rfl, ← Text.trim_eq]
      exact Before.spaced.trim trimmed.2.1
    rw [expand_of_some (split_choice before condition yes after), before.trim trimmed.1, inner,
      after.trim trimmed.2.2, condition.expandGroups, yes.expands, no.expands]
    rfl

end Conditionals

section Lists

theorem items_ne_nil (ms : List Marked) : items ms ≠ [] := by
  cases ms with
  | nil => simp [items]
  | cons m rest =>
    rw [items]
    split
    · exact List.cons_ne_nil _ _
    · split <;> exact List.cons_ne_nil _ _

theorem items_of_notMem {ms : List Marked} (plain : (',', some 0) ∉ ms) : items ms = [chars ms] := by
  induction ms with
  | nil => rfl
  | cons m rest ih =>
    rw [List.mem_cons, not_or] at plain
    rw [items, if_neg (Ne.symm plain.1), ih plain.2]
    rfl

theorem items_append {ms : List Marked} (plain : (',', some 0) ∉ ms) (rest : List Marked) :
    items (ms ++ (',', some 0) :: rest) = chars ms :: items rest := by
  induction ms with
  | nil =>
    rw [List.nil_append, items, if_pos rfl]
    rfl
  | cons m ms ih =>
    rw [List.mem_cons, not_or] at plain
    rw [List.cons_append, items, if_neg (Ne.symm plain.1), ih plain.2]
    rfl

theorem Translates.expandItems (tree : Translates s t) : expandItems s = t := by
  rw [expandItems_eq, items_of_notMem tree.noComma, chars_mark]
  simp [tree.expands]

theorem Translates.expandItems_append (tree : Translates s t) (rest : List Char) :
    Expression.expandItems (s ++ ',' :: rest) = t ++ ',' :: Expression.expandItems rest := by
  have comma : mark (',' :: rest) = (',', some 0) :: mark rest := markCode_level rfl 0 rest
  have more : (items (mark rest)).map expand ≠ [] := by simp [items_ne_nil]
  rw [expandItems_eq, tree.closed.mark_append, comma, items_append tree.noComma, chars_mark,
    List.map_cons, List.intercalate_cons_of_ne_nil more, tree.expands, ← expandItems_eq]
  simp

end Lists

section Trees

theorem group_of_isCode {c : Char} (plain : isCode c) : groupRules.Ordinary c := by
  simp only [isCode, List.mem_cons, List.not_mem_nil, or_false, not_or, decide_eq_true_eq] at plain
  simp [groupRules, plain]

/-- What scripts write for a conditional has no white space at its ends. -/
theorem solid_branching (c y z : List Char) : Solid (Dialect.branching c y z) := by
  have first : "if (".toList = ['i', 'f', ' ', '('] := by decide
  have last : " \x7d".toList = [' ', '\x7d'] := by decide
  unfold Dialect.branching
  rw [first, last]
  -- The texts in between do not matter, and the string literals are slow to unfold.
  generalize ") \x7b ".toList = opening
  generalize " \x7d else \x7b ".toList = between
  constructor
  · exact ⟨'i', ['f', ' ', '('] ++ c ++ opening ++ y ++ between ++ z ++ [' ', '\x7d'], rfl, rfl⟩
  · exact ⟨['i', 'f', ' ', '('] ++ c ++ opening ++ y ++ between ++ z ++ [' '], '\x7d', by simp, rfl⟩

/-- The characters of operators are not those that a group is split at. -/
theorem group_sign (op : Operator) : Aligned groupRules op.sign op.sign := by
  have ordinary : ∀ c ∈ ['=', '!', '<', '>'], groupRules.Ordinary c := by simp [groupRules]
  have inside : ∀ c ∈ op.sign, c ∈ ['=', '!', '<', '>'] := by cases op <;> simp [Operator.sign]
  exact Aligned.of_ordinary fun c member => ordinary c (inside c member)

mutual

theorem translates_tree : ∀ e : Tree, Translates (e.print .normal) (e.print .script) ∧
    Translates (Text.trim (e.print .normal)) (Text.trim (e.print .script))
  | .group items => by
    rw [Tree.print, Tree.print]
    exact ⟨(group_items items).translates, (group_items items).trim.translates⟩
  | .conditional condition yes no => by
    have group := (group_items condition).trim
    have first := (translates_tree yes).2
    have second := (translates_tree no).2
    have trimmed := And.intro (Text.trim_trim (printItems .normal condition))
      (And.intro (Text.trim_trim (yes.print .normal)) (Text.trim_trim (no.print .normal)))
    rw [Tree.print, Tree.print]
    constructor
    · rw [show Dialect.normal.conditional = Dialect.questioned from rfl, questioned_eq_choice]
      exact translates_choice .spaced group first .spaced second trimmed
    · -- Trimmed, it may have lost the blank before its question mark or after its colon.
      obtain ⟨p, q, before, after, same⟩ := trim_questioned (y := Text.trim (yes.print .normal))
        trimmed.1 trimmed.2.2
      rw [show Dialect.normal.conditional = Dialect.questioned from rfl, same,
        show Dialect.script.conditional = Dialect.branching from rfl, (solid_branching _ _ _).trim]
      exact translates_choice before group first after second trimmed

theorem group_item : ∀ item : Item, Aligned groupRules (item.print .normal) (item.print .script)
  | .code c plain => by
    rw [Item.print, Item.print]
    exact .singleton (group_of_isCode plain)
  | .operator op => by
    have space : groupRules.Ordinary ' ' := by simp [groupRules]
    rw [Item.print, Item.print]
    exact .char space ((group_sign op.loose).append trivial (.singleton space))
  | .literal l => by
    have aligned := Aligned.block (r := groupRules)
      (Or.inl ⟨l.requote, l.requote_quote, rfl, rfl⟩) trivial .nil
    rw [List.append_nil] at aligned
    rw [Item.print, Item.print]
    exact aligned
  | .list bracket trees => by
    obtain ⟨closed, expanded⟩ := translates_trees trees
    have aligned := Aligned.block (r := groupRules)
      (Or.inr ⟨bracket, _, closed, rfl, rfl⟩) trivial .nil
    rw [List.append_nil, List.append_nil, expanded] at aligned
    rw [Item.print, Item.print]
    exact aligned

theorem group_items : ∀ items : List Item,
    Aligned groupRules (printItems .normal items) (printItems .script items)
  | [] => by
    rw [printItems, printItems]
    exact .nil
  | item :: rest => by
    rw [printItems, printItems]
    exact (group_item item).append trivial (group_items rest)

theorem translates_trees : ∀ trees : List Tree, Closed (printTrees .normal trees) ∧
    expandItems (printTrees .normal trees) = printTrees .script trees
  | [] => by
    have empty : Translates [] [] := Aligned.nil.translates
    rw [printTrees, printTrees]
    exact ⟨empty.closed, empty.expandItems⟩
  | [tree] => by
    have only := (translates_tree tree).1
    rw [printTrees, printTrees]
    exact ⟨only.closed, only.expandItems⟩
  | tree :: next :: rest => by
    have first := (translates_tree tree).1
    obtain ⟨closed, expanded⟩ := translates_trees (next :: rest)
    rw [printTrees_cons, printTrees_cons, first.expandItems_append, expanded]
    exact ⟨first.closed.append ((closed_level rfl).append closed), rfl⟩

end

/-- The translator writes every tree as a script. -/
theorem toScript_print (e : Tree) :
    toScript (String.ofList (e.print .web)) = String.ofList (e.print .script) := by
  rw [toScript, String.toList_ofList, normalize_print, (translates_tree e).1.expands]

example : toScript "n === 'a' ? f(b ? 1 : 2) : [3]" =
    "if (n == \"a\") \x7b f(if (b) \x7b 1 \x7d else \x7b 2 \x7d) \x7d else \x7b [3] \x7d" := by
  cbv

end Trees

end HttpWorkflow.Expression
