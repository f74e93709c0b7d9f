import HttpWorkflow.Proofs.Template
import Mathlib

/-! Placeholders are replaced in one pass.

A text falls into fragments at its opening braces. Each is looked up by what it has before its first
closing brace, and keeps its own text when nothing is found there. So rendering depends on a scope
only by the keys that the text itself has, and what a value brings in is never looked up.
-/

set_option autoImplicit false

namespace HttpWorkflow.Template

/-- A text by the fragments between its opening braces. -/
structure FallsInto (cs first : List Char) (rest : List (List Char)) : Prop where
  joined : cs = first ++ rest.flatMap ('{' :: ·)
  free : ∀ fragment ∈ first :: rest, '{' ∉ fragment

/-- What a fragment has before its first closing brace, and what it has after it. -/
structure Keyed (fragment : List Char) (key : String) (after : List Char) : Prop where
  split : fragment = key.toList ++ '}' :: after
  first : '}' ∉ key.toList

/-- What comes of a fragment with a certain text in front of it. -/
inductive Becomes (scope : Scope) (front fragment : List Char) : List Char → Prop where
  | replaced {key : String} {after : List Char} {value : Json} (keyed : Keyed fragment key after)
      (found : scope.lookup key = some value) :
      Becomes scope front fragment (value.stringify.toList ++ after)
  | kept (missing : ∀ key after, Keyed fragment key after → scope.lookup key = none) :
      Becomes scope front fragment (front ++ fragment)

section Splitting

variable {cs first : List Char} {rest : List (List Char)}

theorem FallsInto.append {front : List Char} (falls : FallsInto cs first rest)
    (free : '{' ∉ front) : FallsInto (front ++ cs) (front ++ first) rest where
  joined := by rw [falls.joined, List.append_assoc]
  free := by
    obtain ⟨head, others⟩ := List.forall_mem_cons.mp falls.free
    refine List.forall_mem_cons.mpr ⟨?_, others⟩
    rw [List.mem_append, not_or]
    exact ⟨free, head⟩

theorem FallsInto.cons {c : Char} (falls : FallsInto cs first rest) (other : c ≠ '{') :
    FallsInto (c :: cs) (c :: first) rest :=
  @FallsInto.append cs first rest [c] falls fun member => other (List.mem_singleton.mp member).symm

theorem FallsInto.brace (falls : FallsInto cs first rest) :
    FallsInto ('{' :: cs) [] (first :: rest) where
  joined := by
    rw [falls.joined, List.flatMap_cons]
    rfl
  free := List.forall_mem_cons.mpr ⟨List.not_mem_nil, falls.free⟩

theorem exists_fallsInto (cs : List Char) : ∃ first rest, FallsInto cs first rest := by
  induction cs with
  | nil => exact ⟨[], [], rfl, by simp⟩
  | cons c cs ih =>
    obtain ⟨first, rest, falls⟩ := ih
    by_cases brace : c = '{'
    · subst brace
      exact ⟨[], first :: rest, falls.brace⟩
    · exact ⟨c :: first, rest, falls.cons brace⟩

theorem FallsInto.fragments_eq (falls : FallsInto cs first rest) :
    fragments cs = first :: rest := by
  obtain ⟨rfl, free⟩ := falls
  induction rest generalizing first with
  | nil =>
    rw [List.flatMap_nil, List.append_nil]
    exact fragments_of_free fun c member same => free first List.mem_cons_self (same ▸ member)
  | cons second others ih =>
    obtain ⟨head, free⟩ := List.forall_mem_cons.mp free
    rw [List.flatMap_cons, List.cons_append,
      fragments_append (fun c member same => head (same ▸ member)), ih free]

theorem FallsInto.substitute_eq (falls : FallsInto cs first rest) (scope : Scope) :
    substitute scope cs =
      (resolve? scope first).getD first ++ (rest.map (expandFragment scope)).flatten := by
  rw [substitute, falls.fragments_eq, ← List.flatMap_def]
  rfl

end Splitting

section Lookup

variable {scope : Scope} {fragment : List Char}

theorem keyed_or_open (fragment : List Char) :
    (∃ key after, Keyed fragment key after) ∨ '}' ∉ fragment := by
  by_cases closed : '}' ∈ fragment
  · obtain ⟨key, after, split, first⟩ := List.eq_append_cons_of_mem closed
    refine .inl ⟨String.ofList key, after, ?_, ?_⟩
    · rw [String.toList_ofList, split]
    · rwa [String.toList_ofList]
  · exact .inr closed

theorem Keyed.key_eq {key : String} {after : List Char} (keyed : Keyed fragment key after) :
    key = String.ofList (fragment.takeWhile (· ≠ '}')) := by
  obtain ⟨rfl, first⟩ := keyed
  have all : ∀ c ∈ key.toList, decide (c ≠ '}') = true :=
    fun c member => decide_eq_true fun same => first (same ▸ member)
  rw [List.takeWhile_append_of_pos all]
  simp

theorem resolve?_of_keyed {key : String} {after : List Char} (keyed : Keyed fragment key after) :
    resolve? scope fragment =
      (scope.lookup key).map fun value => value.stringify.toList ++ after := by
  obtain ⟨rfl, first⟩ := keyed
  exact resolve?_of_closed (fun c member same => first (same ▸ member)) after

theorem resolve?_of_missing
    (missing : ∀ key after, Keyed fragment key after → scope.lookup key = none) :
    resolve? scope fragment = none := by
  rcases keyed_or_open fragment with ⟨key, after, keyed⟩ | open_
  · rw [resolve?_of_keyed keyed, missing key after keyed]
    rfl
  · exact resolve?_of_open fun c member same => open_ (same ▸ member)

theorem resolve?_congr {other : Scope}
    (agree : ∀ key after, Keyed fragment key after → scope.lookup key = other.lookup key) :
    resolve? scope fragment = resolve? other fragment := by
  rcases keyed_or_open fragment with ⟨key, after, keyed⟩ | open_
  · rw [resolve?_of_keyed keyed, resolve?_of_keyed keyed, agree key after keyed]
  · have open_ : ∀ c ∈ fragment, c ≠ '}' := fun c member same => open_ (same ▸ member)
    rw [resolve?_of_open open_, resolve?_of_open open_]

/-- Only one thing can come of a fragment, and it is what the substitution makes of it. -/
theorem becomes_iff {front out : List Char} :
    Becomes scope front fragment out ↔
      (resolve? scope fragment).getD (front ++ fragment) = out := by
  constructor
  · rintro (⟨keyed, found⟩ | ⟨missing⟩)
    · rw [resolve?_of_keyed keyed, found]
      rfl
    · rw [resolve?_of_missing missing]
      rfl
  · rintro rfl
    by_cases missing : ∀ key after, Keyed fragment key after → scope.lookup key = none
    · rw [resolve?_of_missing missing]
      exact .kept missing
    · push Not at missing
      obtain ⟨key, after, keyed, found⟩ := missing
      obtain ⟨value, found⟩ := Option.ne_none_iff_exists'.mp found
      rw [resolve?_of_keyed keyed, found]
      exact .replaced keyed found

theorem forall₂_becomes_iff {rest outs : List (List Char)} :
    List.Forall₂ (Becomes scope ['{']) rest outs ↔ rest.map (expandFragment scope) = outs := by
  have same : Becomes scope ['{'] = fun fragment out => expandFragment scope fragment = out := by
    funext fragment out
    exact propext becomes_iff
  rw [same, ← List.forall₂_map_left_iff, List.forall₂_eq_eq_eq]

end Lookup

/-- A text is rendered fragment by fragment, and a fragment by its own key. Where no key is found
only quotes are dropped, and scopes that give the keys of the text the same values render it
alike. -/
theorem render_one_pass (text : String) (scope : Scope) :
    (∃ first rest, FallsInto text.toList first rest) ∧
      ∀ first rest, FallsInto text.toList first rest →
        (∀ result, render text scope = result ↔
          ∃ out outs, Becomes scope [] first out ∧ List.Forall₂ (Becomes scope ['{']) rest outs ∧
            String.ofList (unquote (out ++ outs.flatten)) = result) ∧
        ((∀ fragment ∈ first :: rest, ∀ key after, Keyed fragment key after →
            scope.lookup key = none) →
          render text scope = String.ofList (unquote text.toList)) ∧
        ∀ other : Scope, (∀ fragment ∈ first :: rest, ∀ key after, Keyed fragment key after →
            scope.lookup key = other.lookup key) →
          render text scope = render text other := by
  refine ⟨exists_fallsInto text.toList, fun first rest falls => ⟨?_, ?_, ?_⟩⟩
  · intro result
    simp only [becomes_iff, forall₂_becomes_iff, List.nil_append]
    constructor
    · rintro rfl
      exact ⟨_, _, rfl, rfl, by rw [render, falls.substitute_eq]⟩
    · rintro ⟨_, _, rfl, rfl, rfl⟩
      rw [render, falls.substitute_eq]
  · intro missing
    obtain ⟨head, others⟩ := List.forall_mem_cons.mp missing
    have braces : rest.map (expandFragment scope) = rest.map ('{' :: ·) := by
      apply List.map_congr_left
      intro fragment member
      rw [expandFragment, resolve?_of_missing (others fragment member)]
      rfl
    rw [render, falls.substitute_eq, resolve?_of_missing head, braces, ← List.flatMap_def,
      Option.getD_none, ← falls.joined]
  · intro other agree
    obtain ⟨head, others⟩ := List.forall_mem_cons.mp agree
    have same : rest.map (expandFragment scope) = rest.map (expandFragment other) := by
      apply List.map_congr_left
      intro fragment member
      rw [expandFragment, resolve?_congr (others fragment member)]
      rfl
    rw [render, render, falls.substitute_eq, falls.substitute_eq, resolve?_congr head, same]

section Greeting

def greeting : String := "Hi \x7bnick\x7d, \x7ba\x7bname\x7d!"

def greetingFragments : List (List Char) :=
  ["nick\x7d, ".toList, ['a'], "name\x7d!".toList]

/-- The name looks like a placeholder, and what it seems to mean is known or not. -/
def namedScope (fields : Members) : Scope := ⟨("name", .string "\x7bsecret\x7d") :: fields⟩

theorem greeting_fallsInto : FallsInto greeting.toList "Hi ".toList greetingFragments where
  joined := by decide
  free := by decide

theorem greeting_one_pass :
    render greeting (namedScope []) = "Hi \x7bnick\x7d, \x7ba\x7bsecret\x7d!" ∧
      render greeting (namedScope [("secret", .string "s")]) = render greeting (namedScope []) ∧
      render greeting ⟨[]⟩ = greeting := by
  have rule := fun scope => (render_one_pass greeting scope).2 _ _ greeting_fallsInto
  have unknown : ∀ fragment ∈ ["Hi ".toList, "nick\x7d, ".toList, ['a']], ∀ key after,
      Keyed fragment key after → (namedScope []).lookup key = none := by
    intro fragment member key after keyed
    rw [keyed.key_eq]
    simp only [List.mem_cons, List.not_mem_nil, or_false] at member
    rcases member with rfl | rfl | rfl
    all_goals cbv
  have known : Keyed "name\x7d!".toList "name" ['!'] := ⟨by decide, by decide⟩
  have found : (namedScope []).lookup "name" = some (.string "\x7bsecret\x7d") := by cbv
  refine ⟨((rule (namedScope [])).1 _).mpr ⟨_, _, .kept (unknown _ (by simp)),
    .cons (.kept (unknown _ (by simp))) (.cons (.kept (unknown _ (by simp)))
      (.cons (.replaced known found) .nil)), by cbv⟩, ?_, ?_⟩
  · refine (rule (namedScope [("secret", .string "s")])).2.2 (namedScope []) ?_
    intro fragment member key after keyed
    rw [keyed.key_eq]
    simp only [greetingFragments, List.mem_cons, List.not_mem_nil, or_false] at member
    rcases member with rfl | rfl | rfl | rfl
    all_goals cbv
  · refine ((rule ⟨[]⟩).2.1 fun fragment member key after keyed => ?_).trans (by cbv)
    rw [keyed.key_eq]
    simp only [greetingFragments, List.mem_cons, List.not_mem_nil, or_false] at member
    rcases member with rfl | rfl | rfl | rfl
    all_goals cbv

end Greeting

end HttpWorkflow.Template
