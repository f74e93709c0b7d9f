import HttpWorkflow.Proofs.Text.Trim

/-! Texts that differ in blocks.

Two texts are aligned when one is the other with some blocks replaced. Blocks have no white space at
their ends, so aligned texts stay aligned when they are trimmed.
-/

set_option autoImplicit false

namespace HttpWorkflow.Expression

/-- No white space at either end, and something in between. -/
structure Solid (cs : List Char) : Prop where
  first : ∃ c more, cs = c :: more ∧ Text.isBlank c = false
  last : ∃ front c, cs = front ++ [c] ∧ Text.isBlank c = false

namespace Solid

variable {cs : List Char}

theorem ne_nil (solid : Solid cs) : cs ≠ [] := by
  obtain ⟨c, more, rfl, _⟩ := solid.first
  exact List.cons_ne_nil c more

theorem trimStart_append (solid : Solid cs) (rest : List Char) :
    Text.trimStart (cs ++ rest) = cs ++ rest := by
  obtain ⟨c, more, rfl, visible⟩ := solid.first
  exact Text.trimStart_of_visible visible (more ++ rest)

theorem trimEnd_append (solid : Solid cs) (rest : List Char) :
    Text.trimEnd (cs ++ rest) = cs ++ Text.trimEnd rest := by
  obtain ⟨front, c, rfl, visible⟩ := solid.last
  rw [List.append_assoc, List.append_assoc, List.singleton_append, List.singleton_append,
    Text.trimEnd_append_visible visible]

theorem trim (solid : Solid cs) : Text.trim cs = cs := by
  have start := solid.trimStart_append []
  have stop := solid.trimEnd_append []
  rw [List.append_nil] at start stop
  rw [Text.trim_eq, start, stop, Text.trimEnd_nil, List.append_nil]

theorem of_ends {a b : Char} (first : Text.isBlank a = false) (last : Text.isBlank b = false)
    (inner : List Char) : Solid (a :: (inner ++ [b])) :=
  ⟨⟨a, inner ++ [b], rfl, first⟩, ⟨a :: inner, b, rfl, last⟩⟩

theorem singleton {c : Char} (visible : Text.isBlank c = false) : Solid [c] :=
  ⟨⟨c, [], rfl, visible⟩, ⟨[], c, rfl, visible⟩⟩

end Solid

/-- Which characters stand for themselves, which blocks are replaced by which, and what has to
follow a block. -/
structure Rules where
  Ordinary : Char → Prop
  Block : List Char → List Char → Prop
  Next : List Char → Prop
  solid : ∀ {a b}, Block a b → Solid a ∧ Solid b
  next_append : ∀ {s t}, Next s → Next t → Next (s ++ t)
  next_front : ∀ {s t}, Next (s ++ t) → Next s

inductive Aligned (r : Rules) : List Char → List Char → Prop
  | nil : Aligned r [] []
  | char {c : Char} {s t : List Char} (ordinary : r.Ordinary c) (rest : Aligned r s t) :
    Aligned r (c :: s) (c :: t)
  | block {a b s t : List Char} (block : r.Block a b) (next : r.Next s) (rest : Aligned r s t) :
    Aligned r (a ++ s) (b ++ t)

namespace Aligned

variable {r : Rules} {s t s' t' : List Char}

theorem append (first : Aligned r s t) (next : r.Next s') (second : Aligned r s' t') :
    Aligned r (s ++ s') (t ++ t') := by
  induction first with
  | nil => exact second
  | char ordinary _ ih => exact .char ordinary ih
  | block block before _ ih =>
    rw [List.append_assoc, List.append_assoc]
    exact .block block (r.next_append before next) ih

theorem singleton {c : Char} (ordinary : r.Ordinary c) : Aligned r [c] [c] := .char ordinary .nil

theorem of_ordinary {cs : List Char} (ordinary : ∀ c ∈ cs, r.Ordinary c) : Aligned r cs cs := by
  induction cs with
  | nil => exact .nil
  | cons c cs ih =>
    refine .char (ordinary c List.mem_cons_self) (ih ?_)
    intro d member
    exact ordinary d (List.mem_cons_of_mem c member)

theorem eq_nil_iff (aligned : Aligned r s t) : s = [] ↔ t = [] := by
  cases aligned with
  | nil => exact Iff.rfl
  | char => simp
  | block block => simp [(r.solid block).1.ne_nil, (r.solid block).2.ne_nil]

theorem trimStart (aligned : Aligned r s t) :
    Aligned r (Text.trimStart s) (Text.trimStart t) := by
  induction aligned with
  | nil => exact .nil
  | @char c s t ordinary rest ih =>
    cases blank : Text.isBlank c with
    | true => rwa [Text.trimStart_of_blank blank, Text.trimStart_of_blank blank]
    | false =>
      rw [Text.trimStart_of_visible blank, Text.trimStart_of_visible blank]
      exact .char ordinary rest
  | block block next rest =>
    rw [(r.solid block).1.trimStart_append, (r.solid block).2.trimStart_append]
    exact .block block next rest

theorem trimEnd (aligned : Aligned r s t) : Aligned r (Text.trimEnd s) (Text.trimEnd t) := by
  induction aligned with
  | nil => exact .nil
  | @char c s t ordinary _ ih =>
    cases blank : Text.isBlank c with
    | false =>
      rw [Text.trimEnd_cons_visible blank, Text.trimEnd_cons_visible blank]
      exact .char ordinary ih
    | true =>
      -- The blank goes only where nothing is left after it, which both texts agree on.
      by_cases all : Text.trimEnd s = []
      · rw [Text.trimEnd_cons_of_nil blank all,
          Text.trimEnd_cons_of_nil blank (ih.eq_nil_iff.mp all)]
        exact .nil
      · rw [Text.trimEnd_cons_of_ne_nil all,
          Text.trimEnd_cons_of_ne_nil fun none => all (ih.eq_nil_iff.mpr none)]
        exact .char ordinary ih
  | @block a b s t block next _ ih =>
    rw [(r.solid block).1.trimEnd_append, (r.solid block).2.trimEnd_append]
    obtain ⟨blanks, same⟩ := Text.trimEnd_prefix s
    rw [same] at next
    exact .block block (r.next_front next) ih

theorem trim (aligned : Aligned r s t) : Aligned r (Text.trim s) (Text.trim t) :=
  aligned.trimStart.trimEnd

end Aligned

end HttpWorkflow.Expression
