import HttpWorkflow.Text.Blank

/-! White space at the ends of a text. -/

set_option autoImplicit false

namespace HttpWorkflow.Text

def trimStart (cs : List Char) : List Char := cs.dropWhile isBlank

def trimEnd (cs : List Char) : List Char := (cs.reverse.dropWhile isBlank).reverse

theorem trim_eq (cs : List Char) : trim cs = trimEnd (trimStart cs) := rfl

variable {c : Char}

theorem trimStart_of_visible (visible : isBlank c = false) (cs : List Char) :
    trimStart (c :: cs) = c :: cs := by
  simp [trimStart, visible]

theorem trimStart_of_blank (blank : isBlank c = true) (cs : List Char) :
    trimStart (c :: cs) = trimStart cs := by
  simp [trimStart, blank]

@[simp] theorem trimEnd_nil : trimEnd [] = [] := rfl

/-- Nothing before a visible character is at the end. -/
theorem trimEnd_append_visible (visible : isBlank c = false) (front rest : List Char) :
    trimEnd (front ++ c :: rest) = front ++ c :: trimEnd rest := by
  have stop : (c :: front.reverse).dropWhile isBlank = c :: front.reverse := by
    simp [visible]
  have turned : (front ++ c :: rest).reverse = rest.reverse ++ (c :: front.reverse) := by simp
  rw [trimEnd, turned, List.dropWhile_append, stop, trimEnd]
  split
  · next all =>
    rw [List.isEmpty_iff.mp all]
    simp
  · simp

theorem trimEnd_concat_blank (blank : isBlank c = true) (cs : List Char) :
    trimEnd (cs ++ [c]) = trimEnd cs := by
  simp [trimEnd, blank]

/-- A text of white space, or what is left ends with a visible character. -/
theorem trimEnd_cases (cs : List Char) :
    trimEnd cs = [] ∨ ∃ front c, trimEnd cs = front ++ [c] ∧ isBlank c = false := by
  cases left : cs.reverse.dropWhile isBlank with
  | nil => exact Or.inl (by simp [trimEnd, left])
  | cons c rest =>
    refine Or.inr ⟨rest.reverse, c, by simp [trimEnd, left], ?_⟩
    have head := List.head?_dropWhile_not isBlank cs.reverse
    rw [left] at head
    simpa using head

theorem trimEnd_cons_visible (visible : isBlank c = false) (cs : List Char) :
    trimEnd (c :: cs) = c :: trimEnd cs :=
  trimEnd_append_visible visible [] cs

theorem trimEnd_cons_of_nil (blank : isBlank c = true) {cs : List Char} (all : trimEnd cs = []) :
    trimEnd (c :: cs) = [] := by
  have rest : cs.reverse.dropWhile isBlank = [] := List.reverse_eq_nil_iff.mp all
  rw [trimEnd, List.reverse_cons, List.dropWhile_append, rest]
  simp [blank]

theorem trimEnd_cons_of_ne_nil {cs : List Char} (some_ : trimEnd cs ≠ []) (c : Char) :
    trimEnd (c :: cs) = c :: trimEnd cs := by
  have rest : cs.reverse.dropWhile isBlank ≠ [] := fun all => some_ (by rw [trimEnd, all]; rfl)
  rw [trimEnd, List.reverse_cons, List.dropWhile_append]
  simp [trimEnd, rest]

/-- What is left of a text begins it. -/
theorem trimEnd_prefix (cs : List Char) : ∃ blanks, cs = trimEnd cs ++ blanks := by
  refine ⟨(cs.reverse.takeWhile isBlank).reverse, ?_⟩
  rw [trimEnd, ← List.reverse_append, List.takeWhile_append_dropWhile, List.reverse_reverse]

theorem trim_cons_visible (visible : isBlank c = false) (cs : List Char) :
    trim (c :: cs) = c :: trimEnd cs := by
  rw [trim_eq, trimStart_of_visible visible, trimEnd_cons_visible visible]

theorem trim_cases (cs : List Char) :
    trim cs = [] ∨ ∃ c more, trim cs = c :: more ∧ isBlank c = false := by
  rw [trim_eq]
  cases start : trimStart cs with
  | nil => exact Or.inl rfl
  | cons c rest =>
    have head := List.head?_dropWhile_not isBlank cs
    rw [show cs.dropWhile isBlank = c :: rest from start] at head
    have visible : isBlank c = false := by simpa using head
    exact Or.inr ⟨c, _, trimEnd_cons_visible visible rest, visible⟩

theorem trimStart_trim (cs : List Char) : trimStart (trim cs) = trim cs := by
  rcases trim_cases cs with empty | ⟨c, more, same, visible⟩
  · rw [empty]
    rfl
  · rw [same, trimStart_of_visible visible]

theorem trimEnd_trim (cs : List Char) : trimEnd (trim cs) = trim cs := by
  rw [trim_eq]
  rcases trimEnd_cases (trimStart cs) with empty | ⟨front, c, same, visible⟩
  · rw [empty]
    rfl
  · rw [same, trimEnd_append_visible visible]
    rfl

@[simp] theorem trim_trim (cs : List Char) : trim (trim cs) = trim cs := by
  rw [trim_eq (trim cs), trimStart_trim, trimEnd_trim]

end HttpWorkflow.Text
