import HttpWorkflow.Proofs.Template
import Mathlib

/-! Which quotes rendering drops.

Quotes are dropped in one sweep: from left to right, a quote mark and the bracket that it touches
are replaced by the bracket, and the sweep goes on behind them. `unquote_local` says that the sweep
cannot be noticed. Whether a character goes depends on itself and its two neighbours alone, as they
stand in the text before anything is dropped.
-/

set_option autoImplicit false

namespace HttpWorkflow.Template

/-- A bracket with a quote mark on its outer side. -/
inductive QuotedBracket : List Char → Prop where
  | before {mark bracket : Char} (quote : isQuoteMark mark) (opening : isOpening bracket) :
      QuotedBracket [mark, bracket]
  | after {bracket mark : Char} (closing : isClosing bracket) (quote : isQuoteMark mark) :
      QuotedBracket [bracket, mark]

/-- The second text is the first in which the quoted brackets that are found from left to right,
each behind the one before it, are replaced by themselves without their first quote mark. -/
inductive Swept : List Char → List Char → Prop where
  | done : Swept [] []
  | found {quoted rest out : List Char} (here : QuotedBracket quoted) (later : Swept rest out) :
      Swept (quoted ++ rest) (quoted.eraseP isQuoteMark ++ out)
  | passed {c : Char} {rest out : List Char}
      (nothing : ∀ quoted, QuotedBracket quoted → ¬quoted <+: c :: rest) (later : Swept rest out) :
      Swept (c :: rest) (c :: out)

/-- The character at `i` is a quote mark on the outer side of the bracket at `j`. -/
def Hugs (cs : List Char) (i j : Nat) : Prop :=
  (∃ mark ∈ cs[i]?, isQuoteMark mark) ∧
    ((j = i + 1 ∧ ∃ bracket ∈ cs[j]?, isOpening bracket) ∨
      (i = j + 1 ∧ ∃ bracket ∈ cs[j]?, isClosing bracket))

/-- Whether the character at `i` is a quote mark right before an opening or right after a closing
bracket. -/
def isLooseAt (cs : List Char) (i : Nat) : Bool :=
  cs[i]?.any isQuoteMark &&
    (cs[i + 1]?.any isOpening || decide (0 < i) && cs[i - 1]?.any isClosing)

/-- The same of a character by the characters on its two sides. -/
def isLoose (previous : Option Char) (c : Char) (next : Option Char) : Bool :=
  isQuoteMark c && (next.any isOpening || previous.any isClosing)

/-- The characters that are not loose, of a text that goes on after `previous`. -/
def kept (previous : Option Char) : List Char → List Char
  | [] => []
  | c :: rest =>
    if isLoose previous c rest.head? then kept (some c) rest else c :: kept (some c) rest

section Characters

variable {c : Char}

theorem not_isOpening_of_isQuoteMark (quote : isQuoteMark c) : isOpening c = false := by
  simp only [isQuoteMark, Bool.or_eq_true, decide_eq_true_eq] at quote
  rcases quote with ((rfl | rfl) | rfl) | rfl
  all_goals decide

theorem not_isClosing_of_isQuoteMark (quote : isQuoteMark c) : isClosing c = false := by
  simp only [isQuoteMark, Bool.or_eq_true, decide_eq_true_eq] at quote
  rcases quote with ((rfl | rfl) | rfl) | rfl
  all_goals decide

theorem not_isQuoteMark_of_isOpening (opening : isOpening c) : isQuoteMark c = false := by
  rw [Bool.eq_false_iff]
  intro quote
  simp [not_isOpening_of_isQuoteMark quote] at opening

theorem not_isQuoteMark_of_isClosing (closing : isClosing c) : isQuoteMark c = false := by
  rw [Bool.eq_false_iff]
  intro quote
  simp [not_isClosing_of_isQuoteMark quote] at closing

theorem not_isOpening_of_isClosing (closing : isClosing c) : isOpening c = false := by
  simp only [isClosing, Bool.or_eq_true, decide_eq_true_eq] at closing
  rcases closing with rfl | rfl
  all_goals decide

theorem not_isClosing_of_isOpening (opening : isOpening c) : isClosing c = false := by
  simp only [isOpening, Bool.or_eq_true, decide_eq_true_eq] at opening
  rcases opening with rfl | rfl
  all_goals decide

end Characters

section Sweep

theorem unquote_before {mark bracket : Char} (quote : isQuoteMark mark)
    (opening : isOpening bracket) (rest : List Char) :
    unquote (mark :: bracket :: rest) = bracket :: unquote rest := by
  simp [unquote, quote, opening]

theorem unquote_after {bracket mark : Char} (closing : isClosing bracket) (quote : isQuoteMark mark)
    (rest : List Char) : unquote (bracket :: mark :: rest) = bracket :: unquote rest := by
  simp [unquote, not_isQuoteMark_of_isClosing closing, closing, quote]

theorem unquote_cons_cons {a b : Char} (apart : touches a b = false) (rest : List Char) :
    unquote (a :: b :: rest) = a :: unquote (b :: rest) := by
  simp only [touches, Bool.or_eq_false_iff] at apart
  simp [unquote, apart.1, apart.2]

theorem unquote_cons {c : Char} {rest : List Char} (apart : ∀ d ∈ rest.head?, touches c d = false) :
    unquote (c :: rest) = c :: unquote rest := by
  cases rest with
  | nil => rfl
  | cons d rest => exact unquote_cons_cons (apart d rfl) rest

/-- Where the sweep stops, there are no two characters left. -/
theorem eq_nil_or_singleton {cs : List Char} (notTwo : ∀ a b rest, cs = a :: b :: rest → False) :
    cs = [] ∨ ∃ c, cs = [c] := by
  cases cs with
  | nil => exact .inl rfl
  | cons c more =>
    cases more with
    | nil => exact .inr ⟨c, rfl⟩
    | cons d rest => exact (notTwo c d rest rfl).elim

/-- A text can be taken apart where no quote mark touches a bracket. -/
theorem unquote_append {cs rest : List Char}
    (apart : ∀ a ∈ cs.getLast?, ∀ b ∈ rest.head?, touches a b = false) :
    unquote (cs ++ rest) = unquote cs ++ unquote rest := by
  fun_induction unquote cs with
  | case1 a b more touch ih =>
    have both := Bool.and_eq_true_iff.mp touch
    have last : ∀ c ∈ more.getLast?, ∀ d ∈ rest.head?, touches c d = false := by
      intro c member
      exact apart c (by simp [List.getLast?_cons, Option.mem_def.mp member])
    rw [List.cons_append, List.cons_append, unquote_before both.1 both.2, ih last, List.cons_append]
  | case2 a b more _ touch ih =>
    have both := Bool.and_eq_true_iff.mp touch
    have last : ∀ c ∈ more.getLast?, ∀ d ∈ rest.head?, touches c d = false := by
      intro c member
      exact apart c (by simp [List.getLast?_cons, Option.mem_def.mp member])
    rw [List.cons_append, List.cons_append, unquote_after both.1 both.2, ih last, List.cons_append]
  | case3 a b more notBefore notAfter ih =>
    have free : touches a b = false := by simp [touches, notBefore, notAfter]
    rw [List.cons_append, List.cons_append, unquote_cons_cons free, ← List.cons_append,
      ih (by simpa using apart), List.cons_append]
  | case4 short notTwo =>
    rcases eq_nil_or_singleton notTwo with rfl | ⟨c, rfl⟩
    · rfl
    · exact unquote_cons (apart c rfl)

theorem swept_unquote (cs : List Char) : Swept cs (unquote cs) := by
  fun_induction unquote cs with
  | case1 a b rest touch ih =>
    have both := Bool.and_eq_true_iff.mp touch
    have swept := Swept.found (.before both.1 both.2) ih
    simpa [both.1] using swept
  | case2 a b rest _ touch ih =>
    have both := Bool.and_eq_true_iff.mp touch
    have swept := Swept.found (.after both.1 both.2) ih
    simpa [not_isQuoteMark_of_isClosing both.1, both.2] using swept
  | case3 a b rest notBefore notAfter ih =>
    refine .passed ?_ ih
    rintro _ (⟨quote, opening⟩ | ⟨closing, quote⟩) ⟨more, same⟩
    · obtain ⟨rfl, second⟩ := List.cons.inj same
      obtain ⟨rfl, _⟩ := List.cons.inj second
      simp [quote, opening] at notBefore
    · obtain ⟨rfl, second⟩ := List.cons.inj same
      obtain ⟨rfl, _⟩ := List.cons.inj second
      simp [quote, closing] at notAfter
  | case4 short notTwo =>
    rcases eq_nil_or_singleton notTwo with rfl | ⟨c, rfl⟩
    · exact .done
    · refine .passed ?_ .done
      -- A quoted bracket does not fit into one character.
      rintro _ (_ | _) ⟨more, same⟩
      all_goals simp at same

theorem eq_unquote_of_swept {cs out : List Char} (swept : Swept cs out) : out = unquote cs := by
  induction swept with
  | done => rfl
  | found here later ih =>
    cases here with
    | before quote opening => simp [unquote_before quote opening, quote, ih]
    | after closing quote =>
      simp [unquote_after closing quote, not_isQuoteMark_of_isClosing closing, quote, ih]
  | @passed c rest out nothing later ih =>
    rw [unquote_cons, ih]
    intro d head
    obtain ⟨more, rfl⟩ := List.head?_eq_some_iff.mp head
    rw [touches, Bool.or_eq_false_iff, Bool.and_eq_false_iff, Bool.and_eq_false_iff]
    constructor
    · by_contra both
      simp only [not_or, Bool.not_eq_false] at both
      exact nothing _ (.before both.1 both.2) ⟨more, rfl⟩
    · by_contra both
      simp only [not_or, Bool.not_eq_false] at both
      exact nothing _ (.after both.1 both.2) ⟨more, rfl⟩

theorem swept_iff {cs out : List Char} : Swept cs out ↔ out = unquote cs :=
  ⟨eq_unquote_of_swept, fun same => same ▸ swept_unquote cs⟩

end Sweep

section Neighbours

theorem not_isLoose {previous next : Option Char} {c : Char}
    (front : ∀ p ∈ previous, (isClosing p && isQuoteMark c) = false)
    (back : ∀ n ∈ next, (isQuoteMark c && isOpening n) = false) :
    isLoose previous c next = false := by
  unfold isLoose
  cases quote : isQuoteMark c with
  | false => rfl
  | true =>
    have noClosing : previous.any isClosing = false := by
      cases previous with
      | none => rfl
      | some p => simpa [quote] using front p rfl
    have noOpening : next.any isOpening = false := by
      cases next with
      | none => rfl
      | some n => simpa [quote] using back n rfl
    rw [noClosing, noOpening]
    rfl

/-- The sweep never looks back, so what it has passed must not be a bracket that would have taken
the next character with it. -/
theorem unquote_eq_kept {cs : List Char} (previous : Option Char)
    (front : ∀ p ∈ previous, ∀ c ∈ cs.head?, (isClosing p && isQuoteMark c) = false) :
    unquote cs = kept previous cs := by
  fun_induction unquote cs generalizing previous with
  | case1 a b rest touch ih =>
    have both := Bool.and_eq_true_iff.mp touch
    have stays := not_isQuoteMark_of_isOpening both.2
    rw [ih (some b) (by simp [not_isClosing_of_isOpening both.2])]
    simp [kept, isLoose, both.1, both.2, stays]
  | case2 a b rest _ touch ih =>
    have both := Bool.and_eq_true_iff.mp touch
    have stays := not_isQuoteMark_of_isClosing both.1
    rw [ih (some b) (by simp [not_isClosing_of_isQuoteMark both.2])]
    simp [kept, isLoose, both.1, both.2, stays]
  | case3 a b rest notBefore notAfter ih =>
    have stays : isLoose previous a (some b) = false :=
      not_isLoose (fun p member => front p member a rfl) (by simpa using notBefore)
    rw [ih (some a) (by simpa using notAfter)]
    simp [kept, stays]
  | case4 short notTwo =>
    rcases eq_nil_or_singleton notTwo with rfl | ⟨c, rfl⟩
    · rfl
    · have stays : isLoose previous c none = false :=
        not_isLoose (fun p member => front p member c rfl) (by simp)
      simp [kept, stays]

theorem isLooseAt_length (front : List Char) (c : Char) (rest : List Char) :
    isLooseAt (front ++ c :: rest) front.length = isLoose front.getLast? c rest.head? := by
  have next : (front ++ c :: rest)[front.length + 1]? = rest.head? := by
    rw [List.getElem?_append_right (Nat.le_add_right _ 1), Nat.add_sub_cancel_left,
      List.getElem?_cons_succ, List.head?_eq_getElem?]
  have previous : (decide (0 < front.length) &&
      (front ++ c :: rest)[front.length - 1]?.any isClosing) = front.getLast?.any isClosing := by
    cases front with
    | nil => rfl
    | cons d more =>
      rw [List.getElem?_append_left (by simp), List.getLast?_eq_getElem?]
      simp
  rw [isLooseAt, next, previous]
  simp [isLoose]

/-- What is kept after some text, by the places in the whole text. -/
theorem kept_eq_filter (front rest : List Char) :
    kept front.getLast? rest =
      ((rest.zipIdx front.length).filter fun m => !isLooseAt (front ++ rest) m.2).map Prod.fst := by
  induction rest generalizing front with
  | nil => rfl
  | cons c rest ih =>
    have later := ih (front ++ [c])
    rw [List.getLast?_append, List.append_assoc, List.singleton_append, List.length_append] at later
    rw [kept, List.zipIdx_cons, List.filter_cons, isLooseAt_length]
    cases isLoose front.getLast? c rest.head? with
    | true => simpa using later
    | false => simpa using later

theorem isLooseAt_iff {cs : List Char} {i : Nat} : isLooseAt cs i ↔ ∃ j, Hugs cs i j := by
  simp only [isLooseAt, Hugs, Bool.and_eq_true, Bool.or_eq_true, Option.any_eq_true,
    decide_eq_true_eq]
  constructor
  · rintro ⟨quote, opening | ⟨positive, closing⟩⟩
    · exact ⟨i + 1, quote, .inl ⟨rfl, opening⟩⟩
    · exact ⟨i - 1, quote, .inr ⟨by omega, closing⟩⟩
  · rintro ⟨j, quote, ⟨rfl, opening⟩ | ⟨rfl, closing⟩⟩
    · exact ⟨quote, .inl opening⟩
    · exact ⟨quote, .inr ⟨Nat.succ_pos j, closing⟩⟩

/-- An opening bracket has its quote mark before it and a closing one behind it. -/
theorem Hugs.unique {cs : List Char} {i j k : Nat} (first : Hugs cs i j) (second : Hugs cs k j) :
    i = k := by
  rcases first with ⟨_, ⟨before, b, here, opening⟩ | ⟨after, b, here, closing⟩⟩
  · rcases second with ⟨_, ⟨_, _⟩ | ⟨_, c, again, closing⟩⟩
    · omega
    · obtain rfl := Option.some.inj (here.symm.trans again)
      simp [not_isClosing_of_isOpening opening] at closing
  · rcases second with ⟨_, ⟨_, c, again, opening⟩ | ⟨_, _⟩⟩
    · obtain rfl := Option.some.inj (here.symm.trans again)
      simp [not_isClosing_of_isOpening opening] at closing
    · omega

theorem filter_unquote (cs : List Char) :
    (unquote cs).filter (!isQuoteMark ·) = cs.filter (!isQuoteMark ·) := by
  fun_induction unquote cs with
  | case1 a b rest touch ih =>
    have both := Bool.and_eq_true_iff.mp touch
    simp [both.1, List.filter_cons, ih]
  | case2 a b rest _ touch ih =>
    have both := Bool.and_eq_true_iff.mp touch
    simp [both.2, List.filter_cons, ih]
  | case3 a b rest _ _ ih => rw [List.filter_cons, List.filter_cons, ih]
  | case4 short => rfl

/-- Dropping quotes is a local matter: what goes from a text are its quote marks right before an
opening or right after a closing bracket, all other characters stay in order, and no bracket has
two marks to lose. -/
theorem unquote_local (cs : List Char) :
    (∀ out, Swept cs out ↔ out = unquote cs) ∧
      unquote cs = (cs.zipIdx.filter fun m => !isLooseAt cs m.2).map Prod.fst ∧
      (unquote cs).filter (!isQuoteMark ·) = cs.filter (!isQuoteMark ·) ∧
      (∀ i, isLooseAt cs i ↔ ∃ j, Hugs cs i j) ∧
      ∀ i j k, Hugs cs i j → Hugs cs k j → i = k := by
  refine ⟨fun out => swept_iff, ?_, filter_unquote cs, fun i => isLooseAt_iff,
    fun i j k => Hugs.unique⟩
  rw [unquote_eq_kept none (by simp)]
  exact kept_eq_filter [] cs

end Neighbours

end HttpWorkflow.Template
