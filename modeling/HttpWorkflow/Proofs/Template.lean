import HttpWorkflow.Template
import Mathlib.Data.List.Chain
import Mathlib.Data.List.TakeWhile

/-! Rendering templates.

A text is substituted from brace to brace, so what stands between two opening braces is resolved on
its own. Dropping quotes only makes a text shorter, and leaves it alone exactly when no quote mark
touches a bracket.
-/

set_option autoImplicit false

namespace HttpWorkflow.Json

def isContainer : Json → Bool
  | array _ | object _ => true
  | _ => false

theorem toList_stringify {v : Json} (noString : ∀ s, v ≠ string s) :
    v.stringify.toList = v.write := by
  cases v with
  | string s => exact absurd rfl (noString s)
  | _ => exact String.toList_ofList

theorem toList_stringify_of_isContainer {v : Json} (container : v.isContainer) :
    v.stringify.toList = v.write := by
  refine toList_stringify ?_
  rintro s rfl
  cases container

end HttpWorkflow.Json

namespace HttpWorkflow.Template

/-- The text of a placeholder. -/
def placeholder (path : String) : String := "\x7b" ++ path ++ "\x7d"

section Substitution

variable (scope : Scope)

/-- The text of a fragment that has a brace in front of it. -/
def expandFragment (fragment : List Char) : List Char :=
  (resolve? scope fragment).getD ('\x7b' :: fragment)

/-- Substitution in the text after an opening brace. -/
def substituteAfter (cs : List Char) : List Char := (fragments cs).flatMap (expandFragment scope)

variable {scope}

theorem fragments_of_free {cs : List Char} (free : ∀ c ∈ cs, c ≠ '\x7b') : fragments cs = [cs] :=
  List.splitOnP_eq_singleton fun c member => decide_eq_false (free c member)

theorem fragments_append {cs : List Char} (free : ∀ c ∈ cs, c ≠ '\x7b') (rest : List Char) :
    fragments (cs ++ '\x7b' :: rest) = cs :: fragments rest :=
  List.splitOnP_append_cons_of_forall_mem
    (fun c member => decide_eq_false (free c member)) '\x7b' rfl rest

theorem substitute_append {cs : List Char} (free : ∀ c ∈ cs, c ≠ '\x7b') (rest : List Char) :
    substitute scope (cs ++ '\x7b' :: rest) =
      (resolve? scope cs).getD cs ++ substituteAfter scope rest := by
  rw [substitute, fragments_append free]
  rfl

theorem substituteAfter_append {cs : List Char} (free : ∀ c ∈ cs, c ≠ '\x7b') (rest : List Char) :
    substituteAfter scope (cs ++ '\x7b' :: rest) =
      expandFragment scope cs ++ substituteAfter scope rest := by
  rw [substituteAfter, fragments_append free, List.flatMap_cons]
  rfl

theorem substituteAfter_of_free {cs : List Char} (free : ∀ c ∈ cs, c ≠ '\x7b') :
    substituteAfter scope cs = expandFragment scope cs := by
  rw [substituteAfter, fragments_of_free free, List.flatMap_singleton]

/-- Without a closing brace a fragment stays as it is. -/
theorem resolve?_of_open {cs : List Char} (open_ : ∀ c ∈ cs, c ≠ '\x7d') :
    resolve? scope cs = none := by
  have all : cs.dropWhile (· ≠ '\x7d') = [] :=
    List.dropWhile_eq_nil_iff.mpr fun c member => decide_eq_true (open_ c member)
  simp only [resolve?, all]

/-- The path of a fragment is what it has before its first closing brace. -/
theorem resolve?_of_closed {path : String} (open_ : ∀ c ∈ path.toList, c ≠ '\x7d')
    (rest : List Char) :
    resolve? scope (path.toList ++ '\x7d' :: rest) =
      (scope.lookup path).map fun value => value.stringify.toList ++ rest := by
  have all : ∀ c ∈ path.toList, decide (c ≠ '\x7d') = true :=
    fun c member => decide_eq_true (open_ c member)
  have after : (path.toList ++ '\x7d' :: rest).dropWhile (· ≠ '\x7d') = '\x7d' :: rest := by
    rw [List.dropWhile_append_of_pos all]
    rfl
  have before : (path.toList ++ '\x7d' :: rest).takeWhile (· ≠ '\x7d') = path.toList := by
    rw [List.takeWhile_append_of_pos all]
    simp
  simp only [resolve?, after, before, String.ofList_toList]

theorem expandFragment_of_found {path : String} {value : Json}
    (open_ : ∀ c ∈ path.toList, c ≠ '\x7d') (found : scope.lookup path = some value)
    (rest : List Char) :
    expandFragment scope (path.toList ++ '\x7d' :: rest) = value.stringify.toList ++ rest := by
  rw [expandFragment, resolve?_of_closed open_, found]
  rfl

end Substitution

section Quotes

/-- Whether a quote mark stands right before an opening or right after a closing bracket. -/
def touches (a b : Char) : Bool := isQuoteMark a && isOpening b || isClosing a && isQuoteMark b

/-- Whether no quote mark of a text touches a bracket. -/
abbrev Apart (cs : List Char) : Prop := cs.IsChain fun a b => touches a b = false

theorem length_unquote_le (cs : List Char) : (unquote cs).length ≤ cs.length := by
  fun_induction unquote cs with
  | case1 a b rest _ ih => simp only [List.length_cons]; omega
  | case2 a b rest _ _ ih => simp only [List.length_cons]; omega
  | case3 a b rest _ _ ih => simpa only [List.length_cons, Nat.add_le_add_iff_right] using ih
  | case4 short => exact Nat.le_refl _

theorem apart_of_length {cs : List Char} (whole : cs.length ≤ (unquote cs).length) : Apart cs := by
  -- A quote mark that is dropped cannot be made up for in the rest.
  fun_induction unquote cs with
  | case1 a b rest _ ih =>
    have := length_unquote_le rest
    simp only [List.length_cons] at whole
    omega
  | case2 a b rest _ _ ih =>
    have := length_unquote_le rest
    simp only [List.length_cons] at whole
    omega
  | case3 a b rest notBefore notAfter ih =>
    refine List.isChain_cons_cons.mpr ⟨?_, ih (by simpa using whole)⟩
    simp [touches, notBefore, notAfter]
  | case4 short notTwo =>
    match short, notTwo with
    | [], _ => exact .nil
    | [c], _ => exact .singleton c
    | a :: b :: rest, notTwo => exact (notTwo a b rest rfl).elim

theorem unquote_of_apart {cs : List Char} (apart : Apart cs) : unquote cs = cs := by
  fun_induction unquote cs with
  | case1 a b rest touch ih =>
    have := (List.isChain_cons_cons.mp apart).1
    simp [touches, touch] at this
  | case2 a b rest _ touch ih =>
    have := (List.isChain_cons_cons.mp apart).1
    simp [touches, touch] at this
  | case3 a b rest _ _ ih => rw [ih (List.isChain_cons_cons.mp apart).2]
  | case4 short => rfl

end Quotes

/-- Arrays and objects are templates even when they are empty. -/
theorem renderValue_of_isContainer {template : Json} (container : template.isContainer)
    (scope : Scope) :
    renderValue template scope = String.ofList (unquote (substitute scope template.write)) := by
  have present : template.isFalsy = false := by
    cases template with
    | array items => rfl
    | object members => rfl
    | _ => cases container
  rw [renderValue, present, if_neg Bool.false_ne_true, render,
    Json.toList_stringify_of_isContainer container]

end HttpWorkflow.Template
