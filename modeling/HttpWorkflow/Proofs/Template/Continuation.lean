import HttpWorkflow.Proofs.Members
import HttpWorkflow.Proofs.Payload.Rendering
import HttpWorkflow.Proofs.Template.Fragments
import HttpWorkflow.Proofs.Template.Quotes

/-! Rendering with the rest of a text as a variable.

Behind a placeholder, nothing is looked up before the next opening brace, and a quote is dropped
when it touches a bracket. `Turns` says that a text becomes another whatever follows it, as long as
that does not start with a quote or an opening bracket. It holds of texts without brackets, and
goes from the items and members of a value to the value.
-/

set_option autoImplicit false

namespace HttpWorkflow.Template

/-- A character that is no bracket. -/
def isNeutral (c : Char) : Bool := !isOpening c && !isClosing c

section Rest

/-- Substitution in the text behind a placeholder, where nothing is looked up before the next
opening brace. -/
def substituteRest (scope : Scope) (cs : List Char) : List Char :=
  match fragments cs with
  | [] => []
  | first :: rest => first ++ rest.flatMap (expandFragment scope)

variable {scope : Scope} {cs : List Char}

theorem substituteRest_append {front : List Char} (free : '{' ∉ front) :
    substituteRest scope (front ++ cs) = front ++ substituteRest scope cs := by
  obtain ⟨first, rest, falls⟩ := exists_fallsInto cs
  simp only [substituteRest, falls.fragments_eq, (falls.append free).fragments_eq,
    List.append_assoc]

theorem substituteRest_cons {c : Char} (other : c ≠ '{') :
    substituteRest scope (c :: cs) = c :: substituteRest scope cs := by
  obtain ⟨first, rest, falls⟩ := exists_fallsInto cs
  rw [substituteRest, substituteRest, falls.fragments_eq, (falls.cons other).fragments_eq]
  rfl

theorem substituteRest_brace : substituteRest scope ('{' :: cs) = substituteAfter scope cs := by
  obtain ⟨first, rest, falls⟩ := exists_fallsInto cs
  rw [substituteRest, falls.brace.fragments_eq, substituteAfter, falls.fragments_eq]
  rfl

theorem substituteAfter_slot {path : String} {value : Json} (free : '{' ∉ path.toList)
    (open_ : '}' ∉ path.toList) (found : scope.lookup path = some value) :
    substituteAfter scope (path.toList ++ '}' :: cs) =
      value.stringify.toList ++ substituteRest scope cs := by
  obtain ⟨first, rest, falls⟩ := exists_fallsInto cs
  have closed : '{' ∉ path.toList ++ ['}'] := by
    rw [List.mem_append, not_or]
    exact ⟨free, by decide⟩
  have whole := (falls.append closed).fragments_eq
  rw [List.append_assoc, List.append_assoc, List.singleton_append, List.singleton_append] at whole
  rw [substituteAfter, whole, substituteRest, falls.fragments_eq, List.flatMap_cons,
    expandFragment_of_found (fun c member same => open_ (same ▸ member)) found, List.append_assoc]

/-- A fragment that leads nowhere, whatever comes after its first character, keeps its brace. -/
theorem substituteAfter_cons_of_missing {c : Char} (other : c ≠ '{')
    (missing : ∀ more, resolve? scope (c :: more) = none) :
    substituteAfter scope (c :: cs) = '{' :: substituteRest scope (c :: cs) := by
  obtain ⟨first, rest, falls⟩ := exists_fallsInto cs
  rw [substituteAfter, substituteRest, (falls.cons other).fragments_eq, List.flatMap_cons,
    expandFragment, missing first]
  rfl

/-- Whether the first brace of a text, if it has one, is an opening one. -/
def Opens (cs : List Char) : Prop := ∃ first rest, FallsInto cs first rest ∧ '}' ∉ first

theorem Opens.append {front : List Char} (opens : Opens cs) (free : '{' ∉ front)
    (open_ : '}' ∉ front) : Opens (front ++ cs) := by
  obtain ⟨first, rest, falls, unclosed⟩ := opens
  refine ⟨front ++ first, rest, falls.append free, ?_⟩
  rw [List.mem_append, not_or]
  exact ⟨open_, unclosed⟩

theorem Opens.cons {c : Char} (opens : Opens cs) (notOpening : c ≠ '{') (notClosing : c ≠ '}') :
    Opens (c :: cs) := by
  obtain ⟨first, rest, falls, unclosed⟩ := opens
  refine ⟨c :: first, rest, falls.cons notOpening, ?_⟩
  rw [List.mem_cons, not_or]
  exact ⟨notClosing.symm, unclosed⟩

theorem opens_nil : Opens [] := ⟨[], [], ⟨rfl, by simp⟩, List.not_mem_nil⟩

theorem opens_brace (cs : List Char) : Opens ('{' :: cs) := by
  obtain ⟨first, rest, falls⟩ := exists_fallsInto cs
  exact ⟨[], first :: rest, falls.brace, List.not_mem_nil⟩

/-- Nothing is looked up before the first brace if that is an opening one. -/
theorem Opens.substitute_eq (opens : Opens cs) : substitute scope cs = substituteRest scope cs := by
  obtain ⟨first, rest, falls, unclosed⟩ := opens
  have kept : resolve? scope first = none :=
    resolve?_of_open fun c member same => unclosed (same ▸ member)
  rw [falls.substitute_eq, kept, ← List.flatMap_def, substituteRest, falls.fragments_eq,
    Option.getD_none]

/-- Where there is nothing to find, a text stays as it is. -/
theorem substituteRest_empty (cs : List Char) : substituteRest ⟨[]⟩ cs = cs := by
  obtain ⟨first, rest, falls⟩ := exists_fallsInto cs
  have kept : expandFragment ⟨[]⟩ = ('{' :: ·) := by
    funext fragment
    have missing : resolve? ⟨[]⟩ fragment = none := resolve?_of_missing fun key _ _ => by
      cases segments : Path.segments key <;> simp [Scope.lookup, Scope.get?, segments]
    rw [expandFragment, missing]
    rfl
  rw [substituteRest, falls.fragments_eq, kept, falls.joined]

end Rest

section Names

/-- Whether no field of a scope has a name that starts with a double quote. -/
def Unquoted (scope : Scope) : Prop := ∀ name ∈ keys scope.fields, name.toList.head? ≠ some '"'

instance (scope : Scope) : Decidable (Unquoted scope) :=
  inferInstanceAs (Decidable (∀ name ∈ keys scope.fields, name.toList.head? ≠ some '"'))

theorem unquoted_empty : Unquoted ⟨[]⟩ := fun _ member => absurd member List.not_mem_nil

variable {scope : Scope}

theorem exists_segmentsFrom (c : Char) (pending cs : List Char) :
    ∃ more rest, Path.segmentsFrom (c :: pending) cs = (c :: more) :: rest := by
  induction cs generalizing pending with
  | nil => exact ⟨pending, [], by simp [Path.segmentsFrom, Path.flush]⟩
  | cons d cs ih =>
    rw [Path.segmentsFrom.eq_def]
    split
    · contradiction
    · exact ⟨pending, _, rfl⟩
    · exact ⟨pending, _, rfl⟩
    · next same =>
      obtain ⟨rfl, rfl⟩ := List.cons.inj same
      exact ih (pending ++ [d])

/-- The name of a member, with its quotes, is the name of no field. -/
theorem Unquoted.resolve?_quote (unquoted : Unquoted scope) (cs : List Char) :
    resolve? scope ('"' :: cs) = none := by
  refine resolve?_of_missing fun key after keyed => ?_
  have split := keyed.split
  cases start : key.toList with
  | nil =>
    rw [start] at split
    cases (List.cons.inj split).1
  | cons c more =>
    rw [start] at split
    obtain ⟨rfl, _⟩ := List.cons.inj split
    obtain ⟨tail, rest, segments⟩ := exists_segmentsFrom '"' [] more
    have first : Path.segments key = String.ofList ('"' :: tail) :: rest.map String.ofList := by
      have step : Path.segmentsFrom [] ('"' :: more) = Path.segmentsFrom ['"'] more := by
        simp [Path.segmentsFrom]
      rw [Path.segments, start, step, segments, List.map_cons]
    have unknown : scope.get? (String.ofList ('"' :: tail)) = none := by
      refine lookup_eq_none_of_not_mem fun member => unquoted _ member ?_
      rw [String.toList_ofList, List.head?_cons]
    simp only [Scope.lookup, first, unknown, Option.bind_none]

theorem resolve?_brace (cs : List Char) : resolve? scope ('}' :: cs) = none := by
  have absent : scope.lookup "" = none := by
    simp [Scope.lookup, Path.segments, Path.segmentsFrom, Path.flush]
  have closed := @resolve?_of_closed scope "" (by simp) cs
  rw [absent] at closed
  exact closed

end Names

section Turning

/-- What becomes of a text behind a placeholder. -/
def finish (scope : Scope) (cs : List Char) : List Char := unquote (substituteRest scope cs)

/-- What can stand behind a value: no quote, and no opening bracket. -/
def Follows (rest : List Char) : Prop :=
  ∀ c ∈ rest.head?, isQuoteMark c = false ∧ isOpening c = false

/-- A text that becomes another, whatever follows it. -/
def Turns (scope : Scope) (cs out : List Char) : Prop :=
  ∀ rest, Follows rest → finish scope (cs ++ rest) = out ++ finish scope rest

variable {scope : Scope} {cs rest : List Char}

theorem follows_cons {c : Char} (sign : isQuoteMark c = false ∧ isOpening c = false)
    (cs : List Char) : Follows (c :: cs) := by
  rintro d head
  obtain rfl := Option.some.inj head
  exact sign

theorem follows_nil : Follows [] := fun _ none_ => nomatch none_

theorem ne_brace_of_not_isOpening {c : Char} (closed : isOpening c = false) : c ≠ '{' := by
  rintro rfl
  cases closed

theorem Follows.substituteRest (follows : Follows rest) : Follows (substituteRest scope rest) := by
  cases rest with
  | nil => exact follows
  | cons c rest =>
    have sign := follows c rfl
    rw [substituteRest_cons (ne_brace_of_not_isOpening sign.2)]
    exact follows_cons sign _

theorem Follows.apart (follows : Follows rest) (a : Char) :
    ∀ b ∈ rest.head?, touches a b = false := by
  intro b head
  obtain ⟨notQuote, notOpening⟩ := follows b head
  simp [touches, notQuote, notOpening]

theorem neutral_free (neutral : ∀ c ∈ cs, isNeutral c) : '{' ∉ cs ∧ '}' ∉ cs := by
  constructor
  · intro member
    cases neutral _ member
  · intro member
    cases neutral _ member

theorem unquote_of_neutral (neutral : ∀ c ∈ cs, isNeutral c) : unquote cs = cs := by
  refine unquote_of_apart (Payload.apart_of_neutral fun c member => ?_)
  simpa [isNeutral] using neutral c member

theorem unquote_neutral_append (neutral : ∀ c ∈ cs, isNeutral c) (follows : Follows rest) :
    unquote (cs ++ substituteRest scope rest) = cs ++ finish scope rest := by
  have apart : ∀ a ∈ cs.getLast?, ∀ b ∈ (substituteRest scope rest).head?, touches a b = false :=
    fun a _ => follows.substituteRest.apart a
  rw [unquote_append apart, unquote_of_neutral neutral]
  rfl

theorem turns_neutral (neutral : ∀ c ∈ cs, isNeutral c) : Turns scope cs cs := by
  intro rest follows
  rw [finish, substituteRest_append (neutral_free neutral).1, unquote_neutral_append neutral follows]

theorem finish_cons {c : Char} (other : c ≠ '{')
    (apart : ∀ d ∈ (substituteRest scope cs).head?, touches c d = false) :
    finish scope (c :: cs) = c :: finish scope cs := by
  rw [finish, substituteRest_cons other, unquote_cons apart]
  rfl

/-- A sign does not mind what follows it. -/
theorem finish_sign {c : Char} (neutral : isNeutral c) (notQuote : isQuoteMark c = false) :
    finish scope (c :: cs) = c :: finish scope cs := by
  simp only [isNeutral, Bool.and_eq_true, Bool.not_eq_true'] at neutral
  refine finish_cons (ne_brace_of_not_isOpening neutral.1) fun d _ => ?_
  simp [touches, notQuote, neutral.2]

theorem finish_bracket : finish scope ('[' :: cs) = '[' :: finish scope cs :=
  finish_cons (by decide) fun _ _ => rfl

/-- A brace of the template itself, before a member or before its closing brace. -/
theorem finish_brace {c : Char} (other : c ≠ '{')
    (missing : ∀ more, resolve? scope (c :: more) = none) :
    finish scope ('{' :: c :: cs) = '{' :: finish scope (c :: cs) := by
  have apart : ∀ d ∈ (substituteRest scope (c :: cs)).head?, touches '{' d = false := fun _ _ => rfl
  rw [finish, substituteRest_brace, substituteAfter_cons_of_missing other missing,
    unquote_cons apart]
  rfl

theorem finish_closing {c : Char} (closing : isClosing c) (follows : Follows rest) :
    finish scope (c :: rest) = c :: finish scope rest :=
  finish_cons (ne_brace_of_not_isOpening (not_isOpening_of_isClosing closing))
    (follows.substituteRest.apart c)

end Turning

end HttpWorkflow.Template
