import HttpWorkflow.Proofs.Json.Printing
import HttpWorkflow.Proofs.Template

/-! The text of a payload whose values are placeholders.

Rendering puts the value of a placeholder between its quotes as it is. `Spliceable` says for which
values this is JSON text of the value.
-/

set_option autoImplicit false

namespace HttpWorkflow.Payload

/-- A field whose template is a placeholder, with the text that its path leads to. -/
structure Slot where
  name : String
  path : String
  value : String

def Slot.placeholder (t : Slot) : Slot := { t with value := "\x7b" ++ t.path ++ "\x7d" }

def members (slots : List Slot) : Members := slots.map fun t => (t.name, .string t.value)

def template (slots : List Slot) : Json := .object (members (slots.map Slot.placeholder))

/-- A character of names and paths. Letters, digits and dots are such characters. -/
def isInert (c : Char) : Bool :=
  Json.isPlain c && !Template.isOpening c && !Template.isClosing c

structure Fits (scope : Scope) (slots : List Slot) : Prop where
  names : ∀ t ∈ slots, ∀ c ∈ t.name.toList, isInert c
  paths : ∀ t ∈ slots, ∀ c ∈ t.path.toList, isInert c
  distinct : (slots.map Slot.name).Nodup
  found : ∀ t ∈ slots, scope.lookup t.path = some (.string t.value)

def raw (s : String) : List Char := '"' :: (s.toList ++ ['"'])

/-- Whether a text is JSON of itself between quotes, and its rendering keeps the quotes. -/
def Spliceable (s : String) : Prop :=
  (∀ c ∈ s.toList, Json.isPlain c) ∧ Template.Apart (raw s)

instance (s : String) : Decidable (Spliceable s) :=
  decidable_of_iff (s.toList.all Json.isPlain = true ∧ Template.Apart (raw s)) (by
    rw [List.all_eq_true, Spliceable])

def field (t : Slot) (rest : List Char) : List Char := raw t.name ++ ':' :: (raw t.value ++ rest)

/-- What follows the first field. -/
def closing : List Slot → List Char
  | [] => ['\x7d']
  | t :: rest => ',' :: field t (closing rest)

/-- The payload with the values between quotes, without escapes. -/
def rendered : List Slot → List Char
  | [] => ['\x7b', '\x7d']
  | t :: rest => '\x7b' :: field t (closing rest)

section Inert

variable {c : Char}

theorem isInert_iff : isInert c ↔
    Json.isPlain c ∧ Template.isOpening c = false ∧ Template.isClosing c = false := by
  simp [isInert, and_assoc]

theorem escape_of_inert {cs : List Char} (inert : ∀ c ∈ cs, isInert c) :
    cs.flatMap Json.escapeChar = cs :=
  Json.escape_of_plain fun c member => (isInert_iff.mp (inert c member)).1

theorem ne_brace_of_isInert (inert : isInert c) : c ≠ '\x7b' ∧ c ≠ '\x7d' := by
  obtain ⟨_, notOpening, notClosing⟩ := isInert_iff.mp inert
  simp only [Template.isOpening, Template.isClosing, Bool.or_eq_false_iff,
    decide_eq_false_iff_not] at notOpening notClosing
  exact ⟨notOpening.2, notClosing.2⟩

end Inert

section Text

variable {slots : List Slot}

theorem quote_of_plain {s : String} (plain : ∀ c ∈ s.toList, Json.isPlain c) :
    Json.quote s = raw s := by
  rw [Json.quote, Json.escape_of_plain plain]
  rfl

theorem writeMembers_members {t : Slot} {rest : List Slot}
    (names : ∀ u ∈ t :: rest, ∀ c ∈ u.name.toList, Json.isPlain c)
    (values : ∀ u ∈ t :: rest, ∀ c ∈ u.value.toList, Json.isPlain c) :
    Json.writeMembers (members (t :: rest)) ++ ['\x7d'] = field t (closing rest) := by
  induction rest generalizing t with
  | nil =>
    have name := names t List.mem_cons_self
    have value := values t List.mem_cons_self
    simp [members, Json.writeMembers, Json.write, quote_of_plain name, quote_of_plain value, field,
      closing]
  | cons u rest ih =>
    obtain ⟨name, names⟩ := List.forall_mem_cons.mp names
    obtain ⟨value, values⟩ := List.forall_mem_cons.mp values
    rw [field, closing, ← ih names values]
    simp [members, Json.writeMembers, Json.write, quote_of_plain name, quote_of_plain value]

/-- Where names and values are plain, the text of the members is JSON. -/
theorem write_members (names : ∀ t ∈ slots, ∀ c ∈ t.name.toList, Json.isPlain c)
    (values : ∀ t ∈ slots, ∀ c ∈ t.value.toList, Json.isPlain c) :
    (Json.object (members slots)).write = rendered slots := by
  cases slots with
  | nil => rfl
  | cons t rest =>
    rw [Json.write, List.cons_append, writeMembers_members names values]
    rfl

theorem length_closing (slots : List Slot) :
    (closing slots).length = Json.membersWeight (members slots) + 1 := by
  induction slots with
  | nil => rfl
  | cons t rest ih =>
    simp only [closing, field, members, List.map_cons, Json.membersWeight_cons, Json.memberWeight,
      Json.weight, List.length_cons, List.length_append, raw, List.length_nil,
      String.length_toList] at ih ⊢
    omega

theorem length_rendered (filled : slots ≠ []) :
    (rendered slots).length = Json.membersWeight (members slots) + 1 := by
  cases slots with
  | nil => exact absurd rfl filled
  | cons t rest => exact length_closing (t :: rest)

end Text

section Substitution

variable {scope : Scope} {slots : List Slot}

theorem Fits.tail {t : Slot} {rest : List Slot} (fits : Fits scope (t :: rest)) :
    Fits scope rest where
  names := (List.forall_mem_cons.mp fits.names).2
  paths := (List.forall_mem_cons.mp fits.paths).2
  distinct := (List.nodup_cons.mp fits.distinct).2
  found := (List.forall_mem_cons.mp fits.found).2

theorem free_of_inert {s : String} (inert : ∀ c ∈ s.toList, isInert c) :
    (∀ c ∈ s.toList, c ≠ '\x7b') ∧ ∀ c ∈ s.toList, c ≠ '\x7d' := by
  constructor
  · intro c member
    exact (ne_brace_of_isInert (inert c member)).1
  · intro c member
    exact (ne_brace_of_isInert (inert c member)).2

/-- What stands between two placeholders has no brace but the one that closes the first. -/
theorem substituteAfter_closing {t : Slot} {rest : List Slot} (fits : Fits scope (t :: rest)) :
    Template.substituteAfter scope
        (t.path.toList ++ '\x7d' :: '"' :: closing (rest.map Slot.placeholder)) =
      t.value.toList ++ '"' :: closing rest := by
  obtain ⟨pathOpen, pathClosed⟩ := free_of_inert (fits.paths t List.mem_cons_self)
  have found := fits.found t List.mem_cons_self
  induction rest generalizing t with
  | nil =>
    have free : ∀ c ∈ t.path.toList ++ ['\x7d', '"', '\x7d'], c ≠ '\x7b' :=
      List.forall_mem_append.mpr ⟨pathOpen, by simp⟩
    rw [List.map_nil, closing, Template.substituteAfter_of_free free,
      Template.expandFragment_of_found pathClosed found]
    rfl
  | cons u rest ih =>
    obtain ⟨nameOpen, _⟩ := free_of_inert (fits.names u (by simp))
    obtain ⟨nextOpen, nextClosed⟩ := free_of_inert (fits.paths u (by simp))
    -- Before the next opening brace: the rest of this placeholder, and the name of the next field.
    have text : t.path.toList ++ '\x7d' :: '"' :: closing ((u :: rest).map Slot.placeholder) =
        (t.path.toList ++ '\x7d' :: (['"', ',', '"'] ++ (u.name.toList ++ ['"', ':', '"']))) ++
          '\x7b' :: (u.path.toList ++ '\x7d' :: '"' :: closing (rest.map Slot.placeholder)) := by
      simp [closing, field, raw, Slot.placeholder]
    have free : ∀ c ∈ t.path.toList ++
        '\x7d' :: (['"', ',', '"'] ++ (u.name.toList ++ ['"', ':', '"'])), c ≠ '\x7b' :=
      List.forall_mem_append.mpr ⟨pathOpen, List.forall_mem_cons.mpr ⟨by decide,
        List.forall_mem_append.mpr ⟨by simp, List.forall_mem_append.mpr ⟨nameOpen, by simp⟩⟩⟩⟩
    rw [text, Template.substituteAfter_append free,
      Template.expandFragment_of_found pathClosed found,
      ih fits.tail nextOpen nextClosed (fits.found u (by simp))]
    simp [closing, field, raw, Json.stringify]

theorem isPlain_placeholder {t : Slot} (inert : ∀ c ∈ t.path.toList, isInert c) :
    ∀ c ∈ t.placeholder.value.toList, Json.isPlain c := by
  have plain : ∀ c ∈ t.path.toList, Json.isPlain c :=
    fun c member => (isInert_iff.mp (inert c member)).1
  simp only [Slot.placeholder, String.toList_append]
  exact List.forall_mem_append.mpr ⟨List.forall_mem_append.mpr
    ⟨List.all_eq_true.mp rfl, plain⟩, List.all_eq_true.mp rfl⟩

theorem write_template (fits : Fits scope slots) :
    (template slots).write = rendered (slots.map Slot.placeholder) := by
  refine write_members ?_ ?_
  · refine List.forall_mem_map.mpr fun t member c inside => ?_
    exact (isInert_iff.mp (fits.names t member c inside)).1
  · exact List.forall_mem_map.mpr fun t member => isPlain_placeholder (fits.paths t member)

/-- Substitution puts every value in its place. -/
theorem substitute_template (fits : Fits scope slots) :
    Template.substitute scope (template slots).write = rendered slots := by
  rw [write_template fits]
  cases slots with
  | nil =>
    have absent : scope.lookup "" = none := by
      simp [Scope.lookup, Path.segments, Path.segmentsFrom, Path.flush]
    have kept : Template.resolve? scope ['\x7d'] = none := by
      simp [Template.resolve?, absent]
    change Template.substitute scope ([] ++ '\x7b' :: ['\x7d']) = _
    rw [Template.substitute_append (by simp), Template.resolve?_of_open (by simp),
      Template.substituteAfter_of_free (by simp), Template.expandFragment, kept]
    rfl
  | cons t rest =>
    obtain ⟨nameOpen, nameClosed⟩ := free_of_inert (fits.names t List.mem_cons_self)
    have text : rendered ((t :: rest).map Slot.placeholder) =
        [] ++ '\x7b' :: ('"' :: (t.name.toList ++ ['"', ':', '"']) ++
          '\x7b' :: (t.path.toList ++ '\x7d' :: '"' :: closing (rest.map Slot.placeholder))) := by
      simp [rendered, field, raw, Slot.placeholder]
    have free : ∀ c ∈ '"' :: (t.name.toList ++ ['"', ':', '"']), c ≠ '\x7b' :=
      List.forall_mem_cons.mpr ⟨by decide, List.forall_mem_append.mpr ⟨nameOpen, by simp⟩⟩
    have closed : ∀ c ∈ '"' :: (t.name.toList ++ ['"', ':', '"']), c ≠ '\x7d' :=
      List.forall_mem_cons.mpr ⟨by decide, List.forall_mem_append.mpr ⟨nameClosed, by simp⟩⟩
    rw [text, Template.substitute_append (by simp), Template.substituteAfter_append free,
      substituteAfter_closing fits, Template.expandFragment, Template.resolve?_of_open closed,
      Template.resolve?_of_open (by simp)]
    simp [rendered, field, raw]

end Substitution

section Quotes

open Template (Apart)

theorem apart_of_neutral {cs : List Char}
    (neutral : ∀ c ∈ cs, Template.isOpening c = false ∧ Template.isClosing c = false) :
    Apart cs := by
  match cs, neutral with
  | [], _ => exact .nil
  | [c], _ => exact .singleton c
  | a :: b :: rest, neutral =>
    obtain ⟨first, others⟩ := List.forall_mem_cons.mp neutral
    have second := others b List.mem_cons_self
    refine List.isChain_cons_cons.mpr ⟨?_, apart_of_neutral others⟩
    simp [Template.touches, first.2, second.1]

theorem apart_field {t : Slot} (inert : ∀ c ∈ t.name.toList, isInert c) (rest : List Char) :
    Apart (field t rest) ↔ Apart (raw t.value) ∧ Apart ('"' :: rest) := by
  have text : field t rest =
      ('"' :: (t.name.toList ++ ['"', ':'])) ++ '"' :: (t.value.toList ++ '"' :: rest) := by
    simp [field, raw]
  have name : ∀ c ∈ t.name.toList, Template.isOpening c = false ∧ Template.isClosing c = false :=
    fun c member => (isInert_iff.mp (inert c member)).2
  have front : Apart ('"' :: (t.name.toList ++ ['"', ':']) ++ ['"']) := by
    have quote : Template.isOpening '"' = false ∧ Template.isClosing '"' = false := by decide
    have colon : Template.isOpening ':' = false ∧ Template.isClosing ':' = false := by decide
    refine apart_of_neutral (List.forall_mem_append.mpr ⟨List.forall_mem_cons.mpr ⟨quote,
      List.forall_mem_append.mpr ⟨name, ?_⟩⟩, List.forall_mem_singleton.mpr quote⟩)
    exact List.forall_mem_cons.mpr ⟨quote, List.forall_mem_singleton.mpr colon⟩
  rw [text, Apart, List.isChain_split, List.isChain_cons_split]
  exact ⟨And.right, fun both => ⟨front, both⟩⟩

theorem apart_cons_field {c : Char} (neutral : Template.touches c '"' = false) (t : Slot)
    (rest : List Char) : Apart (c :: field t rest) ↔ Apart (field t rest) := by
  rw [field, raw, List.cons_append, Apart, List.isChain_cons_cons]
  exact ⟨And.right, fun later => ⟨neutral, later⟩⟩

theorem apart_closing {slots : List Slot} (names : ∀ t ∈ slots, ∀ c ∈ t.name.toList, isInert c) :
    Apart ('"' :: closing slots) ↔ ∀ t ∈ slots, Apart (raw t.value) := by
  induction slots with
  | nil => exact ⟨fun _ => by simp, fun _ => by decide⟩
  | cons t rest ih =>
    obtain ⟨name, names⟩ := List.forall_mem_cons.mp names
    have quoted : Apart ('"' :: closing (t :: rest)) ↔ Apart (',' :: field t (closing rest)) :=
      List.isChain_cons_cons.trans ⟨And.right, fun later => ⟨by decide, later⟩⟩
    rw [quoted, apart_cons_field (by decide), apart_field name, ih names, List.forall_mem_cons]

/-- A payload renders with all its quotes when each of its values keeps its own. -/
theorem apart_rendered {slots : List Slot} (names : ∀ t ∈ slots, ∀ c ∈ t.name.toList, isInert c) :
    Apart (rendered slots) ↔ ∀ t ∈ slots, Apart (raw t.value) := by
  cases slots with
  | nil => exact ⟨fun _ => by simp, fun _ => by decide⟩
  | cons t rest =>
    obtain ⟨name, names⟩ := List.forall_mem_cons.mp names
    rw [rendered, apart_cons_field (by decide), apart_field name, apart_closing names,
      List.forall_mem_cons]

end Quotes

end HttpWorkflow.Payload
