import HttpWorkflow.Proofs.Path
import HttpWorkflow.Proofs.Payload.Rendering
import HttpWorkflow.Proofs.Template.Quotes

/-! Placeholders in an object.

An object is written as JSON before its placeholders are looked up, and so are their paths. A path
that JSON writes with a backslash is another path by then. `renderValue_field_iff` says that these
are the only paths that mean something else in an object than they do in a text.
-/

set_option autoImplicit false

namespace HttpWorkflow.Template

/-- An object with one field, the text of which is a placeholder. -/
def field (name path : String) : Json := .object [(name, .string (placeholder path))]

/-- A text without quotes, backslashes, control characters, vertical bars and brackets. -/
def Clean (s : String) : Prop := ∀ c ∈ s.toList, Payload.isInert c ∧ isQuoteMark c = false

instance (s : String) : Decidable (Clean s) :=
  decidable_of_iff (s.toList.all fun c => Payload.isInert c && !isQuoteMark c) (by simp [Clean])

/-- What stands before the path of the placeholder. -/
def fieldStart (name : String) : List Char := '"' :: (name.toList ++ ['"', ':', '"'])

section Text

variable {name path s : String}

theorem count_unquote {c : Char} (other : isQuoteMark c = false) (cs : List Char) :
    (unquote cs).count c = cs.count c := by
  have whole (ds : List Char) : (ds.filter (!isQuoteMark ·)).count c = ds.count c :=
    List.count_filter (by simp [other])
  rw [← whole, filter_unquote, whole]

theorem write_field (inert : ∀ c ∈ name.toList, Payload.isInert c) :
    (field name path).write =
      '{' :: (fieldStart name ++
        '{' :: (path.toList.flatMap Json.escapeChar ++ ['}', '"', '}'])) := by
  have named := Payload.escape_of_inert inert
  have opening : Json.escapeChar '{' = ['{'] := rfl
  have closing : Json.escapeChar '}' = ['}'] := rfl
  simp [field, placeholder, fieldStart, Json.write, Json.writeMembers, named, Json.quote, opening,
    closing]

theorem write_filled (inert : ∀ c ∈ name.toList, Payload.isInert c) (clean : Clean s) :
    (Json.object [(name, .string s)]).write =
      '{' :: (fieldStart name ++ (s.toList ++ ['"', '}'])) := by
  have named := Payload.escape_of_inert inert
  have filled := Payload.escape_of_inert fun c member => (clean c member).1
  simp [fieldStart, Json.write, Json.writeMembers, named, filled, Json.quote]

theorem fieldStart_free (inert : ∀ c ∈ name.toList, Payload.isInert c) :
    ∀ c ∈ fieldStart name, c ≠ '{' ∧ c ≠ '}' := by
  refine List.forall_mem_cons.mpr ⟨by decide, List.forall_mem_append.mpr ⟨?_, by simp⟩⟩
  exact fun c member => Payload.ne_brace_of_isInert (inert c member)

/-- The path is looked up as it is written in JSON. -/
theorem substitute_field {scope : Scope} (inert : ∀ c ∈ name.toList, Payload.isInert c)
    (free : ∀ c ∈ path.toList, c ≠ '{' ∧ c ≠ '}') :
    substitute scope (field name path).write =
      '{' :: (fieldStart name ++
        ((scope.lookup (String.ofList (path.toList.flatMap Json.escapeChar))).map fun value =>
          value.stringify.toList ++ ['"', '}']).getD
            ('{' :: (path.toList.flatMap Json.escapeChar ++ ['}', '"', '}']))) := by
  have start := fieldStart_free inert
  have letters : Json.escapeLetters.all fun c => c ≠ '{' ∧ c ≠ '}' := rfl
  have escaped : ∀ c ∈ path.toList.flatMap Json.escapeChar, c ≠ '{' ∧ c ≠ '}' :=
    Json.forall_mem_escape
      (fun c member => of_decide_eq_true (List.all_eq_true.mp letters c member)) free
  have inside : ∀ c ∈ path.toList.flatMap Json.escapeChar ++ ['}', '"', '}'], c ≠ '{' :=
    List.forall_mem_append.mpr ⟨fun c member => (escaped c member).1, by simp⟩
  have looked := @resolve?_of_closed scope (String.ofList (path.toList.flatMap Json.escapeChar))
    (by simpa using fun c member => (escaped c member).2) ['"', '}']
  rw [String.toList_ofList] at looked
  rw [write_field inert, ← List.nil_append ('{' :: _), substitute_append (by simp),
    substituteAfter_append fun c member => (start c member).1, substituteAfter_of_free inside,
    expandFragment, expandFragment, resolve?_of_open (by simp),
    resolve?_of_open fun c member => (start c member).2, looked]
  simp

theorem Clean.neutral (clean : Clean s) :
    ∀ c ∈ s.toList, isOpening c = false ∧ isClosing c = false :=
  fun c member => (Payload.isInert_iff.mp (clean c member).1).2

theorem unquote_of_clean (clean : Clean s) : unquote s.toList = s.toList :=
  unquote_of_apart (Payload.apart_of_neutral clean.neutral)

/-- In a text the path is looked up as it is. -/
theorem render_placeholder {scope : Scope} (free : ∀ c ∈ path.toList, c ≠ '{' ∧ c ≠ '}')
    (clean : Clean s) (found : scope.lookup path = some (.string s)) :
    render (placeholder path) scope = s := by
  have text : (placeholder path).toList = [] ++ '{' :: (path.toList ++ ['}']) := by
    simp [placeholder]
  have inside : ∀ c ∈ path.toList ++ ['}'], c ≠ '{' :=
    List.forall_mem_append.mpr ⟨fun c member => (free c member).1, by simp⟩
  rw [render, text, substitute_append (by simp), resolve?_of_open (by simp),
    substituteAfter_of_free inside,
    expandFragment_of_found (fun c member => (free c member).2) found, Json.stringify,
    List.append_nil, Option.getD_none, List.nil_append, unquote_of_clean clean,
    String.ofList_toList]

theorem renderValue_field {scope : Scope} (inert : ∀ c ∈ name.toList, Payload.isInert c)
    (free : ∀ c ∈ path.toList, c ≠ '{' ∧ c ≠ '}') (plain : ∀ c ∈ path.toList, Json.isPlain c)
    (clean : Clean s) (found : scope.lookup path = some (.string s)) :
    renderValue (field name path) scope = (Json.object [(name, .string s)]).compress := by
  have same : String.ofList (path.toList.flatMap Json.escapeChar) = path := by
    rw [Json.escape_of_plain plain, String.ofList_toList]
  have text : '{' :: (fieldStart name ++ (s.toList ++ ['"', '}'])) =
      Payload.rendered [⟨name, path, s⟩] := by
    simp [fieldStart, Payload.rendered, Payload.field, Payload.closing, Payload.raw]
  have apart : Apart (Payload.rendered [⟨name, path, s⟩]) := by
    refine (Payload.apart_rendered (List.forall_mem_singleton.mpr inert)).mpr
      (List.forall_mem_singleton.mpr (Payload.apart_of_neutral ?_))
    exact List.forall_mem_cons.mpr
      ⟨by decide, List.forall_mem_append.mpr ⟨clean.neutral, by simp [isOpening, isClosing]⟩⟩
  rw [renderValue_of_isContainer rfl, substitute_field inert free, same, found, Json.compress,
    write_filled inert clean, Option.map_some, Option.getD_some, Json.stringify, text,
    unquote_of_apart apart]

end Text

section Lost

variable {path s : String}

theorem filled_of_special (special : ¬∀ c ∈ path.toList, Json.isPlain c) :
    Path.segments path ≠ [] := by
  intro none_
  refine special fun c member => ?_
  rw [Path.dots_of_no_segments none_ c member]
  rfl

/-- What JSON writes of the path has a backslash more, and no path gives up a backslash. -/
theorem lookup_escaped (special : ¬∀ c ∈ path.toList, Json.isPlain c) (s : String) :
    (Scope.onlyAt path s).lookup (String.ofList (path.toList.flatMap Json.escapeChar)) = none := by
  by_contra found
  obtain ⟨value, found⟩ := Option.ne_none_iff_exists'.mp found
  obtain ⟨more, shorter⟩ := Scope.prefix_of_lookup_onlyAt (filled_of_special special) found
  have longer := Json.count_lt_count_escape special
  have kept := Path.lasts_backslash.count_segments path
  have written := Path.lasts_backslash.count_segments
    (String.ofList (path.toList.flatMap Json.escapeChar))
  rw [String.toList_ofList] at written
  rw [← shorter, List.flatMap_append, List.count_append] at kept
  omega

/-- A placeholder that stays has a brace that the value would not have. -/
theorem renderValue_of_lost {scope : Scope} {name : String}
    (inert : ∀ c ∈ name.toList, Payload.isInert c) (free : ∀ c ∈ path.toList, c ≠ '{' ∧ c ≠ '}')
    (clean : Clean s)
    (lost : scope.lookup (String.ofList (path.toList.flatMap Json.escapeChar)) = none) :
    renderValue (field name path) scope ≠ (Json.object [(name, .string s)]).compress := by
  intro same
  rw [renderValue_of_isContainer rfl, substitute_field inert free, lost, Json.compress,
    write_filled inert clean] at same
  have counts := congrArg (List.count '{') (String.ofList_injective same)
  have value : s.toList.count '{' = 0 :=
    List.count_eq_zero.mpr fun member =>
      (Payload.ne_brace_of_isInert (clean _ member).1).1 rfl
  rw [count_unquote (by decide)] at counts
  simp only [Option.map_none, Option.getD_none, List.count_cons, List.count_append, value] at counts
  simp at counts

end Lost

/-- In a text a placeholder means what its path leads to. In an object it means the same for
exactly those paths that JSON writes as they are. -/
theorem renderValue_field_iff {path : String} (free : ∀ c ∈ path.toList, c ≠ '{' ∧ c ≠ '}') :
    (∀ (scope : Scope) (s : String), Clean s → scope.lookup path = some (.string s) →
        render (placeholder path) scope = s) ∧
      ((∀ (scope : Scope) (name s : String), (∀ c ∈ name.toList, Payload.isInert c) → Clean s →
          scope.lookup path = some (.string s) →
          renderValue (field name path) scope = (Json.object [(name, .string s)]).compress) ↔
        ∀ c ∈ path.toList, Json.isPlain c) := by
  refine ⟨fun scope s => render_placeholder free, ?_, ?_⟩
  · intro agree
    by_contra special
    have inert : ∀ c ∈ "k".toList, Payload.isInert c := List.all_eq_true.mp rfl
    have clean : Clean "" := by decide
    have found := Scope.lookup_onlyAt (s := "") (filled_of_special special)
    exact renderValue_of_lost inert free clean (lookup_escaped special "")
      (agree _ "k" "" inert clean found)
  · intro plain scope name s inert clean found
    exact renderValue_field inert free plain clean found

section Profile

def profile : Scope := ⟨[("user", .object [("name", .string "Ada")])]⟩

theorem profile_field :
    (∀ c ∈ "user['name']".toList, c ≠ '{' ∧ c ≠ '}') ∧
      profile.lookup "user['name']" = some (.string "Ada") ∧
      renderValue (field "name" "user['name']") profile =
        (Json.object [("name", .string "Ada")]).compress := by
  have free : ∀ c ∈ "user['name']".toList, c ≠ '{' ∧ c ≠ '}' := by simp
  have found : profile.lookup "user['name']" = some (.string "Ada") := by cbv
  exact ⟨free, found, (renderValue_field_iff free).2.mpr (List.all_eq_true.mp rfl) profile "name"
    "Ada" (List.all_eq_true.mp rfl) (by decide) found⟩

/-- The same path between double quotes leads to the name in a text, and is lost in an object. -/
theorem profile_quotes_lost :
    (∀ c ∈ "user[\"name\"]".toList, c ≠ '{' ∧ c ≠ '}') ∧
      profile.lookup "user[\"name\"]" = some (.string "Ada") ∧ Clean "Ada" ∧
      render (placeholder "user[\"name\"]") profile = "Ada" ∧
      renderValue (field "name" "user[\"name\"]") profile =
        "\x7b\"name\":\x7buser[\\\"name\\\"]\x7d\x7d" ∧
      renderValue (field "name" "user[\"name\"]") profile ≠
        (Json.object [("name", .string "Ada")]).compress := by
  have lost : renderValue (field "name" "user[\"name\"]") profile =
      "\x7b\"name\":\x7buser[\\\"name\\\"]\x7d\x7d" := by cbv
  refine ⟨by simp, by cbv, by decide, by cbv, lost, ?_⟩
  rw [lost]
  decide

end Profile

end HttpWorkflow.Template
