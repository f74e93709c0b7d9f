import HttpWorkflow.Scope.Basic

/-! Paths and what they lead to.

A path gives up its dots, its brackets and the quotes in brackets, and every other character stays
in one of its segments. In a value that holds nothing but one nested member, a path leads to
something only when its segments begin those of that member.
-/

set_option autoImplicit false

namespace HttpWorkflow

namespace Path

/-- A character that no path gives up. -/
structure Lasts (c : Char) : Prop where
  dot : c ≠ '.'
  opening : c ≠ '['
  closing : c ≠ ']'
  quote : isQuote c = false

theorem lasts_backslash : Lasts '\\' := ⟨by decide, by decide, by decide, rfl⟩

variable {c : Char}

theorem count_dropQuotes (quote : isQuote c = false) (cs : List Char) :
    (cs.dropWhile isQuote).count c = cs.count c := by
  induction cs with
  | nil => rfl
  | cons d cs ih =>
    rw [List.dropWhile_cons]
    split
    · next dropped =>
      have other : d ≠ c := by
        rintro rfl
        simp [quote] at dropped
      rw [ih, List.count_cons_of_ne other]
    · rfl

theorem Lasts.count_trimQuotes (lasts : Lasts c) (cs : List Char) :
    (trimQuotes cs).count c = cs.count c := by
  rw [trimQuotes, List.count_reverse, count_dropQuotes lasts.quote, List.count_reverse,
    count_dropQuotes lasts.quote]

theorem Lasts.count_bracket (lasts : Lasts c) (cs : List Char) :
    (bracket cs).1.count c + (bracket cs).2.count c = cs.count c := by
  fun_induction bracket cs with
  | case1 => rfl
  | case2 rest => simp [List.count_cons_of_ne lasts.closing.symm]
  | case3 d rest _ inner after same ih =>
    rw [same] at ih
    have both : inner.count c + after.count c = rest.count c := ih
    simp only [List.count_cons]
    omega

@[simp] theorem flatten_flush (pending : List Char) : (flush pending).flatten = pending := by
  cases pending with
  | nil => rfl
  | cons c cs => simp [flush]

theorem Lasts.count_segmentsFrom (lasts : Lasts c) (pending cs : List Char) :
    (segmentsFrom pending cs).flatten.count c = pending.count c + cs.count c := by
  fun_induction segmentsFrom pending cs with
  | case1 pending => simp
  | case2 pending rest ih =>
    simp [ih, List.count_cons_of_ne lasts.dot.symm]
  | case3 pending rest inside ih =>
    have both : inside.1.count c + inside.2.count c = rest.count c := lasts.count_bracket rest
    have inner := lasts.count_trimQuotes inside.1
    simp only [List.flatten_append, List.flatten_cons, flatten_flush, List.count_append, ih,
      List.count_nil, List.count_cons_of_ne lasts.opening.symm]
    omega
  | case4 pending d rest _ _ ih =>
    rw [ih, List.count_append, List.count_cons, List.count_cons, List.count_nil]
    omega

theorem Lasts.count_segments (lasts : Lasts c) (path : String) :
    ((segments path).flatMap String.toList).count c = path.toList.count c := by
  have inner : ∀ cs : List (List Char),
      (cs.map String.ofList).flatMap String.toList = cs.flatten := by
    intro cs
    simp [List.flatMap_def]
  rw [segments, inner, lasts.count_segmentsFrom, List.count_nil, Nat.zero_add]

/-- A path without segments has nothing but dots. -/
theorem dots_of_no_segmentsFrom {pending cs : List Char} (none_ : segmentsFrom pending cs = []) :
    pending = [] ∧ ∀ c ∈ cs, c = '.' := by
  have flushed {pending : List Char} (none_ : flush pending = []) : pending = [] := by
    rw [← flatten_flush pending, none_, List.flatten_nil]
  fun_induction segmentsFrom pending cs with
  | case1 pending => exact ⟨flushed none_, List.forall_mem_nil _⟩
  | case2 pending rest ih =>
    obtain ⟨before, later⟩ := List.append_eq_nil_iff.mp none_
    exact ⟨flushed before, List.forall_mem_cons.mpr ⟨rfl, (ih later).2⟩⟩
  | case3 pending rest inside ih =>
    exact absurd (List.append_eq_nil_iff.mp none_).2 (List.cons_ne_nil _ _)
  | case4 pending d rest _ _ ih => exact absurd (ih none_).1 (by simp)

theorem dots_of_no_segments {path : String} (none_ : segments path = []) :
    ∀ c ∈ path.toList, c = '.' :=
  (dots_of_no_segmentsFrom (List.map_eq_nil_iff.mp none_)).2

end Path

namespace Scope

theorem lookup_eq_foldlM {scope : Scope} {path : String} (filled : Path.segments path ≠ []) :
    scope.lookup path = (Path.segments path).foldlM enter (.object scope.fields) := by
  unfold lookup
  cases segments : Path.segments path with
  | nil => exact absurd segments filled
  | cons first rest => rfl

/-- A value under the segments of a path, with nothing beside it. -/
def nested (value : Json) : List String → Json
  | [] => value
  | segment :: rest => .object [(segment, nested value rest)]

theorem foldlM_nested (value : Json) (segments : List String) :
    segments.foldlM enter (nested value segments) = some value := by
  induction segments with
  | nil => rfl
  | cons segment rest ih =>
    have inside : enter (nested value (segment :: rest)) segment = some (nested value rest) := by
      simp [nested, enter]
    rw [List.foldlM_cons, inside]
    exact ih

theorem prefix_of_foldlM_nested {s : String} {path segments : List String} {found : Json}
    (leads : path.foldlM enter (nested (.string s) segments) = some found) : path <+: segments := by
  induction path generalizing segments with
  | nil => exact List.nil_prefix
  | cons segment rest ih =>
    rw [List.foldlM_cons] at leads
    obtain ⟨inside, here, leads⟩ := Option.bind_eq_some_iff.mp leads
    cases segments with
    | nil => cases here
    | cons first others =>
      by_cases same : segment = first
      · subst same
        have here : nested (.string s) others = inside := by simpa [nested, enter] using here
        subst here
        exact (List.prefix_cons_inj segment).mpr (ih leads)
      · have other : (segment == first) = false := beq_eq_false_iff_ne.mpr same
        simp [nested, enter, List.lookup_cons, other] at here

/-- A scope in which the segments of a path lead to a text, and nothing else is known. -/
def onlyAt (path : String) (s : String) : Scope :=
  match Path.segments path with
  | [] => empty
  | first :: rest => ⟨[(first, nested (.string s) rest)]⟩

theorem object_onlyAt {path s : String} (filled : Path.segments path ≠ []) :
    Json.object (onlyAt path s).fields = nested (.string s) (Path.segments path) := by
  unfold onlyAt
  cases segments : Path.segments path with
  | nil => exact absurd segments filled
  | cons first rest => rfl

theorem lookup_onlyAt {path s : String} (filled : Path.segments path ≠ []) :
    (onlyAt path s).lookup path = some (.string s) := by
  rw [lookup_eq_foldlM filled, object_onlyAt filled, foldlM_nested]

theorem prefix_of_lookup_onlyAt {path other s : String} {found : Json}
    (filled : Path.segments path ≠ []) (leads : (onlyAt path s).lookup other = some found) :
    Path.segments other <+: Path.segments path := by
  by_cases empty : Path.segments other = []
  · rw [empty]
    exact List.nil_prefix
  · rw [lookup_eq_foldlM empty, object_onlyAt filled] at leads
    exact prefix_of_foldlM_nested leads

end Scope

end HttpWorkflow
