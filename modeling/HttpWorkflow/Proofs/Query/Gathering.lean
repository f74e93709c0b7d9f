import HttpWorkflow.Proofs.Members.LastWins
import HttpWorkflow.Proofs.Query
import Mathlib.Data.List.Forall2

/-! Queries gathered by their keys.

A raw query is a list of pairs. Reading it goes from pair to pair, and what is there for a key turns
from nothing into a string and then into an array. So at every point the object has the keys read so
far in the order in which they came up first, and for each of them all of its values.
-/

set_option autoImplicit false

namespace HttpWorkflow.Query

/-- A text without its leading question mark. One that has none stays as it is. -/
inductive Unmarked : List Char → List Char → Prop
  | marked {cs : List Char} : Unmarked ('?' :: cs) cs
  | plain {cs : List Char} (other : cs.head? ≠ some '?') : Unmarked cs cs

/-- The parts between the marks of a text. -/
structure CutAt (mark : Char) (cs : List Char) (parts : List (List Char)) : Prop where
  joined : cs = [mark].intercalate parts
  free : ∀ part ∈ parts, mark ∉ part
  filled : parts ≠ []

def decoded (cs : List Char) : String := String.ofList (decodeComponent cs)

/-- The pair of a part: what stands before its first equals sign, and what stands after it. -/
inductive Reads : List Char → String × String → Prop
  | assigned {key : List Char} (first : '=' ∉ key) (value : List Char) :
    Reads (key ++ '=' :: value) (decoded key, decoded value)
  | bare {key : List Char} (free : '=' ∉ key) : Reads key (decoded key, "")

/-- The pairs of a raw query, one for each part that is not empty. -/
inductive HasPairs (raw : String) : List (String × String) → Prop
  | intro {cs : List Char} {parts : List (List Char)} {ps : List (String × String)}
    (unmarked : Unmarked raw.toList cs) (cut : CutAt '&' cs parts)
    (reads : List.Forall₂ Reads (parts.filter (· ≠ [])) ps) : HasPairs raw ps

/-- All values of a key, in their order. -/
def valuesOf (key : String) (ps : List (String × String)) : List String :=
  (ps.filter (·.1 = key)).map (·.2)

/-- A value on its own is a string, and several are an array. -/
def gather : List String → Json
  | [value] => .string value
  | values => .array (values.map .string)

/-- The distinct keys in the order in which they come up first, each with what it has. -/
def gathered (ps : List (String × String)) : Members :=
  (keys ps).eraseDups.map fun key => (key, gather (valuesOf key ps))

section Pairs

variable {mark : Char} {cs ds piece : List Char} {parts : List (List Char)} {p : String × String}

theorem CutAt.pieces_eq (cut : CutAt mark cs parts) : pieces mark cs = parts := by
  have whole := List.splitOn_intercalate mark cut.free cut.filled
  rwa [← cut.joined] at whole

theorem cutAt_cons_mark (cut : CutAt mark cs parts) : CutAt mark (mark :: cs) ([] :: parts) where
  joined := by
    rw [List.intercalate_cons_of_ne_nil cut.filled, cut.joined]
    rfl
  free := List.forall_mem_cons.mpr ⟨List.not_mem_nil, cut.free⟩
  filled := List.cons_ne_nil _ _

theorem exists_cutAt (mark : Char) (cs : List Char) : ∃ parts, CutAt mark cs parts := by
  induction cs with
  | nil => exact ⟨[[]], by simp, by simp, by simp⟩
  | cons c cs ih =>
    obtain ⟨parts, cut⟩ := ih
    by_cases same : c = mark
    · subst same
      exact ⟨[] :: parts, cutAt_cons_mark cut⟩
    · obtain ⟨first, rest, rfl⟩ := List.exists_cons_of_ne_nil cut.filled
      refine ⟨(c :: first) :: rest, ?_, ?_, by simp⟩
      · rw [cut.joined]
        cases rest <;> simp [List.intercalate]
      · obtain ⟨head, others⟩ := List.forall_mem_cons.mp cut.free
        refine List.forall_mem_cons.mpr ⟨?_, others⟩
        rw [List.mem_cons, not_or]
        exact ⟨fun other => same other.symm, head⟩

theorem unmarked_iff : Unmarked cs ds ↔ ds = (match cs with | '?' :: rest => rest | cs => cs) := by
  constructor
  · rintro (_ | other)
    · rfl
    · split
      · exact absurd rfl other
      · rfl
  · rintro rfl
    split
    · exact .marked
    · next rest other =>
      refine .plain fun head => ?_
      obtain ⟨tail, rfl⟩ := List.head?_eq_some_iff.mp head
      exact other tail rfl

theorem reads_iff : Reads piece p ↔ pair piece = p := by
  have without {key : List Char} (free : '=' ∉ key) : pair key = (decoded key, "") := by
    have none_ : key.dropWhile (· ≠ '=') = [] := List.dropWhile_eq_nil_iff.mpr (all_ne_of_not_mem free)
    have empty : decodeComponent [] = [] := decodeComponent_encode []
    simp only [pair, takeWhile_of_not_mem free, none_, decoded, List.drop_nil, empty,
      String.ofList_nil]
  constructor
  · rintro (⟨first, value⟩ | free)
    · exact pair_append first value
    · exact without free
  · rintro rfl
    by_cases assigned : '=' ∈ piece
    · obtain ⟨key, value, rfl, first⟩ := List.eq_append_cons_of_mem assigned
      rw [pair_append first]
      exact .assigned first value
    · rw [without assigned]
      exact .bare assigned

theorem forall₂_reads_iff {ps : List (String × String)} :
    List.Forall₂ Reads parts ps ↔ ps = parts.map pair := by
  have same : Reads = fun piece p => pair piece = p := by
    funext piece p
    exact propext reads_iff
  rw [same, ← List.forall₂_map_left_iff, List.forall₂_eq_eq_eq, eq_comm]

theorem hasPairs_iff (raw : String) (ps : List (String × String)) :
    HasPairs raw ps ↔ ps = pairs raw := by
  have read {parts : List (List Char)} (cut : CutAt '&' (match raw.toList with
      | '?' :: rest => rest
      | cs => cs) parts) : (parts.filter (· ≠ [])).map pair = pairs raw := by
    have filled : (fun part : List Char => decide (part ≠ [])) = fun part => !part.isEmpty := by
      funext part
      cases part <;> rfl
    rw [filled, ← cut.pieces_eq]
    rfl
  constructor
  · rintro ⟨unmarked, cut, reads⟩
    obtain rfl := unmarked_iff.mp unmarked
    rw [forall₂_reads_iff.mp reads, read cut]
  · rintro rfl
    obtain ⟨parts, cut⟩ := exists_cutAt '&' (match raw.toList with
      | '?' :: rest => rest
      | cs => cs)
    exact .intro (unmarked_iff.mpr rfl) cut (forall₂_reads_iff.mpr (read cut).symm)

end Pairs

section Gathering

variable {key : String} {ps : List (String × String)}

theorem valuesOf_concat (key : String) (ps : List (String × String)) (p : String × String) :
    valuesOf key (ps ++ [p]) =
      if p.1 = key then valuesOf key ps ++ [p.2] else valuesOf key ps := by
  by_cases same : p.1 = key <;> simp [valuesOf, List.filter_append, same]

theorem valuesOf_eq_nil_iff : valuesOf key ps = [] ↔ key ∉ keys ps := by
  simp only [valuesOf, List.map_eq_nil_iff, List.filter_eq_nil_iff, decide_eq_true_eq, keys,
    List.mem_map, not_exists, not_and]

theorem lookup_map_names {α : Type} (value : String → α) (names : List String) (name : String) :
    (names.map fun n => (n, value n)).lookup name =
      if name ∈ names then some (value name) else none := by
  induction names with
  | nil => rfl
  | cons first rest ih =>
    rw [List.map_cons, lookup_cons, ih]
    by_cases same : name = first
    · simp [same]
    · simp [same]

theorem insertMember_map_names {α : Type} (value : String → α) {names : List String}
    (distinct : names.Nodup) (listed : key ∈ names) (new : α) :
    insertMember (names.map fun n => (n, value n)) key new =
      names.map fun n => (n, if n = key then new else value n) := by
  induction names with
  | nil => cases listed
  | cons first rest ih =>
    obtain ⟨fresh, distinct⟩ := List.nodup_cons.mp distinct
    rw [List.map_cons, List.map_cons, insertMember]
    by_cases same : first = key
    · subst same
      have others : ∀ n ∈ rest, (n, if n = first then new else value n) = (n, value n) := by
        intro n member
        rw [if_neg (ne_of_mem_of_not_mem member fresh)]
      rw [if_pos rfl, if_pos rfl, List.map_congr_left others]
    · rw [if_neg same, if_neg same, ih distinct (List.mem_of_ne_of_mem (Ne.symm same) listed)]

/-- One more value turns a string into an array, and goes to the end of an array. -/
theorem collect_of_known {members : Members} {values : List String} (filled : values ≠ [])
    (found : members.lookup key = some (gather values)) (value : String) :
    collect members key value = insertMember members key (gather (values ++ [value])) := by
  unfold collect
  rw [found]
  match values, filled with
  | [first], _ => rfl
  | first :: second :: rest, _ => simp [gather]

theorem lookup_gathered (ps : List (String × String)) (key : String) :
    (gathered ps).lookup key =
      if key ∈ keys ps then some (gather (valuesOf key ps)) else none := by
  rw [gathered, lookup_map_names fun key => gather (valuesOf key ps)]
  simp only [List.mem_eraseDups]

theorem collect_gathered (ps : List (String × String)) (p : String × String) :
    collect (gathered ps) p.1 p.2 = gathered (ps ++ [p]) := by
  have found := lookup_gathered ps p.1
  have here : valuesOf p.1 (ps ++ [p]) = valuesOf p.1 ps ++ [p.2] := by
    rw [valuesOf_concat, if_pos rfl]
  have changed {key : String} (other : key ≠ p.1) :
      gather (valuesOf key (ps ++ [p])) = gather (valuesOf key ps) := by
    rw [valuesOf_concat, if_neg other.symm]
  by_cases known : p.1 ∈ keys ps
  · have listed : p.1 ∈ (keys ps).eraseDups := List.mem_eraseDups.mpr known
    have filled : valuesOf p.1 ps ≠ [] := fun none_ => valuesOf_eq_nil_iff.mp none_ known
    rw [if_pos known] at found
    -- The key stays where it came up first, and only its entry changes.
    calc collect (gathered ps) p.1 p.2
      _ = insertMember (gathered ps) p.1 (gather (valuesOf p.1 ps ++ [p.2])) :=
        collect_of_known filled found p.2
      _ = (keys ps).eraseDups.map fun key => (key,
            if key = p.1 then gather (valuesOf p.1 ps ++ [p.2]) else gather (valuesOf key ps)) :=
        insertMember_map_names _ (nodup_eraseDups _) listed _
      _ = gathered (ps ++ [p]) := by
        rw [gathered, keys_concat, eraseDups_concat, if_pos known, ← here]
        refine List.map_congr_left fun key _ => ?_
        by_cases same : key = p.1
        · rw [if_pos same, same]
        · rw [if_neg same, changed same]
  · rw [if_neg known] at found
    have others : ∀ key ∈ (keys ps).eraseDups,
        (key, gather (valuesOf key (ps ++ [p]))) = (key, gather (valuesOf key ps)) := by
      intro key listed
      rw [changed (ne_of_mem_of_not_mem (List.mem_eraseDups.mp listed) known)]
    calc collect (gathered ps) p.1 p.2
      _ = gathered ps ++ [(p.1, .string p.2)] := by rw [collect, found]
      _ = gathered ps ++ [(p.1, gather (valuesOf p.1 (ps ++ [p])))] := by
        rw [here, valuesOf_eq_nil_iff.mpr known]
        rfl
      _ = gathered (ps ++ [p]) := by
        rw [gathered, gathered, keys_concat, eraseDups_concat, if_neg known, List.map_append,
          List.map_congr_left others, List.map_singleton]

theorem foldl_collect (ps : List (String × String)) :
    ps.foldl (fun members p => collect members p.1 p.2) [] = gathered ps := by
  -- From the other end: what a pair is put into comes from the pairs before it.
  induction ps using List.reverseRecOn with
  | nil => rfl
  | append_singleton ps p ih => rw [List.foldl_concat, ih, collect_gathered]

/-- A query is read into the distinct keys of its pairs, in the order in which they come up first,
each with its only value as a string or with all of its values as an array. -/
theorem parse_gathers (raw : String) :
    ∃ ps, (∀ qs, HasPairs raw qs ↔ qs = ps) ∧ parse raw = gathered ps :=
  ⟨pairs raw, hasPairs_iff raw, foldl_collect (pairs raw)⟩

example : parse "?a=1&%61=2&b&&a=x+y=z" =
    [("a", .array [.string "1", .string "2", .string "x y=z"]), ("b", .string "")] := by
  cbv

end Gathering

end HttpWorkflow.Query
