import HttpWorkflow.Proofs.Path
import Mathlib.Data.List.TakeWhile

/-! Paths written down.

A segment is written after a dot or in brackets, there with quotes around it or without. However the
segments of a path are written, they are what the path is split into, and looking the path up goes
from one to the next: by the keys of objects and by the indices of arrays.
-/

set_option autoImplicit false

namespace HttpWorkflow

namespace Path

/-- What stands around a segment in brackets. -/
inductive Enclosure where
  | bare
  | double
  | single
  deriving DecidableEq, Repr

def Enclosure.mark : Enclosure → List Char
  | bare => []
  | double => ['"']
  | single => ['\'']

def Enclosure.enclose (enclosure : Enclosure) (text : List Char) : List Char :=
  '[' :: (enclosure.mark ++ text ++ enclosure.mark ++ [']'])

/-- A segment with the way it is written. -/
inductive Segment where
  | dotted (text : List Char) (filled : text ≠ []) (plain : ∀ c ∈ text, c ≠ '.' ∧ c ≠ '[')
  | bracketed (enclosure : Enclosure) (text : List Char) (inside : ']' ∉ text)
    (first : text.head? ∉ [some '"', some '\'']) (last : text.getLast? ∉ [some '"', some '\''])

namespace Segment

def text : Segment → List Char
  | dotted text _ _ => text
  | bracketed _ text _ _ _ => text

def name (segment : Segment) : String := String.ofList segment.text

/-- The segment at the beginning of a path. -/
def write : Segment → List Char
  | dotted text _ _ => text
  | bracketed enclosure text _ _ _ => enclosure.enclose text

/-- The segment after another one. -/
def writeNext : Segment → List Char
  | dotted text _ _ => '.' :: text
  | bracketed enclosure text _ _ _ => enclosure.enclose text

end Segment

def written (first : Segment) (rest : List Segment) : String :=
  String.ofList (first.write ++ rest.flatMap Segment.writeNext)

section Splitting

variable {pending text rest : List Char}

theorem flush_of_ne_nil (filled : pending ≠ []) : flush pending = [pending] := by
  rw [flush, List.isEmpty_eq_false_iff.mpr filled, if_neg Bool.false_ne_true]

theorem segmentsFrom_plain (plain : ∀ c ∈ text, c ≠ '.' ∧ c ≠ '[') (pending rest : List Char) :
    segmentsFrom pending (text ++ rest) = segmentsFrom (pending ++ text) rest := by
  induction text generalizing pending with
  | nil => rw [List.nil_append, List.append_nil]
  | cons c text ih =>
    obtain ⟨⟨noDot, noBracket⟩, plain⟩ := List.forall_mem_cons.mp plain
    rw [List.cons_append, segmentsFrom, ih plain, List.append_assoc, List.singleton_append]
    · exact noDot
    · exact noBracket

theorem bracket_append (inside : ']' ∉ text) (rest : List Char) :
    bracket (text ++ ']' :: rest) = (text, rest) := by
  induction text with
  | nil => rfl
  | cons c text ih =>
    obtain ⟨other, inside⟩ := List.ne_and_not_mem_of_not_mem_cons inside
    rw [List.cons_append, bracket, ih inside]
    exact fun same => other same.symm

theorem isQuote_of_mem_mark (enclosure : Enclosure) : ∀ c ∈ enclosure.mark, isQuote c = true := by
  cases enclosure <;> simp [Enclosure.mark, isQuote]

theorem dropQuotes_of_head (first : text.head? ∉ [some '"', some '\'']) :
    text.dropWhile isQuote = text := by
  cases text with
  | nil => rfl
  | cons c text =>
    have plain : isQuote c = false := by simpa [isQuote] using first
    rw [List.dropWhile_cons_of_neg (by rw [plain]; exact Bool.false_ne_true)]

/-- The quotes around a segment are taken off, and none of its own. -/
theorem trimQuotes_enclosed (enclosure : Enclosure) (first : text.head? ∉ [some '"', some '\''])
    (last : text.getLast? ∉ [some '"', some '\'']) :
    trimQuotes (enclosure.mark ++ text ++ enclosure.mark) = text := by
  have quotes := isQuote_of_mem_mark enclosure
  have reversed : ∀ c ∈ enclosure.mark.reverse, isQuote c = true :=
    fun c member => quotes c (List.mem_reverse.mp member)
  by_cases empty : text = []
  · subst empty
    have all : ∀ c ∈ enclosure.mark ++ [] ++ enclosure.mark, isQuote c = true := by
      intro c member
      rw [List.append_nil, List.mem_append, or_self] at member
      exact quotes c member
    rw [trimQuotes, List.dropWhile_eq_nil_iff.mpr all]
    rfl
  · have front : (text ++ enclosure.mark).dropWhile isQuote = text ++ enclosure.mark := by
      obtain ⟨c, more, rfl⟩ := List.exists_cons_of_ne_nil empty
      exact dropQuotes_of_head first
    have back : text.reverse.dropWhile isQuote = text.reverse := by
      apply dropQuotes_of_head
      rwa [List.head?_reverse]
    rw [trimQuotes, List.append_assoc, List.dropWhile_append_of_pos quotes, front,
      List.reverse_append, List.dropWhile_append_of_pos reversed, back, List.reverse_reverse]

theorem segmentsFrom_bracketed (enclosure : Enclosure) (inside : ']' ∉ text)
    (first : text.head? ∉ [some '"', some '\'']) (last : text.getLast? ∉ [some '"', some '\''])
    (pending rest : List Char) :
    segmentsFrom pending (enclosure.enclose text ++ rest) =
      flush pending ++ text :: segmentsFrom [] rest := by
  have free : ']' ∉ enclosure.mark ++ text ++ enclosure.mark := by
    cases enclosure <;> simp [Enclosure.mark, inside]
  rw [Enclosure.enclose, List.cons_append, List.append_assoc, List.singleton_append, segmentsFrom]
  simp only [bracket_append free, trimQuotes_enclosed enclosure first last]

/-- What is pending is a segment of its own when the next one begins, and at the end. -/
theorem segmentsFrom_next (pending : List Char) (rest : List Segment) :
    segmentsFrom pending (rest.flatMap Segment.writeNext) =
      flush pending ++ rest.map Segment.text := by
  -- A dotted segment is itself pending when the next one begins, so the pending text is any text.
  induction rest generalizing pending with
  | nil => simp [segmentsFrom]
  | cons segment rest ih =>
    rw [List.flatMap_cons, List.map_cons]
    cases segment with
    | dotted text filled plain =>
      rw [Segment.writeNext, List.cons_append, segmentsFrom, segmentsFrom_plain plain,
        List.nil_append, ih, flush_of_ne_nil filled]
      rfl
    | bracketed enclosure text inside first last =>
      rw [Segment.writeNext, segmentsFrom_bracketed enclosure inside first last, ih]
      rfl

/-- A path is split into the segments that it was written from. -/
theorem segments_written (first : Segment) (rest : List Segment) :
    segments (written first rest) = (first :: rest).map Segment.name := by
  have split : segmentsFrom [] (first.write ++ rest.flatMap Segment.writeNext) =
      (first :: rest).map Segment.text := by
    cases first with
    | dotted text filled plain =>
      rw [Segment.write, segmentsFrom_plain plain, segmentsFrom_next, List.nil_append,
        flush_of_ne_nil filled]
      rfl
    | bracketed enclosure text inside first last =>
      rw [Segment.write, segmentsFrom_bracketed enclosure inside first last, segmentsFrom_next]
      rfl
  rw [segments, written, String.toList_ofList, split, List.map_map]
  rfl

end Splitting

end Path

namespace Scope

/-- A path that leads from a value to another one inside it. -/
inductive Reaches : Json → List String → Json → Prop
  | here {value : Json} : Reaches value [] value
  | member {members : Members} {key : String} {value found : Json} {rest : List String}
    (holds : members.lookup key = some value) (later : Reaches value rest found) :
    Reaches (.object members) (key :: rest) found
  | item {items : List Json} {index : Nat} {value found : Json} {rest : List String}
    (bound : index < Nat.pow 2 64) (holds : items[index]? = some value)
    (later : Reaches value rest found) :
    Reaches (.array items) (toString index :: rest) found

/-- A value that has nothing under a segment. -/
inductive Blocks : Json → String → Prop
  | scalar {value : Json} (noArray : ∀ items, value ≠ .array items)
    (noObject : ∀ members, value ≠ .object members) (segment : String) : Blocks value segment
  | object {members : Members} {key : String} (absent : members.lookup key = none) :
    Blocks (.object members) key
  | array {items : List Json} {index : Nat} (short : items.length ≤ index) :
    Blocks (.array items) (toString index)

theorem index?_toString (n : Nat) :
    index? (toString n) = if n < Nat.pow 2 64 then some n else none := by
  have digits : (toString n).toList = Nat.toDigits 10 n := Nat.toList_repr
  have unsigned : ∀ rest, Nat.toDigits 10 n ≠ '+' :: rest := by
    intro rest same
    have sign : '+' ∈ Nat.toDigits 10 n := by rw [same]; exact List.mem_cons_self
    exact absurd (Nat.isDigit_of_mem_toDigits (by decide) (by decide) sign) (by decide)
  have all : (Nat.toDigits 10 n).all Char.isDigit = true :=
    List.all_eq_true.mpr fun c member => Nat.isDigit_of_mem_toDigits (by decide) (by decide) member
  have value : (Nat.toDigits 10 n).foldl (fun n c => n * 10 + (c.toNat - 48)) 0 = n := by
    have zero : '0'.toNat = 48 := rfl
    have read := Nat.ofDigitChars_ten_toDigits (n := n)
    rw [Nat.ofDigitChars_eq_foldl] at read
    simpa only [Nat.mul_comm, zero] using read
  unfold index?
  rw [digits]
  split
  · next rest same => exact absurd same (unsigned rest)
  · simp [Nat.toDigits_ne_nil, all, value]

theorem foldlM_of_reaches {value found : Json} {path : List String}
    (reaches : Reaches value path found) : path.foldlM enter value = some found := by
  induction reaches with
  | here => rfl
  | @member members key value found rest holds _ ih =>
    have inside : enter (.object members) key = some value := holds
    rw [List.foldlM_cons, inside]
    exact ih
  | @item items index value found rest bound holds _ ih =>
    have inside : enter (.array items) (toString index) = some value := by
      simp only [enter, index?_toString, if_pos bound]
      exact holds
    rw [List.foldlM_cons, inside]
    exact ih

theorem enter_of_blocks {value : Json} {segment : String} (blocks : Blocks value segment) :
    enter value segment = none := by
  cases blocks with
  | scalar noArray noObject =>
    cases value with
    | array items => exact absurd rfl (noArray items)
    | object members => exact absurd rfl (noObject members)
    | _ => rfl
  | object absent => exact absent
  | @array items index short =>
    simp only [enter, index?_toString]
    split
    · exact List.getElem?_eq_none short
    · rfl

/-- However a path is written, it is split into its segments. Looking it up gives the value that they
lead to, and nothing where they lead to a value that has nothing under the next of them. -/
theorem lookup_written_path (scope : Scope) (first : Path.Segment) (rest : List Path.Segment) :
    Path.segments (Path.written first rest) = (first :: rest).map Path.Segment.name ∧
      (∀ found, Reaches (.object scope.fields) ((first :: rest).map Path.Segment.name) found →
        scope.lookup (Path.written first rest) = some found) ∧
      (∀ front segment more met, (first :: rest).map Path.Segment.name = front ++ segment :: more →
        Reaches (.object scope.fields) front met → Blocks met segment →
        scope.lookup (Path.written first rest) = none) := by
  have split := Path.segments_written first rest
  have filled : Path.segments (Path.written first rest) ≠ [] := by
    rw [split]
    exact List.cons_ne_nil _ _
  refine ⟨split, fun found reaches => ?_, fun front segment more met parts reaches blocks => ?_⟩
  · rw [lookup_eq_foldlM filled, split, foldlM_of_reaches reaches]
  · rw [lookup_eq_foldlM filled, split, parts, List.foldlM_append, foldlM_of_reaches reaches]
    change (enter met segment).bind _ = none
    rw [enter_of_blocks blocks, Option.bind_none]

section Example

open HttpWorkflow.Path

/-- The steps of an order, one of them under a name with a dot in it. -/
def shipping : Scope :=
  ⟨[("order", .object [("ship.to", .array [.string "Paris", .null])])]⟩

def orderSegment : Segment := .dotted "order".toList (by decide) (by simp)

def shipSegment : Segment := .bracketed .double "ship.to".toList (by decide) (by decide) (by decide)

def stopSegment (n : Fin 10) : Segment :=
  .bracketed .bare (toString n.val).toList (by decide +revert) (by decide +revert) (by decide +revert)

theorem shipping_written :
    (written orderSegment [shipSegment, stopSegment 1] = "order[\"ship.to\"][1]" ∧
      shipping.lookup (written orderSegment [shipSegment, stopSegment 1]) = some .null) ∧
    shipping.lookup (written orderSegment [shipSegment, stopSegment 2]) = none := by
  have leads : Reaches (.object shipping.fields) ["order", "ship.to"]
      (.array [.string "Paris", .null]) :=
    .member rfl (.member rfl .here)
  refine ⟨⟨by decide, ?_⟩, ?_⟩
  · exact (lookup_written_path shipping orderSegment [shipSegment, stopSegment 1]).2.1 .null
      (.member rfl (.member rfl (@Reaches.item _ 1 _ _ _ (by decide) rfl .here)))
  · exact (lookup_written_path shipping orderSegment [shipSegment, stopSegment 2]).2.2
      ["order", "ship.to"] "2" [] _ rfl leads (@Blocks.array _ 2 (by decide))

end Example

end Scope

end HttpWorkflow
