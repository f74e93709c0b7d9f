import HttpWorkflow.Proofs.Members
import HttpWorkflow.Proofs.Text.Percent
import HttpWorkflow.Query
import Mathlib.Data.List.TakeWhile

/-! Query strings written and read again.

A query is read from piece to piece between ampersands, so that pieces next to each other are read
apart. What is written for an object has no mark of URL syntax within its keys and values, and is
read as these keys and the texts of these values.
-/

set_option autoImplicit false

namespace HttpWorkflow.Query

section Cut

variable {mark : Char} {cs : List Char} (free : mark ∉ cs)
include free

theorem all_ne_of_not_mem : ∀ c ∈ cs, decide (c ≠ mark) = true :=
  fun _ member => decide_eq_true (ne_of_mem_of_not_mem member free)

theorem takeWhile_of_not_mem : cs.takeWhile (· ≠ mark) = cs :=
  List.takeWhile_eq_self_iff.mpr (all_ne_of_not_mem free)

theorem takeWhile_append_mark (rest : List Char) :
    (cs ++ mark :: rest).takeWhile (· ≠ mark) = cs := by
  rw [List.takeWhile_append_of_pos (all_ne_of_not_mem free)]
  simp

theorem dropWhile_append_mark (rest : List Char) :
    (cs ++ mark :: rest).dropWhile (· ≠ mark) = mark :: rest := by
  rw [List.dropWhile_append_of_pos (all_ne_of_not_mem free)]
  simp

end Cut

section Pieces

/-- The pairs of the pieces of a text, of which none is skipped at the front. -/
def piecePairs (cs : List Char) : List (String × String) :=
  ((pieces '&' cs).filter (!·.isEmpty)).map pair

theorem pairs_question (cs : List Char) : pairs (String.ofList ('?' :: cs)) = piecePairs cs := by
  simp only [pairs, String.toList_ofList, piecePairs]

theorem pairs_of_head {cs : List Char} (other : cs.head? ≠ some '?') :
    pairs (String.ofList cs) = piecePairs cs := by
  simp only [pairs, String.toList_ofList, piecePairs]
  split
  · next rest => exact absurd rfl other
  · rfl

theorem piecePairs_append (before after : List Char) :
    piecePairs (before ++ '&' :: after) = piecePairs before ++ piecePairs after := by
  unfold piecePairs pieces
  rw [List.splitOnP_append_cons before after (decide_eq_true rfl), List.filter_append,
    List.map_append]

theorem piecePairs_single {cs : List Char} (free : '&' ∉ cs) (filled : cs ≠ []) :
    piecePairs cs = [pair cs] := by
  have whole : pieces '&' cs = [cs] :=
    List.splitOnP_eq_singleton fun c member => decide_eq_false fun same => free (same ▸ member)
  rw [piecePairs, whole, List.filter_singleton, List.isEmpty_eq_false_iff.mpr filled]
  rfl

theorem pair_append {key : List Char} (free : '=' ∉ key) (value : List Char) :
    pair (key ++ '=' :: value) =
      (String.ofList (decodeComponent key), String.ofList (decodeComponent value)) := by
  simp only [pair, takeWhile_append_mark free, dropWhile_append_mark free, List.drop_succ_cons,
    List.drop_zero]

/-- Without an equals sign a piece is a key. -/
theorem pair_of_not_mem {key : List Char} (free : '=' ∉ key) :
    (pair key).1 = String.ofList (decodeComponent key) := by
  simp only [pair, takeWhile_of_not_mem free]

end Pieces

section Collected

theorem mem_keys_collect (members : Members) (key value name : String) :
    name ∈ keys (collect members key value) ↔ name = key ∨ name ∈ keys members := by
  unfold collect
  split
  · simp [keys, or_comm]
  · exact mem_keys_insertMember ..
  · exact mem_keys_insertMember ..

theorem mem_keys_foldl_collect (ps : List (String × String)) (members : Members) (name : String) :
    name ∈ keys (ps.foldl (fun members p => collect members p.1 p.2) members) ↔
      name ∈ keys ps ∨ name ∈ keys members := by
  induction ps generalizing members with
  | nil => simp [keys]
  | cons p ps ih =>
    rw [List.foldl_cons, ih, mem_keys_collect]
    simp only [keys, List.map_cons, List.mem_cons, or_left_comm, or_assoc]

/-- The keys of the object are those of the pairs. -/
theorem mem_keys_parse (raw name : String) : name ∈ keys (parse raw) ↔ name ∈ keys (pairs raw) := by
  rw [parse, mem_keys_foldl_collect]
  simp [keys]

theorem foldl_collect_of_fresh {ps : List (String × String)} {members : Members}
    (distinct : (keys members ++ keys ps).Nodup) :
    ps.foldl (fun members p => collect members p.1 p.2) members =
      members ++ ps.map fun p => (p.1, .string p.2) := by
  -- Each pair goes to the end of what is there, so the members are left open.
  induction ps generalizing members with
  | nil => simp
  | cons p ps ih =>
    have fresh : p.1 ∉ keys members := by
      intro known
      exact (List.nodup_append.mp distinct).2.2 _ known p.1 (by simp [keys]) rfl
    have added : collect members p.1 p.2 = members ++ [(p.1, .string p.2)] := by
      rw [collect, lookup_eq_none_of_not_mem fresh]
    rw [List.foldl_cons, added, ih (by simpa [keys] using distinct)]
    simp

/-- Pairs with distinct keys are the object, in their order. -/
theorem parse_of_distinct {raw : String} (distinct : (keys (pairs raw)).Nodup) :
    parse raw = (pairs raw).map fun p => (p.1, .string p.2) := by
  have fresh : (keys ([] : Members) ++ keys (pairs raw)).Nodup := distinct
  rw [parse, foldl_collect_of_fresh fresh, List.nil_append]

end Collected

section Components

/-- A component is what it was before encoding. -/
theorem decodeComponent_encode (cs : List Char) : decodeComponent (Percent.encode cs) = cs := by
  have plus : '+' ∉ Percent.encode cs := Percent.not_mem_encode (by decide) (by decide) cs
  have spaced : (Percent.encode cs).map (fun c => if c = '+' then ' ' else c) =
      Percent.encode cs := by
    conv => rhs; rw [← List.map_id (Percent.encode cs)]
    apply List.map_congr_left
    intro c member
    have other : c ≠ '+' := by
      rintro rfl
      exact plus member
    rw [if_neg other, id]
  simp only [decodeComponent, spaced, Percent.decode_encode, Utf8.decode_encode, Option.getD_some]

/-- A question mark is in no escape, and decoding keeps it. -/
theorem question_mem_decodeComponent (before after : List Char) :
    '?' ∈ decodeComponent (before ++ '?' :: after) := by
  have split : (before ++ '?' :: after).map (fun c => if c = '+' then ' ' else c) =
      before.map (fun c => if c = '+' then ' ' else c) ++
        '?' :: after.map (fun c => if c = '+' then ' ' else c) := by
    rw [List.map_append, List.map_cons]
    rfl
  unfold decodeComponent
  simp only [split]
  -- The octets of both sides are decoded apart; if one side is ill-formed, the text stays.
  rw [Utf8.encode_append, Utf8.encode_cons, Utf8.encodeChar_of_ascii (by decide),
    List.singleton_append, Percent.decode_append (by decide) (by decide)]
  cases decoded : Utf8.decode (Percent.decode (Utf8.encode (before.map _)) ++
      '?'.toNat :: Percent.decode (Utf8.encode (after.map _))) with
  | none => simp
  | some cs =>
    obtain ⟨left, right, _, _, rfl⟩ := Utf8.decode_append (by decide) decoded
    rw [Option.getD_some, Char.ofNat_toNat]
    exact List.mem_append_right _ List.mem_cons_self

end Components

section Written

/-- A field as it stands in a query. -/
def field (member : String × Json) : List Char :=
  Percent.encode member.1.toList ++ '=' :: Percent.encode (display member.2).toList

theorem mem_field {member : String × Json} {c : Char} (inside : c ∈ field member) :
    c = '%' ∨ Percent.isUnreserved c = true ∨ c = '=' := by
  rcases List.mem_append.mp inside with key | rest
  · exact (Percent.mem_encode key).imp_right Or.inl
  · rcases List.mem_cons.mp rest with rfl | value
    · exact Or.inr (Or.inr rfl)
    · exact (Percent.mem_encode value).imp_right Or.inl

theorem not_mem_field {mark : Char}
    (other : (mark = '%' || Percent.isUnreserved mark || mark = '=') = false)
    (member : String × Json) : mark ∉ field member := by
  intro inside
  rcases mem_field inside with same | same | same <;> simp [same] at other

theorem pair_field (member : String × Json) :
    pair (field member) = (member.1, display member.2) := by
  have free : '=' ∉ Percent.encode member.1.toList :=
    Percent.not_mem_encode (by decide) (by decide) _
  rw [field, pair_append free, decodeComponent_encode, decodeComponent_encode, String.ofList_toList,
    String.ofList_toList]

theorem field_ne_nil (member : String × Json) : field member ≠ [] := by
  simp [field]

theorem toList_serialize_cons (member : String × Json) (fields : Members) :
    (serialize (member :: fields)).toList =
      if fields.isEmpty then field member
      else field member ++ '&' :: (serialize fields).toList := by
  have written (m : String × Json) :
      (encodeComponent m.1 ++ "=" ++ encodeComponent (display m.2)).toList = field m := by
    simp [encodeComponent, field]
  cases fields with
  | nil =>
    rw [serialize, List.map_singleton, String.intercalate_singleton]
    exact written member
  | cons next fields =>
    rw [serialize, List.map_cons, List.map_cons, String.intercalate_cons_cons, String.toList_append,
      String.toList_append]
    simp only [written, serialize, List.map_cons, List.isEmpty_cons, Bool.false_eq_true, if_false,
      List.append_assoc]
    rfl

theorem mem_serialize {fields : Members} {c : Char} (inside : c ∈ (serialize fields).toList) :
    c = '%' ∨ Percent.isUnreserved c = true ∨ c = '=' ∨ c = '&' := by
  induction fields with
  | nil => simp [serialize] at inside
  | cons member fields ih =>
    have one (part : c ∈ field member) :
        c = '%' ∨ Percent.isUnreserved c = true ∨ c = '=' ∨ c = '&' :=
      (mem_field part).imp_right fun other => other.imp_right Or.inl
    rw [toList_serialize_cons] at inside
    split at inside
    · exact one inside
    · rcases List.mem_append.mp inside with part | rest
      · exact one part
      · rcases List.mem_cons.mp rest with rfl | later
        · exact Or.inr (Or.inr (Or.inr rfl))
        · exact ih later

theorem not_mem_serialize {mark : Char}
    (other : (mark = '%' || Percent.isUnreserved mark || mark = '=' || mark = '&') = false)
    (fields : Members) : mark ∉ (serialize fields).toList := by
  intro inside
  rcases mem_serialize inside with same | same | same | same <;> simp [same] at other

/-- What is written is read as the keys and the texts of the values. -/
theorem piecePairs_serialize (fields : Members) :
    piecePairs (serialize fields).toList = fields.map fun m => (m.1, display m.2) := by
  have single (member : String × Json) :
      piecePairs (field member) = [(member.1, display member.2)] := by
    rw [piecePairs_single (not_mem_field (by decide) member) (field_ne_nil member), pair_field]
  induction fields with
  | nil => rfl
  | cons member fields ih =>
    rw [toList_serialize_cons]
    cases fields with
    | nil => exact single member
    | cons next fields =>
      rw [List.isEmpty_cons, if_neg Bool.false_ne_true, piecePairs_append, single, ih]
      rfl

theorem pairs_serialize (fields : Members) :
    pairs (serialize fields) = fields.map fun m => (m.1, display m.2) := by
  have other : (serialize fields).toList.head? ≠ some '?' := by
    intro head
    exact not_mem_serialize (by decide) fields (List.mem_of_head? head)
  have read := pairs_of_head other
  rwa [String.ofList_toList, piecePairs_serialize] at read

/-- An object that is written and read again has the same keys in the same order, each with the text
of its value. -/
theorem parse_serialize {fields : Members} (distinct : (keys fields).Nodup) :
    parse (serialize fields) = fields.map fun m => (m.1, .string (display m.2)) := by
  have same : keys (pairs (serialize fields)) = keys fields := by
    rw [pairs_serialize, keys_map_values fun _ v => display v]
  rw [parse_of_distinct (same ▸ distinct), pairs_serialize, List.map_map]
  rfl

/-- A query that was written can stand in a URL as it is. -/
theorem encodeUri_serialize (fields : Members) :
    Percent.encodeUri (serialize fields).toList = (serialize fields).toList := by
  have kept (member : String × Json) (rest : List Char) :
      Percent.encodeUri (field member ++ rest) = field member ++ Percent.encodeUri rest := by
    rw [field, List.append_assoc, List.cons_append, Percent.encodeUri_encode,
      Percent.encodeUri_cons_of_isUriChar (by decide), Percent.encodeUri_encode, List.append_assoc,
      List.cons_append]
  induction fields with
  | nil => rfl
  | cons member fields ih =>
    rw [toList_serialize_cons]
    split
    · have whole := kept member []
      rwa [List.append_nil, Percent.encodeUri, List.append_nil] at whole
    · rw [kept, Percent.encodeUri_cons_of_isUriChar (by decide), ih]

end Written

end HttpWorkflow.Query
