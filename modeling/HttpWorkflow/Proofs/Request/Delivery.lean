import HttpWorkflow.Proofs.Request.Placement
import Mathlib

/-! Which URLs let a payload into their query.

The query of a URL is what follows its first question mark, up to a number sign. A payload is put
behind the whole URL, so it misses the query of a URL with a fragment, and runs into the last pair
of a URL that has a query already. `delivers_iff` says that these are the only URLs that lose
fields.
-/

set_option autoImplicit false

namespace HttpWorkflow.Request

section Cut

def queryChars (cs : List Char) : List Char :=
  ((cs.takeWhile (· ≠ '#')).dropWhile (· ≠ '?')).drop 1

/-- What follows the first question mark before the fragment; nothing without one. -/
def queryPart (url : String) : String := String.ofList (queryChars url.toList)

/-- A fragment and what is behind it do not belong to the query. -/
theorem queryChars_fragment {before : List Char} (free : '#' ∉ before) (after : List Char) :
    queryChars (before ++ '#' :: after) = queryChars before := by
  rw [queryChars, Query.takeWhile_append_mark free, queryChars, Query.takeWhile_of_not_mem free]

theorem queryChars_question {before after : List Char} (first : '?' ∉ before)
    (whole : '#' ∉ before ++ '?' :: after) : queryChars (before ++ '?' :: after) = after := by
  rw [queryChars, Query.takeWhile_of_not_mem whole, Query.dropWhile_append_mark first,
    List.drop_succ_cons, List.drop_zero]

theorem queryChars_of_not_mem {cs : List Char} (plain : '?' ∉ cs) : queryChars cs = [] := by
  have kept : '?' ∉ cs.takeWhile (· ≠ '#') := fun inside =>
    plain ((List.takeWhile_prefix _).subset inside)
  rw [queryChars, List.dropWhile_eq_nil_iff.mpr (Query.all_ne_of_not_mem kept), List.drop_nil]

theorem exists_last {mark : Char} {cs : List Char} (inside : mark ∈ cs) :
    ∃ before after, cs = before ++ mark :: after ∧ mark ∉ after := by
  obtain ⟨after, before, split, free⟩ := List.eq_append_cons_of_mem (List.mem_reverse.mpr inside)
  refine ⟨before.reverse, after.reverse, ?_, by simpa using free⟩
  simpa using congrArg List.reverse split

end Cut

section Merged

/-- A piece that is put behind a query is read with the last piece of that query. Whatever key this
gives was there before, or has a question mark in it. -/
theorem mem_keys_piecePairs_merged {cs piece : List Char} (free : '&' ∉ piece) {name : String}
    (listed : name ∈ keys (Query.piecePairs (cs ++ '?' :: piece))) :
    name ∈ keys (Query.piecePairs cs) ∨ '?' ∈ name.toList := by
  have last {tail : List Char} (single : '&' ∉ tail)
      (read : name ∈ keys (Query.piecePairs (tail ++ '?' :: piece))) :
      name ∈ keys (Query.piecePairs tail) ∨ '?' ∈ name.toList := by
    have whole : '&' ∉ tail ++ '?' :: piece := by simp [single, free]
    rw [Query.piecePairs_single whole (by simp), keys, List.map_singleton,
      List.mem_singleton] at read
    -- The first equals sign ends the key, and it may stand on either side of the question mark.
    by_cases valued : '=' ∈ tail
    · left
      obtain ⟨key, value, rfl, first⟩ := List.eq_append_cons_of_mem valued
      rw [List.append_assoc, List.cons_append, Query.pair_append first] at read
      rw [Query.piecePairs_single single (by simp), Query.pair_append first, read]
      exact List.mem_singleton_self _
    · right
      by_cases later : '=' ∈ piece
      · obtain ⟨key, value, rfl, first⟩ := List.eq_append_cons_of_mem later
        have joined : tail ++ '?' :: (key ++ '=' :: value) =
            (tail ++ '?' :: key) ++ '=' :: value := by
          rw [List.append_assoc, List.cons_append]
        rw [joined, Query.pair_append (by simp [valued, first])] at read
        rw [read, String.toList_ofList]
        exact Query.question_mem_decodeComponent tail key
      · rw [Query.pair_of_not_mem (by simp [valued, later])] at read
        rw [read, String.toList_ofList]
        exact Query.question_mem_decodeComponent tail piece
  by_cases several : '&' ∈ cs
  · obtain ⟨before, tail, rfl, single⟩ := exists_last several
    rw [List.append_assoc, List.cons_append, Query.piecePairs_append, keys, List.map_append,
      List.mem_append] at listed
    rw [Query.piecePairs_append, keys, List.map_append, List.mem_append]
    rcases listed with earlier | merged
    · exact Or.inl (Or.inl earlier)
    · exact (last single merged).imp_left Or.inr
  · exact last several listed

theorem mem_keys_parse_merged {own piece : List Char} (filled : own ≠ []) (free : '&' ∉ piece)
    {name : String}
    (listed : name ∈ keys (Query.parse (String.ofList (own ++ '?' :: piece)))) :
    name ∈ keys (Query.parse (String.ofList own)) ∨ '?' ∈ name.toList := by
  rw [Query.mem_keys_parse] at listed ⊢
  cases own with
  | nil => exact absurd rfl filled
  | cons c rest =>
    by_cases skipped : c = '?'
    · subst skipped
      rw [List.cons_append, Query.pairs_question] at listed
      rw [Query.pairs_question]
      exact mem_keys_piecePairs_merged free listed
    · have other : some c ≠ some '?' := fun same => skipped (Option.some.inj same)
      have headed : (c :: rest ++ '?' :: piece).head? ≠ some '?' := other
      rw [Query.pairs_of_head headed] at listed
      rw [Query.pairs_of_head (show (c :: rest).head? ≠ some '?' from other)]
      exact mem_keys_piecePairs_merged free listed

/-- Names without a question mark never run out. -/
theorem exists_fresh (names : List String) : ∃ name, name ∉ names ∧ '?' ∉ name.toList := by
  have distinct : Function.Injective fun n => String.ofList (List.replicate n 'x') := by
    intro m n same
    simpa using congrArg String.length same
  obtain ⟨_, ⟨n, rfl⟩, fresh⟩ :=
    (Set.infinite_range_of_injective distinct).exists_notMem_finset names.toFinset
  exact ⟨_, fun listed => fresh (List.mem_toFinset.mpr listed), by simp⟩

end Merged

/-- Every object arrives in the query of a request to this URL: each field of a key that the URL
does not use itself is there with the text of its value. -/
def Delivers (url : Json) : Prop :=
  ∀ method ∈ [Method.get, .delete], ∀ headers list options fields,
    headersOf headers = .ok list → fields ≠ [] → (keys fields).Nodup →
    ∃ r, build method url headers (.object fields) options = .ok r ∧
      ∀ member ∈ fields, member.1 ∉ keys (Query.parse (queryPart (urlText url))) →
        (Query.parse (queryPart r.url)).lookup member.1 = some (.string (Query.display member.2))

section Sent

variable {text query : String}

theorem toList_sent (text query : String) :
    (encodeUri text ++ "?" ++ query).toList =
      Percent.encodeUri text.toList ++ '?' :: query.toList := by
  have mark : "?".toList = ['?'] := rfl
  rw [String.toList_append, String.toList_append, encodeUri, String.toList_ofList, mark,
    List.append_assoc, List.singleton_append]

/-- Behind a fragment nothing is part of the query. -/
theorem queryPart_of_fragment {before after : List Char}
    (split : text.toList = before ++ '#' :: after) (free : '#' ∉ before) (query : String) :
    queryPart (encodeUri text ++ "?" ++ query) =
      String.ofList (queryChars (Percent.encodeUri before)) := by
  have kept : '#' ∉ Percent.encodeUri before :=
    Percent.not_mem_encodeUri (by decide) (by decide) free
  rw [queryPart, toList_sent, split, Percent.encodeUri_append (by decide) (by decide),
    List.append_assoc, List.cons_append, queryChars_fragment kept]

variable (whole : '#' ∉ text.toList) (plain : '#' ∉ query.toList)
include whole plain

theorem not_mem_sent : '#' ∉ Percent.encodeUri text.toList ++ '?' :: query.toList := by
  simp only [List.mem_append, List.mem_cons, not_or]
  exact ⟨Percent.not_mem_encodeUri (by decide) (by decide) whole, by decide, plain⟩

/-- Behind a query the payload is a part of it, with the question mark in between. -/
theorem queryPart_of_query {before own : List Char}
    (split : text.toList = before ++ '?' :: own) (first : '?' ∉ before) :
    queryPart (encodeUri text ++ "?" ++ query) =
      String.ofList (Percent.encodeUri own ++ '?' :: query.toList) := by
  have kept : '?' ∉ Percent.encodeUri before :=
    Percent.not_mem_encodeUri (by decide) (by decide) first
  have clean := not_mem_sent whole plain
  rw [split, Percent.encodeUri_append (by decide) (by decide), List.append_assoc,
    List.cons_append] at clean
  rw [queryPart, toList_sent, split, Percent.encodeUri_append (by decide) (by decide),
    List.append_assoc, List.cons_append, queryChars_question kept clean]

theorem queryPart_of_plain (asked : '?' ∉ text.toList) :
    queryPart (encodeUri text ++ "?" ++ query) = query := by
  have kept : '?' ∉ Percent.encodeUri text.toList :=
    Percent.not_mem_encodeUri (by decide) (by decide) asked
  have clean := not_mem_sent whole plain
  rw [queryPart, toList_sent, queryChars_question kept clean, String.ofList_toList]

end Sent

section Lost

variable {url : Json} (delivers : Delivers url)
include delivers

/-- A field that was delivered can be found. -/
theorem Delivers.arrives {name : String}
    (other : name ∉ keys (Query.parse (queryPart (urlText url)))) :
    name ∈ keys (Query.parse (queryPart
      (encodeUri (urlText url) ++ "?" ++ Query.serialize [(name, .null)]))) := by
  have read : headersOf .null = .ok [] := rfl
  obtain ⟨r, made, arrives⟩ := delivers .get List.mem_cons_self .null [] [] [(name, .null)] read
    (List.cons_ne_nil _ _) (List.nodup_singleton name)
  rw [build_of_query read url [] rfl rfl] at made
  obtain rfl := Except.ok.inj made
  have found := arrives _ List.mem_cons_self other
  rw [queryText, encodeUri_serialize] at found
  exact lookup_isSome_iff.mp (found ▸ rfl)

theorem Delivers.not_fragment : '#' ∉ (urlText url).toList := by
  intro fragment
  obtain ⟨before, after, split, free⟩ := List.eq_append_cons_of_mem fragment
  -- Whatever the payload is, the query is that of the text before the fragment.
  obtain ⟨name, fresh, _⟩ := exists_fresh (keys (Query.parse (queryPart (urlText url))) ++
    keys (Query.parse (String.ofList (queryChars (Percent.encodeUri before)))))
  obtain ⟨other, missing⟩ := not_or.mp (List.mem_append.not.mp fresh)
  have found := delivers.arrives other
  rw [queryPart_of_fragment split free] at found
  exact missing found

theorem Delivers.no_query : queryPart (urlText url) = "" := by
  by_cases asked : '?' ∈ (urlText url).toList
  · obtain ⟨before, own, split, first⟩ := List.eq_append_cons_of_mem asked
    have whole := delivers.not_fragment
    rw [queryPart, split, queryChars_question first (split ▸ whole)]
    by_contra filled
    have encoded : Percent.encodeUri own ≠ [] := by
      cases own with
      | nil => exact absurd rfl filled
      | cons c rest => exact Percent.encodeUri_ne_nil c rest
    -- A name of no pair of this query is not found in the query that the payload makes of it.
    obtain ⟨name, fresh, plain⟩ := exists_fresh (keys (Query.parse (queryPart (urlText url))) ++
      keys (Query.parse (String.ofList (Percent.encodeUri own))))
    obtain ⟨other, missing⟩ := not_or.mp (List.mem_append.not.mp fresh)
    have found := delivers.arrives other
    rw [queryPart_of_query whole (Query.not_mem_serialize (by decide) _) split first] at found
    have single : '&' ∉ (Query.serialize [(name, .null)]).toList := by
      rw [Query.toList_serialize_cons]
      exact Query.not_mem_field (by decide) _
    rcases mem_keys_parse_merged encoded single found with known | marked
    · exact missing known
    · exact plain marked
  · rw [queryPart, queryChars_of_not_mem asked]

end Lost

/-- Behind a text with neither a fragment nor a query of its own, a payload is the query. One
question mark at the end of the text does no harm, since readers of a query skip it. -/
theorem pairs_sent {text : String} (whole : '#' ∉ text.toList) (bare : queryPart text = "")
    (fields : Members) :
    Query.pairs (queryPart (encodeUri text ++ "?" ++ Query.serialize fields)) =
      Query.pairs (Query.serialize fields) := by
  have plain : '#' ∉ (Query.serialize fields).toList := Query.not_mem_serialize (by decide) fields
  by_cases asked : '?' ∈ text.toList
  · obtain ⟨before, own, split, first⟩ := List.eq_append_cons_of_mem asked
    rw [queryPart, split, queryChars_question first (split ▸ whole)] at bare
    have empty : own = [] := by simpa using congrArg String.toList bare
    subst empty
    rw [queryPart_of_query whole plain split first, Percent.encodeUri, List.nil_append,
      Query.pairs_question, Query.piecePairs_serialize, Query.pairs_serialize]
  · rw [queryPart_of_plain whole plain asked]

/-- The URLs to which every object is delivered are those without a fragment and without a query of
their own. -/
theorem delivers_iff (url : Json) :
    Delivers url ↔ '#' ∉ (urlText url).toList ∧ queryPart (urlText url) = "" := by
  constructor
  · intro delivers
    exact ⟨delivers.not_fragment, delivers.no_query⟩
  · rintro ⟨whole, bare⟩ method listed headers list options fields read _ distinct
    refine ⟨_, build_of_query read url options rfl (not_carriesBody_of_mem listed), ?_⟩
    have arrived : Query.parse (queryPart (encodeUri (urlText url) ++ "?" ++
        Query.serialize fields)) = fields.map fun m => (m.1, .string (Query.display m.2)) := by
      rw [Query.parse, pairs_sent whole bare, ← Query.parse, Query.parse_serialize distinct]
    intro member inside _
    rw [queryText, encodeUri_serialize, arrived]
    have kept : (keys (fields.map fun m => (m.1, Json.string (Query.display m.2)))).Nodup := by
      rw [keys_map_values fun _ v => Json.string (Query.display v)]
      exact distinct
    rw [lookup_eq_some_iff_mem kept]
    exact List.mem_map.mpr ⟨member, inside, rfl⟩

/-- The field runs into the value of the pair before it, and is lost. -/
theorem search_loses_field :
    build .get (.string "/search?lang=en") .null (.object [("q", .string "1")]) [] =
        .ok ⟨.get, "/search?lang=en?q=1", [], none, []⟩ ∧
      Query.parse (queryPart "/search?lang=en") = [("lang", .string "en")] ∧
      Query.parse (queryPart "/search?lang=en?q=1") = [("lang", .string "en?q=1")] ∧
      ¬Delivers (.string "/search?lang=en") := by
  refine ⟨by cbv, by cbv, by cbv, ?_⟩
  intro delivers
  have bare := delivers.no_query
  revert bare
  decide

end HttpWorkflow.Request
