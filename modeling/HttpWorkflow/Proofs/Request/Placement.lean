import HttpWorkflow.Proofs.Query
import HttpWorkflow.Request

/-! Where the payload of a request goes.

A payload that counts as absent leaves no trace. Any other payload is the body of a request whose
verb carries one, and goes behind the URL of a request whose verb does not. The URL is encoded as a
whole then, which leaves the query of an object as it was written.
-/

set_option autoImplicit false

namespace HttpWorkflow.Request

theorem encodeUri_question (url query : String) :
    encodeUri (url ++ "?" ++ query) = encodeUri url ++ "?" ++ encodeUri query := by
  have mark : "?".toList = ['?'] := rfl
  have split : Percent.encodeUri (url.toList ++ '?' :: query.toList) =
      Percent.encodeUri url.toList ++ '?' :: Percent.encodeUri query.toList :=
    Percent.encodeUri_append (by decide) (by decide) url.toList query.toList
  apply String.toList_inj.mp
  simp only [encodeUri, String.toList_append, String.toList_ofList, mark, List.append_assoc,
    List.singleton_append, split]

theorem encodeUri_serialize (fields : Members) :
    encodeUri (Query.serialize fields) = Query.serialize fields := by
  rw [encodeUri, Query.encodeUri_serialize, String.ofList_toList]

section Build

variable {headers : Json} {list : List (String × String)} (read : headersOf headers = .ok list)
  {method : Method} {payload : Json} (url : Json) (options : Members)
include read

theorem build_of_falsy (absent : payload.isFalsy = true) :
    build method url headers payload options =
      .ok ⟨method, encodeUri (urlText url), list, none, options⟩ := by
  simp only [build, read, absent, if_true]
  rfl

theorem build_of_body (present : payload.isFalsy = false) (carries : method.carriesBody = true) :
    build method url headers payload options =
      .ok ⟨method, encodeUri (urlText url), list, some payload.stringify, options⟩ := by
  simp only [build, read, present, carries, Bool.false_eq_true, if_false, if_true]
  rfl

theorem build_of_query (present : payload.isFalsy = false) (bare : method.carriesBody = false) :
    build method url headers payload options =
      .ok ⟨method, encodeUri (urlText url) ++ "?" ++ encodeUri (queryText payload), list, none,
        options⟩ := by
  simp only [build, read, present, bare, Bool.false_eq_true, if_false, encodeUri_question]
  rfl

end Build

theorem carriesBody_of_mem {method : Method} (listed : method ∈ [.post, .put, .patch]) :
    method.carriesBody = true := by
  simp only [List.mem_cons, List.not_mem_nil, or_false] at listed
  rcases listed with rfl | rfl | rfl <;> rfl

theorem not_carriesBody_of_mem {method : Method} (listed : method ∈ [.get, .delete]) :
    method.carriesBody = false := by
  simp only [List.mem_cons, List.not_mem_nil, or_false] at listed
  rcases listed with rfl | rfl <;> rfl

/-- A payload is sent as a whole. With a body it is the body. Without one, the keys of an object and
the texts of its values can be read off the query behind the URL, in their order. -/
theorem build_keeps_payload {headers : Json} {list : List (String × String)}
    (read : headersOf headers = .ok list) (method : Method) (url payload : Json)
    (options : Members) :
    ∃ r, build method url headers payload options = .ok r ∧ r.method = method ∧
      r.headers = list ∧ r.options = options ∧
      (payload.isFalsy = true → r.body = none ∧ r.url = encodeUri (urlText url)) ∧
      (payload.isFalsy = false → method ∈ [.post, .put, .patch] →
        r.body = some payload.stringify ∧ r.url = encodeUri (urlText url)) ∧
      (payload.isFalsy = false → method ∈ [.get, .delete] → r.body = none ∧
        ∀ fields, payload = .object fields → (keys fields).Nodup →
          ∃ query, encodeUri query = query ∧
            r.url = encodeUri (urlText url) ++ "?" ++ query ∧
            Query.parse query = fields.map fun m => (m.1, .string (Query.display m.2))) := by
  cases falsy : payload.isFalsy with
  | true =>
    refine ⟨_, build_of_falsy read url options falsy, rfl, rfl, rfl, ?_, ?_, ?_⟩
    · exact fun _ => ⟨rfl, rfl⟩
    · exact fun present => absurd present (by decide)
    · exact fun present => absurd present (by decide)
  | false =>
    cases carries : method.carriesBody with
    | true =>
      refine ⟨_, build_of_body read url options falsy carries, rfl, rfl, rfl, ?_, ?_, ?_⟩
      · exact fun absent => absurd absent (by decide)
      · exact fun _ _ => ⟨rfl, rfl⟩
      · intro _ listed
        rw [not_carriesBody_of_mem listed] at carries
        cases carries
    | false =>
      refine ⟨_, build_of_query read url options falsy carries, rfl, rfl, rfl, ?_, ?_, ?_⟩
      · exact fun absent => absurd absent (by decide)
      · intro _ listed
        rw [carriesBody_of_mem listed] at carries
        cases carries
      · refine fun _ _ => ⟨rfl, ?_⟩
        rintro fields rfl distinct
        refine ⟨Query.serialize fields, encodeUri_serialize fields, ?_, ?_⟩
        · rw [queryText, encodeUri_serialize]
        · exact Query.parse_serialize distinct

/-- Marks of URL syntax and an escape in the values, and in one of the keys. -/
def searchFields : Members := [("term", .string "a b&c=1?%41+\x7b"), ("größe", .int 2)]

theorem search_keeps_payload :
    headersOf .null = .ok [] ∧ (Json.object searchFields).isFalsy = false ∧
      (keys searchFields).Nodup ∧
      ∃ r query, build .get (.string "/shop/100%") .null (.object searchFields) [] = .ok r ∧
        r.url = encodeUri "/shop/100%" ++ "?" ++ query ∧
        Query.parse query = [("term", .string "a b&c=1?%41+\x7b"), ("größe", .string "2")] := by
  have read : headersOf .null = .ok [] := rfl
  have present : (Json.object searchFields).isFalsy = false := rfl
  have distinct : (keys searchFields).Nodup := by decide
  obtain ⟨r, made, _, _, _, _, _, places⟩ :=
    build_keeps_payload read .get (.string "/shop/100%") (.object searchFields) []
  obtain ⟨query, _, url, fields⟩ :=
    (places present List.mem_cons_self).2 searchFields rfl distinct
  exact ⟨read, present, distinct, r, query, made, url, fields⟩

end HttpWorkflow.Request
