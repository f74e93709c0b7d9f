import HttpWorkflow.Proofs.Run.Comparison

/-! What a run sees of the caller's input.

The scope of a step has the collected bodies under `api` in any case, and the query snapshot under
`qs` unless the input has a field of this name. So a field `api` of the input is never seen, the
query is not seen beside a field `qs`, and the order of the fields is nowhere seen.
-/

set_option autoImplicit false

namespace HttpWorkflow

/-- Two inputs that have the same fields apart from `api`, in any order. -/
structure SameFields (input input' : Members) : Prop where
  distinct : (keys input).Nodup
  distinct' : (keys input').Nodup
  fields : (input.filter (·.1 ≠ "api")).Perm (input'.filter (·.1 ≠ "api"))

theorem SameFields.lookup {input input' : Members} (same : SameFields input input')
    {name : String} (other : name ≠ "api") : input.lookup name = input'.lookup name := by
  have kept : (keys (input.filter (·.1 ≠ "api"))).Nodup :=
    same.distinct.sublist (List.filter_sublist.map _)
  rw [← lookup_filter_ne other input, ← lookup_filter_ne other input']
  exact lookup_perm kept same.fields name

theorem Scope.get?_ofInput {input : Members} (distinct : (keys input).Nodup) (query : Members)
    (name : String) :
    (ofInput input query).get? name =
      (input.lookup name).or (if name = "qs" then some (.object query) else none) := by
  unfold ofInput get?
  rw [lookup_insertMembers distinct, lookup_cons, List.lookup_nil]

/-- Once the bodies are put in, nothing tells the two inputs apart. -/
theorem SameFields.withBodies {input input' : Members} (same : SameFields input input')
    {query query' : Members} (hidden : query = query' ∨ "qs" ∈ keys input) (api : Members) :
    ((Scope.ofInput input query).withBodies api).Same
      ((Scope.ofInput input' query').withBodies api) := by
  intro name
  rw [Scope.withBodies, Scope.withBodies, Scope.get?_set, Scope.get?_set]
  by_cases reserved : name = "api"
  · rw [if_pos reserved, if_pos reserved]
  · rw [if_neg reserved, if_neg reserved, Scope.get?_ofInput same.distinct,
      Scope.get?_ofInput same.distinct', same.lookup reserved]
    rcases hidden with rfl | given
    · rfl
    · by_cases snapshot : name = "qs"
      · subst snapshot
        obtain ⟨value, found⟩ := Option.isSome_iff_exists.mp (lookup_isSome_iff.mpr given)
        rw [← same.lookup reserved, found, Option.some_or, Option.some_or]
      · rw [if_neg snapshot, if_neg snapshot]

section Walk

variable (answers : Answers) (evaluator : Evaluator) {input input' : Scope}

/-- Walks whose inputs differ only where the bodies go make the same requests. -/
theorem walk_input (inputs : ∀ api, (input.withBodies api).Same (input'.withBodies api))
    (rest : List (String × Step)) :
    List.Forall₂ (fun v w => v.Agrees w ∧ v.request = w.request)
        (walk answers evaluator input [] rest).1 (walk answers evaluator input' [] rest).1 ∧
      (walk answers evaluator input [] rest).2 = (walk answers evaluator input' [] rest).2 := by
  refine walk_related ?_ ?_ .nil (fun _ _ _ _ _ => True.intro)
  · intro v w pair
    exact pair.1.letsGoOn
  · intro past past' name s method related _
    have scopes : (Visit.next answers evaluator input past name s method).scope.Same
        (Visit.next answers evaluator input' past' name s method).scope :=
      Visit.next_scope_same rfl inputs (related.imp fun _ _ pair => pair.1) name s method
    have requests : (Visit.next answers evaluator input past name s method).request =
        (Visit.next answers evaluator input' past' name s method).request :=
      congrArg Except.toOption (s.toRequest_congr scopes method evaluator)
    have log : past.filterMap Visit.request = past'.filterMap Visit.request :=
      filterMap_of_forall₂ related fun _ _ pair => pair.2
    -- The same request after the same requests gets the same answer.
    have responses : (Visit.next answers evaluator input past name s method).response =
        (Visit.next answers evaluator input' past' name s method).response := by
      change (Visit.next answers evaluator input past name s method).request.bind _ = _
      rw [requests, log]
      rfl
    exact ⟨⟨rfl, rfl, scopes, congrArg Outcome.ofResponse? responses⟩, requests⟩

end Walk

section Runs

variable {answers : Answers} {steps : StepMap} {input input' : Members} {helpers : Helpers}

/-- A run does not depend on a field `api` of its input, nor on the order of the fields, nor on the
query when there is a field `qs`: the requests and the result stay the same. -/
theorem runLogged_input_congr (same : SameFields input input') {config : Config} {query : String}
    (hidden : config.query = query ∨ "qs" ∈ keys input) :
    runLogged answers config steps input helpers =
      runLogged answers { config with query := query } steps input' helpers := by
  -- What a script may cost is not changed with the query.
  obtain ⟨config', altered⟩ : ∃ c : Config, c = { config with query := query } := ⟨_, rfl⟩
  have limit : config'.maxOperations = config.maxOperations := by rw [altered]
  have text : config'.query = query := by rw [altered]
  rw [← altered]
  cases ready : Evaluator.ofHelpers? helpers config.maxOperations with
  | none => rw [runLogged_of_unready ready, runLogged_of_unready (limit ▸ ready)]
  | some evaluator =>
    have ready' : Evaluator.ofHelpers? helpers config'.maxOperations = some evaluator :=
      limit ▸ ready
    have shown : Query.parse config.query = Query.parse config'.query ∨ "qs" ∈ keys input :=
      hidden.imp_left fun unchanged => by rw [unchanged, text]
    obtain ⟨related, errors⟩ := walk_input answers evaluator (same.withBodies shown) steps.steps
    have agree := related.imp fun _ _ pair => pair.1
    apply Prod.ext
    · exact runLogged_fst_congr ready ready' rfl rfl (Prod.ext rfl errors.symm) agree
    · rw [runLogged_snd_of_walk ready rfl, runLogged_snd_of_walk ready' rfl]
      exact filterMap_of_forall₂ related fun _ _ pair => pair.2

end Runs

/-- One call that hands the query on. -/
def listing : StepMap where
  steps := [("items", { url := "", method := "GET", request := some (.string "\x7bqs\x7d") })]
  distinct := by decide

/-- Fields of an input that names the page itself. -/
def seventhPage : Members := [("qs", .object [("page", .string "7")]), ("user", .string "ada")]

def listingAnswers : Answers := fun _ _ => some ⟨200, "{}"⟩

theorem listing_ended :
    runLogged listingAnswers { query := "page=1" } listing seventhPage {} =
      (.ok ⟨[("items", .object [])], [], [⟨"items", .ran, some 200⟩]⟩,
        [⟨.get, "?page=7", [], none, []⟩]) := by
  rw [runLogged_eq]
  cbv

/-- The page of the input is asked for, whatever the query and a field `api` say. -/
theorem listing_input :
    SameFields seventhPage (("api", .string "mine") :: seventhPage.reverse) ∧
      runLogged listingAnswers { query := "page=2" } listing
          (("api", .string "mine") :: seventhPage.reverse) {} =
        runLogged listingAnswers { query := "page=1" } listing seventhPage {} ∧
      (runLogged listingAnswers { query := "page=2" } listing
        (("api", .string "mine") :: seventhPage.reverse) {}).2.map Request.url = ["?page=7"] := by
  have same : SameFields seventhPage (("api", .string "mine") :: seventhPage.reverse) :=
    ⟨by decide, by decide, (List.reverse_perm _).symm⟩
  have given : "qs" ∈ keys seventhPage := by decide
  have equal : runLogged listingAnswers { query := "page=1" } listing seventhPage {} =
      runLogged listingAnswers { query := "page=2" } listing
        (("api", .string "mine") :: seventhPage.reverse) {} :=
    runLogged_input_congr same (Or.inr given)
  refine ⟨same, equal.symm, ?_⟩
  rw [← equal, listing_ended]
  rfl

end HttpWorkflow
