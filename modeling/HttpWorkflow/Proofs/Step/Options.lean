import HttpWorkflow.Proofs.Document.Reading
import HttpWorkflow.Proofs.Members.LastWins
import HttpWorkflow.Proofs.Run.History

/-! Options of steps, from the document to the requests.

A member of a document that is no field of a step is an option. Options are neither rendered nor
evaluated on the way: every request that is made of the step carries them as the document has them.
-/

set_option autoImplicit false

namespace HttpWorkflow

open Document (Data Format fields? written)

theorem Request.build_options {method : Method} {url headers payload : Json} {options : Members}
    {r : Request} (made : build method url headers payload options = .ok r) :
    r.options = options := by
  unfold build at made
  cases read : headersOf headers with
  | error e =>
    rw [read] at made
    cases made
  | ok list =>
    rw [read] at made
    simp only [bind, Except.bind, pure, Except.pure] at made
    -- Without a payload, with a body and with a query: in each case only other fields change.
    split at made
    · obtain rfl := Except.ok.inj made
      rfl
    · split at made <;>
      · obtain rfl := Except.ok.inj made
        rfl

theorem Visit.Follows.options {answers : Answers} {evaluator : Evaluator} {input : Scope}
    {past : List Visit} {v : Visit} (follows : v.Follows answers evaluator input past)
    {r : Request} (made : r ∈ v.request) : r.options = v.step.options := by
  obtain ⟨method, _, request⟩ := follows.request
  rw [request] at made
  cases built : v.step.toRequest method v.scope evaluator with
  | error e =>
    rw [built] at made
    cases made
  | ok request =>
    rw [built] at made
    obtain rfl := Option.some.inj made
    exact Request.build_options built

/-- The requests of a run are those of its visits, which are visits of the first steps. -/
theorem runLogged_requests (answers : Answers) (config : Config) (steps : StepMap) (input : Members)
    (helpers : Helpers) :
    let visits := visitsOf answers config steps input helpers
    (runLogged answers config steps input helpers).2 = visits.filterMap Visit.request ∧
      visits.map (fun v => (v.name, v.step)) = steps.steps.take visits.length ∧
      ∀ v ∈ visits, ∀ r ∈ v.request, r.options = v.step.options := by
  intro visits
  cases ready : Evaluator.ofHelpers? helpers config.maxOperations with
  | none =>
    -- Helpers that do not compile end the run before its first step.
    have idle : visits = [] := by simp only [visits, visitsOf, ready]
    rw [runLogged_of_unready ready, idle]
    exact ⟨rfl, rfl, fun _ absent => absurd absent List.not_mem_nil⟩
  | some evaluator =>
    rcases walked : walk answers evaluator (Scope.ofInput input (Query.parse config.query)) []
      steps.steps with ⟨visited, error⟩
    have same : visits = visited := visitsOf_eq ready walked
    have history := walk_history walked
    rw [runLogged_snd_of_walk ready walked, same]
    refine ⟨rfl, history.taken, fun v met r made => ?_⟩
    obtain ⟨past, later, split⟩ := List.append_of_mem met
    exact (history.follows past v later split).options made

/-- The options of a step are the members of its document that are no fields, unchanged, and all
requests for the step carry them. -/
theorem options_verbatim {format : Format} {d : Data} {s : Step}
    (read : Step.ofData? format d = some s) :
    (∃ fields given, fields? d = some fields ∧
      List.Forall₂ (fun f g => f.1 = g.1 ∧ f.2.toJson? true = some g.2) (Step.unknown fields)
        given ∧
      LastWins given s.options) ∧
    (∀ members, d = .ofJson (.object members) → (∀ m ∈ members, m.2.Proper) →
      LastWins (Step.unknown members) s.options) ∧
    (∀ name ∈ Step.fieldNames, name ∉ keys s.options) ∧
    ∀ answers config steps input helpers,
      let visits := visitsOf answers config steps input helpers
      (runLogged answers config steps input helpers).2 = visits.filterMap Visit.request ∧
        visits.map (fun v => (v.name, v.step)) = steps.steps.take visits.length ∧
        ∀ v ∈ visits, steps.get? v.name = some s → ∀ r ∈ v.request, r.options = s.options := by
  obtain ⟨fields, found, fromFields⟩ := Step.ofData?_eq_some_iff.mp read
  obtain ⟨given, values, made⟩ := Step.options?_eq_some_iff.mp fromFields.options
  have wins : LastWins given s.options := made ▸ lastWins_insertMembers given
  refine ⟨⟨fields, given, found, readNamed_eq_some_iff.mp values, wins⟩, ?_, ?_, ?_⟩
  · rintro members rfl proper
    obtain rfl := Option.some.inj ((Document.fields?_ofJson members).symm.trans found)
    have kept := Step.readNamed_unknown fun m listed => proper m (Step.mem_unknown_iff.mp listed).1
    exact Option.some.inj (values.symm.trans kept) ▸ wins
  · intro name known listed
    rw [wins.names, List.mem_eraseDups, keys_of_readNamed values] at listed
    obtain ⟨m, option, rfl⟩ := List.mem_map.mp listed
    exact (Step.mem_unknown_iff.mp option).2 known
  · intro answers config steps input helpers visits
    obtain ⟨log, taken, carried⟩ := runLogged_requests answers config steps input helpers
    refine ⟨log, taken, fun v met own r sent => ?_⟩
    -- The step of the visit is in the map under its name, and each name is there once.
    have listed : (v.name, v.step) ∈ steps.steps := by
      have visited : (v.name, v.step) ∈ visits.map fun v => (v.name, v.step) :=
        List.mem_map.mpr ⟨v, met, rfl⟩
      exact List.mem_of_mem_take (taken ▸ visited)
    have same : v.step = s :=
      Option.some.inj (((lookup_eq_some_iff_mem steps.distinct).mpr listed).symm.trans own)
    exact same ▸ carried v met r sent

/-- Options around the fields: one is given twice, and one is written like a template. -/
def tunedDocument : Data :=
  .map [(.plain "timeout", .plain "500"), (.plain "url", .text "/orders"),
    (.plain "label", .text "{page}"), (.plain "method", .plain "GET"),
    (.plain "condition", .map []),
    (.plain "retry", .map [(.plain "times", .plain "3"), (.plain "pause", .plain "~")]),
    (.plain "timeout", .plain "~")]

def tunedOptions : Members :=
  [("timeout", .null), ("label", .string "{page}"),
    ("retry", .object [("times", .int 3), ("pause", .null)])]

def tuned : Step where
  url := "/orders"
  method := "GET"
  options := tunedOptions

def tunedOnly : StepMap where
  steps := [("orders", tuned)]
  distinct := by decide

def page : Members := [("page", .int 2)]

theorem tunedOnly_sent :
    (runLogged (fun _ _ => none) {} tunedOnly page {}).2 =
      [⟨.get, "/orders", [], none, tunedOptions⟩] := by
  rw [runLogged_eq]
  cbv

theorem tuned_verbatim :
    Step.ofData? .yaml tunedDocument = some tuned ∧
      (∃ given, keys given = ["timeout", "label", "retry", "timeout"] ∧
        LastWins given tunedOptions) ∧
      (∀ name ∈ Step.fieldNames, name ∉ keys tunedOptions) ∧
      (runLogged (fun _ _ => none) {} tunedOnly page {}).2 =
        [⟨.get, "/orders", [], none, tunedOptions⟩] ∧
      ∀ answers config helpers, ∀ r ∈ (runLogged answers config tunedOnly page helpers).2,
        r.options = tunedOptions := by
  have read : Step.ofData? .yaml tunedDocument = some tuned := rfl
  obtain ⟨⟨fields, given, found, values, wins⟩, _, apart, runs⟩ := options_verbatim read
  refine ⟨read, ⟨given, ?_, wins⟩, apart, tunedOnly_sent, ?_⟩
  · obtain rfl := Option.some.inj found
    exact (keys_of_readNamed (readNamed_eq_some_iff.mpr values)).trans (by decide)
  · intro answers config helpers r sent
    obtain ⟨log, taken, carried⟩ := runs answers config tunedOnly page helpers
    rw [log] at sent
    obtain ⟨v, met, made⟩ := List.mem_filterMap.mp sent
    have visited : (v.name, v.step) ∈ tunedOnly.steps :=
      List.mem_of_mem_take (taken ▸ List.mem_map.mpr ⟨v, met, rfl⟩)
    have own : v.name = "orders" := congrArg Prod.fst (List.mem_singleton.mp visited)
    exact carried v met (own ▸ rfl) r made

end HttpWorkflow
