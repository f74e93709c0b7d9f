import HttpWorkflow.Proofs.Run.Comparison

/-! What helpers have a part in.

Bindings and functions are in sight of the URL, the headers and the payload of a step only. Objects
of `beforeFetch` and the texts of actions are evaluated without them, and keys are rendered without
any evaluation. So two runs that differ in their helpers, and meet the same outcomes nevertheless,
differ in their requests at most.
-/

set_option autoImplicit false

namespace HttpWorkflow

theorem Evaluator.plain_of_ready {helpers : Helpers} {maxOperations : Nat} {evaluator : Evaluator}
    (ready : ofHelpers? helpers maxOperations = some evaluator) :
    evaluator.plain = bare maxOperations := by
  unfold ofHelpers? at ready
  cases written : helpers.script with
  | none =>
    simp only [written, Option.bind_eq_bind, Option.bind_some] at ready
    obtain rfl := Option.some.inj ready
    rfl
  | some script =>
    simp only [written, Option.bind_eq_bind] at ready
    obtain ⟨library, _, made⟩ := Option.bind_eq_some_iff.mp ready
    obtain rfl := Option.some.inj made
    rfl

/-- Two visits of one step that are judged in the same way, each by the plain part of its
evaluator. Objects of `beforeFetch` stand in the scopes. -/
structure Visit.JudgedAlike (evaluator evaluator' : Evaluator) (v w : Visit) : Prop where
  step : v.step = w.step
  scope : v.scope.Same w.scope
  extracted : v.extracted? = w.extracted?
  succeeds : v.succeeds = w.succeeds
  goesOn : v.letsGoOn = w.letsGoOn
  action : v.action? evaluator = w.action? evaluator'

theorem Visit.Agrees.judgedAlike {evaluator evaluator' : Evaluator}
    (plain : evaluator.plain = evaluator'.plain) {v w : Visit} (agrees : v.Agrees w) :
    v.JudgedAlike evaluator evaluator' w where
  step := agrees.step
  scope := agrees.scope
  extracted := agrees.extracted?
  succeeds := agrees.succeeds
  goesOn := agrees.letsGoOn
  action := agrees.action? plain

section Walk

variable {answers answers' : Answers} {evaluator evaluator' : Evaluator} {input : Scope}

/-- Walks whose evaluators differ in their helpers agree when their outcomes do. -/
theorem walk_helpers (plain : evaluator.plain = evaluator'.plain) {rest : List (String × Step)}
    (met : ∀ (j : Nat) (v w : Visit), (walk answers evaluator input [] rest).1[j]? = some v →
      (walk answers' evaluator' input [] rest).1[j]? = some w → v.outcome = w.outcome) :
    List.Forall₂ Visit.Agrees (walk answers evaluator input [] rest).1
        (walk answers' evaluator' input [] rest).1 ∧
      (walk answers evaluator input [] rest).2 = (walk answers' evaluator' input [] rest).2 := by
  refine walk_related ?_ ?_ .nil met
  · intro v w agrees
    exact agrees.letsGoOn
  · intro past past' name s method agree outcome
    exact ⟨rfl, rfl, Visit.next_scope_same plain (fun _ => .refl _) agree name s method, outcome⟩

end Walk

section Runs

variable {answers answers' : Answers} {config : Config} {steps : StepMap} {input : Members}
  {helpers helpers' : Helpers} {evaluator evaluator' : Evaluator}

/-- Two runs whose helpers differ, and whose steps meet the same outcomes, have the same result or
the same error, and judge every visit in the same way. Their requests may differ. -/
theorem runLogged_helpers_congr
    (ready : Evaluator.ofHelpers? helpers config.maxOperations = some evaluator)
    (ready' : Evaluator.ofHelpers? helpers' config.maxOperations = some evaluator')
    (met : ∀ (j : Nat) (v w : Visit),
      (visitsOf answers config steps input helpers)[j]? = some v →
      (visitsOf answers' config steps input helpers')[j]? = some w → v.outcome = w.outcome) :
    (runLogged answers config steps input helpers).1 =
        (runLogged answers' config steps input helpers').1 ∧
      List.Forall₂ (Visit.JudgedAlike evaluator evaluator')
        (visitsOf answers config steps input helpers)
        (visitsOf answers' config steps input helpers') := by
  have plain : evaluator.plain = evaluator'.plain :=
    (Evaluator.plain_of_ready ready).trans (Evaluator.plain_of_ready ready').symm
  simp only [visitsOf, ready, ready'] at met ⊢
  obtain ⟨agree, errors⟩ := walk_helpers plain met
  constructor
  · exact runLogged_fst_congr ready ready' plain rfl (Prod.ext rfl errors.symm) agree
  · exact agree.imp fun v w pair => pair.judgedAlike plain

end Runs

/-- One call, whose URL is an expression of a name that is bound. -/
def pager : StepMap where
  steps := [("items", { url := "page", method := "GET" })]
  distinct := by decide

def pageHelpers (page : String) : Helpers where
  bindings := [("page", .string page)]

def pageEvaluator (page : String) : Evaluator :=
  ⟨.empty, [("page", .text page)], 100000⟩

def pageReply : Response := ⟨200, "\x7b\"items\": [\"map\", \"book\"]\x7d"⟩

def pageAnswers : Answers := fun _ _ => some pageReply

def pageRequest (page : String) : Request :=
  ⟨.get, Request.encodeUri (Request.urlText (.string page)), [], none, []⟩

theorem pageEvaluator_ready (page : String) :
    Evaluator.ofHelpers? (pageHelpers page) ({} : Config).maxOperations =
      some (pageEvaluator page) := rfl

theorem run?_page (page : String) :
    Script.Program.run? .empty ⟨[], [.expr (.variable "page")]⟩ [("page", .text page)]
      100000 = some (.text page) := by
  obtain ⟨fuel, rounds⟩ : ∃ fuel, Script.Program.fuel = fuel + 3 := ⟨_, rfl⟩
  unfold Script.Program.run? Script.Program.evalAll
  rw [rounds]
  simp only [Script.Program.empty, Script.Eval.executeAll]
  unfold Script.Eval.execute
  simp only []
  unfold Script.Eval.evaluate
  simp only []
  rfl

theorem execute_page (page : String) (scope : Scope) :
    (pageEvaluator page).execute (.string "page") scope = .string page := by
  have rendered : Template.renderValue (.string "page") scope = "page" := by cbv
  have unread : Json.parse? "page" = none := by cbv
  have compiled : Script.Program.compileExpression? (Expression.toScript "page") =
      some ⟨[], [.expr (.variable "page")]⟩ := by cbv
  have value : Expression.value? .empty [("page", .text page)] 100000 "page" =
      some (.string page) := by
    simp only [Expression.value?, compiled, Option.bind_eq_bind, Option.bind_some, run?_page]
    rfl
  have present : Json.isFalsy (.string "page") = false := rfl
  simp only [Evaluator.execute, present, rendered, Evaluator.evaluate, Expression.evaluate, unread,
    pageEvaluator, value, Bool.false_eq_true, if_false]
  rfl

def pageVisit (page : String) : Visit where
  name := "items"
  step := { url := "page", method := "GET" }
  scope := seen []
  request := some (pageRequest page)
  response := some pageReply

theorem pager_walk (page : String) :
    walk pageAnswers (pageEvaluator page) (Scope.ofInput [] (Query.parse "")) [] pager.steps =
      ([pageVisit page], none) := by
  have empty : Query.parse "" = [] := by cbv
  have verb : ({ url := "page", method := "GET" } : Step).verb? = some .get := by decide
  have made : ({ url := "page", method := "GET" } : Step).toRequest .get (seen [])
      (pageEvaluator page) = .ok (pageRequest page) := by
    simp only [Step.toRequest, Step.slot, execute_page]
    rfl
  have scope : ({ url := "page", method := "GET" } : Step).prepareScope
      ((Scope.ofInput [] []).withBodies []) (pageEvaluator page) = seen [] := rfl
  simp only [pager, walk, List.all_nil, if_true, verb, empty, Visit.next, List.filterMap_nil, scope,
    made]
  rfl

theorem pager_visits (page : String) :
    visitsOf pageAnswers {} pager [] (pageHelpers page) = [pageVisit page] :=
  visitsOf_eq (pageEvaluator_ready page) (pager_walk page)

theorem pager_log (page : String) :
    (runLogged pageAnswers {} pager [] (pageHelpers page)).2 = [pageRequest page] := by
  rw [runLogged_of_walk (pageEvaluator_ready page) (pager_walk page)]
  rfl

/-- The page is in the request, and not in the result. -/
theorem pager_helpers :
    (∀ page, Evaluator.ofHelpers? (pageHelpers page) ({} : Config).maxOperations =
      some (pageEvaluator page)) ∧
      (runLogged pageAnswers {} pager [] (pageHelpers "first")).1 =
        (runLogged pageAnswers {} pager [] (pageHelpers "last")).1 ∧
      (runLogged pageAnswers {} pager [] (pageHelpers "first")).2.map Request.url = ["first"] ∧
      (runLogged pageAnswers {} pager [] (pageHelpers "last")).2.map Request.url = ["last"] := by
  have met : ∀ (j : Nat) (v w : Visit),
      (visitsOf pageAnswers {} pager [] (pageHelpers "first"))[j]? = some v →
      (visitsOf pageAnswers {} pager [] (pageHelpers "last"))[j]? = some w →
      v.outcome = w.outcome := by
    simp only [pager_visits]
    intro j v w first last
    cases j with
    | zero =>
      obtain rfl := Option.some.inj first
      obtain rfl := Option.some.inj last
      rfl
    | succ j => cases first
  refine ⟨pageEvaluator_ready, ?_, ?_, ?_⟩
  · exact (runLogged_helpers_congr (pageEvaluator_ready _) (pageEvaluator_ready _) met).1
  · rw [pager_log]
    cbv
  · rw [pager_log]
    cbv

end HttpWorkflow
