import HttpWorkflow.Proofs.Run.History
import HttpWorkflow.Proofs.Scope

/-! Two runs side by side.

Visits agree when they are of one step, in scopes with the same values, and meet the same outcome.
Whatever a visit leaves in the result of a run is then the same in both, and so is the way the
chain goes on. A relation between visits that is kept from one visit to the next is kept by whole
walks, so that runs are compared one visit at a time.
-/

set_option autoImplicit false

namespace HttpWorkflow

def Outcome.body? : Outcome → Option Json
  | received _ body => some body
  | unreadable _ | failed => none

theorem Outcome.body?_ofResponse? (response : Option Response) :
    (ofResponse? response).body? = response.bind Response.json? := by
  cases response with
  | none => rfl
  | some r => cases read : r.json? <;> simp [ofResponse?, read, body?]

namespace Visit

def outcome (v : Visit) : Outcome := Outcome.ofResponse? v.response

/-- The same step, seen in scopes with the same values, with the same outcome. The requests may
differ. -/
structure Agrees (v w : Visit) : Prop where
  name : v.name = w.name
  step : v.step = w.step
  scope : v.scope.Same w.scope
  outcome : v.outcome = w.outcome

namespace Agrees

variable {v w : Visit} (agrees : v.Agrees w)
include agrees

theorem body? : v.body? = w.body? := by
  have same := congrArg Outcome.body? agrees.outcome
  rwa [Visit.outcome, Visit.outcome, Outcome.body?_ofResponse?, Outcome.body?_ofResponse?] at same

theorem status? : v.status? = w.status? := by
  have same := congrArg Outcome.status? agrees.outcome
  rwa [Visit.outcome, Visit.outcome, status?_ofResponse?, status?_ofResponse?] at same

theorem after : v.after.Same w.after := by
  unfold Visit.after
  rw [agrees.body?, agrees.name]
  cases w.body? with
  | none => exact agrees.scope
  | some body => exact agrees.scope.withResponse _ body

theorem extracted? : v.extracted? = w.extracted? := by
  simp only [Visit.extracted?, agrees.body?, agrees.step,
    ConditionTable.matchKey?_congr agrees.after]

theorem succeeds : v.succeeds = w.succeeds := by
  simp only [Visit.succeeds, agrees.body?, agrees.status?, agrees.step, agrees.extracted?]

theorem letsGoOn : v.letsGoOn = w.letsGoOn := by
  rw [Visit.letsGoOn, Visit.letsGoOn, agrees.succeeds, agrees.step]

theorem member? : v.member? = w.member? := by
  simp only [Visit.member?, agrees.succeeds, agrees.body?, agrees.name]

theorem record : v.record = w.record := by
  rw [Visit.record, Visit.record, agrees.name, agrees.status?]

theorem action? {evaluator evaluator' : Evaluator} (plain : evaluator.plain = evaluator'.plain) :
    v.action? evaluator = w.action? evaluator' := by
  simp only [Visit.action?, agrees.succeeds, agrees.step, agrees.extracted?, agrees.status?,
    ConditionEntry.action?_congr plain agrees.after]

end Agrees

end Visit

section Lists

variable {α β : Type} {R : α → α → Prop} {xs ys : List α}

theorem map_of_forall₂ {f g : α → β} (related : List.Forall₂ R xs ys)
    (same : ∀ x y, R x y → f x = g y) : xs.map f = ys.map g := by
  rw [← List.forall₂_eq_eq_eq, List.forall₂_map_left_iff, List.forall₂_map_right_iff]
  exact related.imp same

theorem filterMap_of_forall₂ {f g : α → Option β} (related : List.Forall₂ R xs ys)
    (same : ∀ x y, R x y → f x = g y) : xs.filterMap f = ys.filterMap g := by
  have mapped := congrArg (List.filterMap id) (map_of_forall₂ related same)
  rwa [List.filterMap_map, List.filterMap_map] at mapped

theorem all_of_forall₂ {p q : α → Bool} (related : List.Forall₂ R xs ys)
    (same : ∀ x y, R x y → p x = q y) : xs.all p = ys.all q := by
  have mapped := congrArg (List.all · id) (map_of_forall₂ related same)
  rwa [List.all_map, List.all_map] at mapped

end Lists

section Walk

variable {answers answers' : Answers} {evaluator evaluator' : Evaluator} {input input' : Scope}

/-- A relation that is kept from one visit to the next is kept by walks. Each new pair of visits may
be asked to have `met` something of its own. -/
theorem walk_related {R Met : Visit → Visit → Prop}
    (going : ∀ v w, R v w → v.letsGoOn = w.letsGoOn)
    (next : ∀ past past' name s method, List.Forall₂ R past past' →
      Met (.next answers evaluator input past name s method)
        (.next answers' evaluator' input' past' name s method) →
      R (.next answers evaluator input past name s method)
        (.next answers' evaluator' input' past' name s method))
    {past past' : List Visit} (related : List.Forall₂ R past past') {rest : List (String × Step)}
    (met : ∀ (j : Nat) v w, (walk answers evaluator input past rest).1[j]? = some v →
      (walk answers' evaluator' input' past' rest).1[j]? = some w → Met v w) :
    List.Forall₂ R (walk answers evaluator input past rest).1
        (walk answers' evaluator' input' past' rest).1 ∧
      (walk answers evaluator input past rest).2 =
        (walk answers' evaluator' input' past' rest).2 := by
  -- The new pair joins the two pasts, which are therefore left open.
  induction rest generalizing past past' with
  | nil => exact ⟨.nil, rfl⟩
  | cons first rest ih =>
    obtain ⟨name, s⟩ := first
    have goes := all_of_forall₂ related going
    simp only [walk, goes] at met ⊢
    cases go : past'.all Visit.letsGoOn with
    | false => exact ⟨.nil, rfl⟩
    | true =>
      cases verb : s.verb? with
      | none => exact ⟨.nil, rfl⟩
      | some method =>
        simp only [go, verb, if_true] at met ⊢
        have pair := next past past' name s method related (met 0 _ _ rfl rfl)
        obtain ⟨later, error⟩ := ih (List.rel_append related (.cons pair .nil))
          fun j => met (j + 1)
        exact ⟨.cons pair later, error⟩

/-- Pasts that agree make the next scopes the same, for evaluators that differ in their helpers and
inputs that differ where the collected bodies go. -/
theorem Visit.next_scope_same (plain : evaluator.plain = evaluator'.plain)
    (inputs : ∀ api, (input.withBodies api).Same (input'.withBodies api))
    {past past' : List Visit} (agree : List.Forall₂ Agrees past past') (name : String) (s : Step)
    (method : Method) :
    (Visit.next answers evaluator input past name s method).scope.Same
      (Visit.next answers' evaluator' input' past' name s method).scope := by
  have members : past.filterMap member? = past'.filterMap member? :=
    filterMap_of_forall₂ agree fun _ _ pair => pair.member?
  simp only [Visit.next, members]
  exact s.prepareScope_congr plain (inputs _)

end Walk

section Results

variable {answers answers' : Answers} {config config' : Config} {steps : StepMap}
  {input input' : Members} {helpers helpers' : Helpers} {evaluator evaluator' : Evaluator}

/-- Runs whose visits agree, and whose walks end in the same error if in one, have the same
result. -/
theorem runLogged_fst_congr
    (ready : Evaluator.ofHelpers? helpers config.maxOperations = some evaluator)
    (ready' : Evaluator.ofHelpers? helpers' config'.maxOperations = some evaluator')
    (plain : evaluator.plain = evaluator'.plain)
    {visits visits' : List Visit} {error : Option RunError}
    (walked : walk answers evaluator (Scope.ofInput input (Query.parse config.query)) []
      steps.steps = (visits, error))
    (walked' : walk answers' evaluator' (Scope.ofInput input' (Query.parse config'.query)) []
      steps.steps = (visits', error))
    (agree : List.Forall₂ Visit.Agrees visits visits') :
    (runLogged answers config steps input helpers).1 =
      (runLogged answers' config' steps input' helpers').1 := by
  cases error with
  | some e => rw [runLogged_of_walk_error ready walked, runLogged_of_walk_error ready' walked']
  | none =>
    -- All that a result holds is taken from the visits, and how many records are left over.
    rw [runLogged_of_walk ready walked, runLogged_of_walk ready' walked']
    simp only [filterMap_of_forall₂ agree fun _ _ pair => pair.member?,
      filterMap_of_forall₂ agree fun _ _ pair => pair.action? plain,
      recordsOf, map_of_forall₂ agree fun _ _ pair => pair.record, agree.length_eq]

end Results

end HttpWorkflow
