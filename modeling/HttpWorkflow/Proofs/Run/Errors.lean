import HttpWorkflow.Proofs.Run.History

/-! What makes a run fail.

A run fails for a script that does not compile, before it sends anything, or at a step whose verb
has no support, when the steps before it let the chain come that far. A history of visits that let
the chain go on is where every walk begins, so that such a step is reached for certain.
-/

set_option autoImplicit false

namespace HttpWorkflow

theorem Evaluator.ofHelpers?_eq_none_iff {helpers : Helpers} {maxOperations : Nat} :
    Evaluator.ofHelpers? helpers maxOperations = none ↔
      ∃ script, helpers.script = some script ∧ Script.Program.compile? script = none := by
  unfold ofHelpers?
  cases written : helpers.script with
  | none => simp
  | some script => cases compiled : Script.Program.compile? script <;> simp [compiled]

section Walk

variable {answers : Answers} {evaluator : Evaluator} {input : Scope}

theorem Visit.Follows.eq_next {past : List Visit} {v : Visit}
    (follows : v.Follows answers evaluator input past) {method : Method}
    (verb : v.step.verb? = some method) :
    v = Visit.next answers evaluator input past v.name v.step method := by
  obtain ⟨name, s, scope, request, response⟩ := v
  obtain ⟨seen, ⟨method', verb', made⟩, answered⟩ := follows
  obtain rfl := Option.some.inj (verb.symm.trans verb')
  simp only at seen made answered
  simp only [Visit.next, ← seen, ← made, ← answered]

/-- An error is that of the step that is due after the visits, which all let the chain go on. -/
theorem walk_error {past visits : List Visit} {rest : List (String × Step)} {e : RunError}
    (ended : walk answers evaluator input past rest = (visits, some e)) :
    (past ++ visits).all Visit.letsGoOn = true ∧ ∃ name s,
      rest[visits.length]? = some (name, s) ∧ s.verb? = none ∧
        e = .unsupportedMethod name s.method := by
  -- Each step that is visited joins the past, so the past is left open.
  induction rest generalizing past visits with
  | nil => simp [walk] at ended
  | cons first rest ih =>
    obtain ⟨name, s⟩ := first
    cases going : past.all Visit.letsGoOn with
    | false => simp [walk, going] at ended
    | true =>
      cases verb : s.verb? with
      | none =>
        simp only [walk, going, if_true, verb, Prod.mk.injEq, Option.some.injEq] at ended
        obtain ⟨rfl, rfl⟩ := ended
        exact ⟨by rwa [List.append_nil], name, s, rfl, verb, rfl⟩
      | some method =>
        simp only [walk, going, if_true, verb, Prod.mk.injEq] at ended
        obtain ⟨rfl, ended⟩ := ended
        obtain ⟨passed, due⟩ := ih (Prod.ext rfl ended)
        refine ⟨?_, ?_⟩
        · simpa only [List.append_assoc, List.singleton_append] using passed
        · simpa only [List.length_cons, List.getElem?_cons_succ] using due

/-- Every walk begins with the visits of a history that let the chain go on. -/
theorem History.walk_take {steps : List (String × Step)} {visits : List Visit}
    (history : History answers evaluator input steps visits)
    (going : visits.all Visit.letsGoOn = true) {n : Nat} (within : n ≤ visits.length) :
    walk answers evaluator input [] steps =
      let (later, error) := walk answers evaluator input (visits.take n) (steps.drop n)
      (visits.take n ++ later, error) := by
  -- One more visit of the history is one more step of the walk, as the visits before it all go on.
  induction n with
  | zero => rfl
  | succ n ih =>
    have found : visits[n]? = some visits[n] := List.getElem?_eq_getElem within
    have follows := history.follows_of_visit found
    obtain ⟨method, verb, _⟩ := follows.request
    have passed : (visits.take n).all Visit.letsGoOn = true :=
      List.all_eq_true.mpr fun v taken => List.all_eq_true.mp going v (List.mem_of_mem_take taken)
    have due : steps.drop n = (visits[n].name, visits[n].step) :: steps.drop (n + 1) :=
      List.drop_eq_getElem?_toList_append.trans (by rw [history.step_of_visit found]; rfl)
    have next : visits.take (n + 1) = visits.take n ++ [visits[n]] := by
      rw [List.take_succ_eq_append_getElem within]
    rw [ih (Nat.le_of_succ_le within), due]
    simp only [walk, passed, if_true, verb, ← follows.eq_next verb, next, List.append_assoc,
      List.singleton_append]

/-- The walk ends at a step without support for its verb, if all visits before let it go on. -/
theorem History.walk_stuck {steps : List (String × Step)} {visits : List Visit}
    (history : History answers evaluator input steps visits)
    (going : visits.all Visit.letsGoOn = true) {name : String} {s : Step}
    (due : steps[visits.length]? = some (name, s)) (verb : s.verb? = none) :
    walk answers evaluator input [] steps =
      (visits, some (.unsupportedMethod name s.method)) := by
  have next : steps.drop visits.length = (name, s) :: steps.drop (visits.length + 1) :=
    List.drop_eq_getElem?_toList_append.trans (by rw [due]; rfl)
  rw [history.walk_take going (Nat.le_refl _), List.take_length, next]
  simp only [walk, going, if_true, verb, List.append_nil]

end Walk

section Failed

variable {answers : Answers} {config : Config} {steps : StepMap} {input : Members}
  {helpers : Helpers} {evaluator : Evaluator} {visits : List Visit} {e : RunError}
  {log : List Request}

theorem runTraced_error {t : Trace}
    (ended : runTraced answers config steps input helpers = (.error e, t)) :
    (Evaluator.ofHelpers? helpers config.maxOperations = none ∧ e = .helperScript ∧ t = {}) ∨
      ∃ evaluator visits, Evaluator.ofHelpers? helpers config.maxOperations = some evaluator ∧
        walk answers evaluator (Scope.ofInput input (Query.parse config.query)) [] steps.steps =
          (visits, some e) ∧
        t = ⟨visits.filterMap Visit.request,
          printedBy evaluator (Scope.ofInput input (Query.parse config.query)) [] visits ++
            printedLast evaluator (Scope.ofInput input (Query.parse config.query)) visits
              steps.steps[visits.length]? (some e)⟩ := by
  rw [runTraced_eq] at ended
  cases ready : Evaluator.ofHelpers? helpers config.maxOperations with
  | none =>
    simp only [ready, Prod.mk.injEq, Except.error.injEq] at ended
    exact Or.inl ⟨rfl, ended.1.symm, ended.2.symm⟩
  | some evaluator =>
    right
    simp only [ready] at ended
    rcases walked : walk answers evaluator (Scope.ofInput input (Query.parse config.query)) []
      steps.steps with ⟨visits, error⟩
    rw [walked] at ended
    cases error with
    | none => simp at ended
    | some error =>
      simp only [Prod.mk.injEq, Except.error.injEq] at ended
      obtain ⟨rfl, rfl⟩ := ended
      exact ⟨evaluator, visits, rfl, walked, rfl⟩

theorem runLogged_error (ended : runLogged answers config steps input helpers = (.error e, log)) :
    (Evaluator.ofHelpers? helpers config.maxOperations = none ∧ e = .helperScript ∧ log = []) ∨
      ∃ evaluator visits, Evaluator.ofHelpers? helpers config.maxOperations = some evaluator ∧
        walk answers evaluator (Scope.ofInput input (Query.parse config.query)) [] steps.steps =
          (visits, some e) ∧ log = visits.filterMap Visit.request := by
  rw [runLogged_eq_runTraced] at ended
  rcases traced : runTraced answers config steps input helpers with ⟨result, t⟩
  rw [traced] at ended
  cases ended
  rcases runTraced_error traced with ⟨unready, rfl, rfl⟩ | ⟨evaluator, visits, ready, walked, rfl⟩
  · exact Or.inl ⟨unready, rfl, rfl⟩
  · exact Or.inr ⟨evaluator, visits, ready, walked, rfl⟩

/-- A run fails in two ways. A script that does not compile fails it at once. Else the first step of
a verb without support fails it if all steps before succeed or let the chain go on nevertheless, and
the transport has then received the requests of the steps before. Answers, bodies, headers,
templates and expressions only decide whether that step is reached. -/
theorem runLogged_error_iff :
    runLogged answers config steps input helpers = (.error e, log) ↔
      (∃ script, helpers.script = some script ∧ Script.Program.compile? script = none ∧
        e = .helperScript ∧ log = []) ∨
      ∃ evaluator visits name s,
        Evaluator.ofHelpers? helpers config.maxOperations = some evaluator ∧
        History answers evaluator (Scope.ofInput input (Query.parse config.query)) steps.steps
          visits ∧
        (∀ v ∈ visits, v.succeeds = true ∨ v.step.continuesOnError = true) ∧
        steps.steps[visits.length]? = some (name, s) ∧ s.verb? = none ∧
        e = .unsupportedMethod name s.method ∧ log = visits.filterMap Visit.request := by
  constructor
  · intro ended
    rcases runLogged_error ended with ⟨unready, rfl, rfl⟩ | ⟨evaluator, visits, ready, walked, rfl⟩
    · obtain ⟨script, written, broken⟩ := Evaluator.ofHelpers?_eq_none_iff.mp unready
      exact Or.inl ⟨script, written, broken, rfl, rfl⟩
    · right
      obtain ⟨passed, name, s, due, verb, rfl⟩ := walk_error walked
      refine ⟨evaluator, visits, name, s, ready, walk_history walked, ?_, due, verb, rfl, rfl⟩
      intro v visited
      exact Bool.or_eq_true_iff.mp (List.all_eq_true.mp passed v visited)
  · rintro (⟨script, written, broken, rfl, rfl⟩ |
      ⟨evaluator, visits, name, s, ready, history, passed, due, verb, rfl, rfl⟩)
    · exact runLogged_of_unready (Evaluator.ofHelpers?_eq_none_iff.mpr ⟨script, written, broken⟩)
    · have going : visits.all Visit.letsGoOn = true :=
        List.all_eq_true.mpr fun v visited => Bool.or_eq_true_iff.mpr (passed v visited)
      exact runLogged_of_walk_error ready (history.walk_stuck going due verb)

end Failed

end HttpWorkflow
