import HttpWorkflow.Proofs.Run.History

/-! The entry that an action comes from.

A table is searched in two ways: the error test looks at one key only, and the selection of an
entry falls back from the extracted value to the status and to the default. On an error both find
the same entry, so a JSON body is ruled on by the entry at its own key and by no other. Without a
JSON body there is no test, and the entry is that of the status or the default, whether it proceeds
or not.
-/

set_option autoImplicit false

namespace HttpWorkflow

namespace ConditionTable

/-- The entry at the key of a response: the extracted value when there is one, else the status. -/
def own? (t : ConditionTable) (extracted : Option String) (status : Nat) : Option ConditionEntry :=
  match extracted with
  | some v => t.get? v
  | none => t.forStatus? status

variable {t : ConditionTable} {extracted : Option String} {status : Nat}

theorem isError_eq :
    t.isError extracted status = (t.own? extracted status).any fun e => !e.proceeds := by
  cases extracted with
  | some v =>
    simp only [isError, own?]
    cases t.get? v <;> rfl
  | none =>
    simp only [isError, own?]
    cases t.forStatus? status <;> rfl

theorem isError_iff :
    t.isError extracted status = true ↔
      ∃ e, t.own? extracted status = some e ∧ e.proceeds = false := by
  rw [isError_eq, Option.any_eq_true]
  simp only [Bool.not_eq_true']

/-- Selection stops at the entry of the key, so that it falls back only when there is none. -/
theorem select?_of_own? {e : ConditionEntry} (found : t.own? extracted status = some e) :
    t.select? extracted (some status) = some e := by
  cases extracted with
  | some v =>
    have listed : t.get? v = some e := found
    simp only [select?, Option.bind_some, listed, Option.some_or]
  | none =>
    have listed : t.forStatus? status = some e := found
    simp only [select?, Option.bind_none, Option.none_or, Option.bind_some, listed, Option.some_or]

end ConditionTable

namespace Visit

/-- The entry that rules on what a visit came to, if that is a failure. -/
def ruling? (v : Visit) : Option ConditionEntry :=
  match v.response with
  | none => v.step.condition.fallback?
  | some r =>
    match r.json? with
    | none => (v.step.condition.forStatus? r.status).or v.step.condition.fallback?
    | some body =>
      let key := v.step.condition.matchKey? (v.scope.withResponse v.name body)
      (v.step.condition.own? key r.status).filter fun e => !e.proceeds

variable {v : Visit}

theorem ruling?_of_succeeds (success : v.succeeds = true) : v.ruling? = none := by
  obtain ⟨name, s, scope, request, response⟩ := v
  cases response with
  | none => simp [succeeds, body?] at success
  | some r =>
    cases read : r.json? with
    | none => simp [succeeds, body?, read] at success
    | some body =>
      simp only [succeeds, body?, status?, extracted?, after, Option.bind_some, Option.map_some,
        read, Bool.not_eq_true', ConditionTable.isError_eq] at success
      simp only [ruling?, read]
      exact Option.filter_eq_none_iff.mpr fun e found => by
        simpa [found] using success

/-- A failure is ruled on by the entry that is selected for it. -/
theorem select?_eq_ruling? (failed : v.succeeds = false) :
    v.step.condition.select? v.extracted? v.status? = v.ruling? := by
  obtain ⟨name, s, scope, request, response⟩ := v
  -- Only with a JSON body has the error test been made, and it has found the entry.
  cases response with
  | none => rfl
  | some r =>
    cases read : r.json? with
    | none =>
      simp only [ruling?, extracted?, body?, status?, Option.bind_some, Option.map_some, read,
        Option.bind_none, ConditionTable.select?, Option.none_or]
    | some body =>
      simp only [succeeds, body?, status?, extracted?, after, Option.bind_some, Option.map_some,
        read, Bool.not_eq_false'] at failed
      obtain ⟨e, found, stops⟩ := ConditionTable.isError_iff.mp failed
      have kept : (some e).filter (fun e => !e.proceeds) = some e := by
        simp only [Option.filter_some, stops, Bool.not_false, if_true]
      simp only [ruling?, extracted?, after, body?, status?, Option.bind_some, Option.map_some,
        read, ConditionTable.select?_of_own? found, found, kept]

theorem action?_eq_ruling? (v : Visit) (evaluator : Evaluator) :
    v.action? evaluator =
      if v.step.hidesError then none else v.ruling?.bind fun e => e.action? v.after evaluator := by
  cases success : v.succeeds with
  | true => simp [action?_of_succeeds success, ruling?_of_succeeds success]
  | false => simp only [action?, success, Bool.false_or, select?_eq_ruling? success]

end Visit

section Finished

variable (answers : Answers) (config : Config) (steps : StepMap) (input : Members)
  (helpers : Helpers)

/-- The error test and the selection agree: what makes a response an error is the entry that is
selected for it. So the actions of a run come, step by step, from the entries that rule on what the
steps met. -/
theorem runLogged_ok_rulings :
    (∀ (t : ConditionTable) (extracted : Option String) (status : Nat),
      t.isError extracted status = true →
        ∃ e, t.own? extracted status = some e ∧ e.proceeds = false ∧
          t.select? extracted (some status) = some e) ∧
    ∀ (result : RunResult) (log : List Request),
      runLogged answers config steps input helpers = (.ok result, log) →
        ∃ evaluator visits, Evaluator.ofHelpers? helpers config.maxOperations = some evaluator ∧
          History answers evaluator (Scope.ofInput input (Query.parse config.query)) steps.steps
            visits ∧
          result.records.filter (·.state = .ran) = visits.map Visit.record ∧
          result.actions = visits.filterMap fun v =>
            if v.step.hidesError then none
            else v.ruling?.bind fun e => e.action? v.after evaluator := by
  constructor
  · intro t extracted status error
    obtain ⟨e, found, stops⟩ := ConditionTable.isError_iff.mp error
    exact ⟨e, found, stops, ConditionTable.select?_of_own? found⟩
  · intro result log ended
    obtain ⟨evaluator, visits, ready, walked, rfl, rfl⟩ := runLogged_ok ended
    refine ⟨evaluator, visits, ready, walk_history walked, filter_ran_records _ _, ?_⟩
    simp only [Visit.action?_eq_ruling?]

/-- A table that is searched for the code in a body. -/
def outcomeTable : ConditionTable where
  key := some "\x7bcode\x7d"
  entries := [("E01", { message := some (.string "\"refused\"") }),
    ("500", { message := some (.string "\"broken\""), proceeds := true }),
    ("default", { message := some (.string "\"silent\""), proceeds := true })]

def outcomeStep : Step where
  url := "/jobs"
  method := "GET"
  condition := outcomeTable
  continuesOnError := true

/-- Three calls with one table, which go on after an error. -/
def outcomeChain : StepMap where
  steps := [("first", outcomeStep), ("second", outcomeStep), ("third", outcomeStep)]
  distinct := by decide

/-- A JSON body with a code, a body that is no JSON, and no response. -/
def outcomeAnswers : Answers := fun log _ =>
  match log.length with
  | 0 => some ⟨200, "\x7b\"code\": \"E01\"\x7d"⟩
  | 1 => some ⟨500, "oops"⟩
  | _ => none

def outcomeVisit (name : String) (response : Option Response) : Visit :=
  ⟨name, outcomeStep, seen [], some ⟨.get, "/jobs", [], none, []⟩, response⟩

theorem outcome_next {past : List Visit} (known : past.filterMap Visit.member? = [])
    (name : String) :
    Visit.next outcomeAnswers (.bare 100000) start past name outcomeStep .get =
      outcomeVisit name (outcomeAnswers (past.filterMap Visit.request)
        ⟨.get, "/jobs", [], none, []⟩) :=
  start_next rfl rfl rfl rfl known rfl

def coded : Visit := outcomeVisit "first" (some ⟨200, "\x7b\"code\": \"E01\"\x7d"⟩)

def unreadable : Visit := outcomeVisit "second" (some ⟨500, "oops"⟩)

def unanswered : Visit := outcomeVisit "third" none

theorem coded_extracted : coded.extracted? = some "E01" := by
  cbv

theorem coded_failed : coded.succeeds = false := by
  cbv

theorem coded_acts : coded.action? (.bare 100000) = some (.message "refused") := by
  have said (scope : Scope) : ConditionEntry.action? { message := some (.string "\"refused\"") }
      scope (.bare 100000) = some (.message "refused") := by cbv
  rw [Visit.action?, coded_failed, coded_extracted]
  exact said _

theorem unreadable_failed : unreadable.succeeds = false := by
  cbv

theorem unreadable_acts : unreadable.action? (.bare 100000) = some (.message "broken") := by
  cbv

theorem unanswered_acts : unanswered.action? (.bare 100000) = some (.message "silent") := by
  cbv

theorem outcomeChain_walk :
    walk outcomeAnswers (.bare 100000) (Scope.ofInput [] (Query.parse ({} : Config).query)) []
      outcomeChain.steps = ([coded, unreadable, unanswered], none) := by
  have verb : outcomeStep.verb? = some .get := by decide
  have passed : coded.letsGoOn = true := Bool.or_true _
  have passed' : unreadable.letsGoOn = true := Bool.or_true _
  have first := Visit.member?_of_failed coded_failed
  have second := Visit.member?_of_failed unreadable_failed
  refine walk_cons rfl verb (outcome_next rfl "first") ?_
  refine walk_cons (by simp [passed]) verb (outcome_next ?_ "second") ?_
  · exact List.filterMap_cons_none first
  refine walk_cons (by simp [passed, passed']) verb (outcome_next ?_ "third") rfl
  exact (List.filterMap_cons_none first).trans (List.filterMap_cons_none second)

def outcomeResult : RunResult where
  api := []
  actions := [.message "refused", .message "broken", .message "silent"]
  records := [⟨"first", .ran, some 200⟩, ⟨"second", .ran, some 500⟩, ⟨"third", .ran, none⟩]

def outcomeLog : List Request := List.replicate 3 ⟨.get, "/jobs", [], none, []⟩

theorem outcomeChain_ended :
    runLogged outcomeAnswers {} outcomeChain [] {} = (.ok outcomeResult, outcomeLog) := by
  have bodies : [coded, unreadable, unanswered].filterMap Visit.member? = [] := by
    simp [Visit.member?_of_failed, coded_failed, unreadable_failed]
    rfl
  have actions : [coded, unreadable, unanswered].filterMap (·.action? (.bare 100000)) =
      outcomeResult.actions := by
    simp only [List.filterMap_cons, List.filterMap_nil, coded_acts, unreadable_acts,
      unanswered_acts]
    rfl
  rw [runLogged_of_walk bare_ready outcomeChain_walk, bodies, actions]
  rfl

theorem outcomeChain_rulings :
    runLogged outcomeAnswers {} outcomeChain [] {} = (.ok outcomeResult, outcomeLog) ∧
      coded.extracted? = some "E01" ∧ outcomeTable.isError (some "E01") 200 = true ∧
      (∃ e, outcomeTable.own? (some "E01") 200 = some e ∧ e.proceeds = false ∧
        outcomeTable.select? (some "E01") (some 200) = some e) ∧
      ∃ (evaluator : Evaluator) (visits : List Visit), visits.length = 3 ∧
        outcomeResult.actions = visits.filterMap fun v =>
          if v.step.hidesError then none
          else v.ruling?.bind fun e => e.action? v.after evaluator := by
  obtain ⟨agree, runs⟩ := runLogged_ok_rulings outcomeAnswers {} outcomeChain [] {}
  obtain ⟨evaluator, visits, _, _, ran, actions⟩ := runs _ _ outcomeChain_ended
  have error : outcomeTable.isError (some "E01") 200 = true := by decide
  have three : visits.length = 3 := by
    have count := congrArg List.length ran
    rw [List.length_map] at count
    exact count.symm
  exact ⟨outcomeChain_ended, coded_extracted, error, agree _ _ _ error, evaluator, visits, three,
    actions⟩

end Finished

end HttpWorkflow
