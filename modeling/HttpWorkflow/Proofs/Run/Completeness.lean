import HttpWorkflow.Proofs.Members
import HttpWorkflow.Proofs.Run.History

/-! What a run without actions says about its data.

A failure is reported when the table of its step picks an entry with an action. The bodies of all
steps are there when the run has no action and every failure was reported. A table that answers
any failure has a default entry and an action in each of its entries; without such tables a step
can fail in silence, and then a run without actions lacks bodies.
-/

set_option autoImplicit false

namespace HttpWorkflow

namespace ConditionEntry

/-- Whether the entry gives an action. -/
def acts (e : ConditionEntry) : Bool := (present e.redirect).isSome || (present e.message).isSome

theorem isSome_action? (e : ConditionEntry) (scope : Scope) (evaluator : Evaluator) :
    (e.action? scope evaluator).isSome = e.acts := by
  unfold action? acts
  cases present e.redirect with
  | some target => rfl
  | none => cases present e.message <;> rfl

end ConditionEntry

namespace ConditionTable

/-- Some entry is picked for every failure, and it gives an action. -/
structure AnswersAll (t : ConditionTable) : Prop where
  fallback : t.fallback?.isSome = true
  acts : ∀ member ∈ t.entries, member.2.acts = true

theorem mem_of_get? {t : ConditionTable} {key : String} {e : ConditionEntry}
    (found : t.get? key = some e) : ∃ member ∈ t.entries, member.2 = e := by
  obtain ⟨before, after, entries, _⟩ := List.lookup_eq_some_iff.mp found
  refine ⟨(key, e), ?_, rfl⟩
  rw [entries]
  exact List.mem_append_right _ (List.mem_cons_self ..)

theorem mem_of_select? {t : ConditionTable} {extracted : Option String} {status : Option Nat}
    {e : ConditionEntry} (selected : t.select? extracted status = some e) :
    ∃ member ∈ t.entries, member.2 = e := by
  simp only [select?, Option.or_eq_some_iff, Option.bind_eq_some_iff] at selected
  rcases selected with ⟨_, _, found⟩ | ⟨_, ⟨_, _, found⟩ | ⟨_, found⟩⟩
  all_goals exact mem_of_get? found

theorem AnswersAll.selects {t : ConditionTable} (answers : t.AnswersAll)
    (extracted : Option String) (status : Option Nat) :
    ∃ e, t.select? extracted status = some e ∧ e.acts = true := by
  have picked : (t.select? extracted status).isSome = true := by
    simp only [select?, Option.isSome_or, answers.fallback, Bool.or_true]
  obtain ⟨e, selected⟩ := Option.isSome_iff_exists.mp picked
  obtain ⟨member, listed, rfl⟩ := mem_of_select? selected
  exact ⟨member.2, selected, answers.acts member listed⟩

end ConditionTable

/-- The table of the step picks an entry with an action for this visit. -/
def Visit.Reported (v : Visit) : Prop :=
  ∃ e, v.step.condition.select? v.extracted? v.status? = some e ∧ e.acts = true

/-- A failure gives an action iff it is reported. -/
theorem Visit.action?_eq_none_iff {v : Visit} (failed : v.succeeds = false)
    (unhidden : v.step.hidesError = false) (evaluator : Evaluator) :
    v.action? evaluator = none ↔ ¬v.Reported := by
  simp only [action?, failed, unhidden, Bool.or_false, Bool.false_eq_true, if_false]
  cases selected : v.step.condition.select? v.extracted? v.status? with
  | none => simp [Reported, selected]
  | some e =>
    rw [Option.bind_some, ← Option.isSome_eq_false_iff.trans Option.isNone_iff_eq_none,
      e.isSome_action?]
    simp [Reported, selected]

/-- Every step ran and left its body. -/
structure RunResult.Complete (steps : StepMap) (r : RunResult) : Prop where
  recorded : r.records.map Record.name = steps.names
  ran : ∀ record ∈ r.records, record.state = .ran
  bodies : ∀ name ∈ steps.names, (r.api.lookup name).isSome = true

section Walk

variable {answers : Answers} {evaluator : Evaluator} {input : Scope} {steps : StepMap}
  {visits : List Visit}

theorem walk_all_succeed {rest : List (String × Step)}
    (walked : walk answers evaluator input [] rest = (visits, none))
    (success : ∀ v ∈ visits, v.succeeds = true) : visits.length = rest.length := by
  rcases length_walk walked with complete | ⟨_, halted⟩
  · exact complete
  · obtain ⟨v, visited, stops⟩ := List.all_eq_false.mp halted
    simp [Visit.letsGoOn, success v visited] at stops

/-- A result is complete iff all steps that ran succeeded. -/
theorem complete_iff (walked : walk answers evaluator input [] steps.steps = (visits, none))
    {r : RunResult} (api : r.api = visits.filterMap Visit.member?)
    (records : r.records = recordsOf steps.steps visits) :
    r.Complete steps ↔ ∀ v ∈ visits, v.succeeds = true := by
  have history := walk_history walked
  constructor
  · intro complete v visited
    have named : v.name ∈ steps.names := List.mem_map.mpr ⟨_, history.step_mem visited, rfl⟩
    -- There is a body under the name of the visit, and no other visit has this name.
    have kept := lookup_isSome_iff.mp (complete.bodies v.name named)
    exact Visit.succeeds_of_mem_keys (history.nodup_names steps.distinct) visited (api ▸ kept)
  · intro success
    have full := walk_all_succeed walked success
    refine ⟨records ▸ records_names history, ?_, ?_⟩
    · intro record listed
      rw [records, recordsOf, full, List.drop_length, List.map_nil, List.append_nil] at listed
      obtain ⟨v, _, rfl⟩ := List.mem_map.mp listed
      rfl
    · intro name named
      obtain ⟨s, listed, rfl⟩ := List.mem_map.mp named
      obtain ⟨v, visited, rfl⟩ := history.exists_visit full listed
      rw [lookup_isSome_iff, api]
      exact Visit.mem_keys_members visited (success v visited)

end Walk

section Finished

variable {answers : Answers} {config : Config} {steps : StepMap} {input : Members}
  {helpers : Helpers} {result : RunResult} {log : List Request}

/-- A run has all its data iff it has no action and all its failures were reported. -/
theorem runLogged_complete_iff (unhidden : ∀ s ∈ steps.steps, s.2.hidesError = false)
    (ended : runLogged answers config steps input helpers = (.ok result, log)) :
    (result.Complete steps ↔ result.isSuccess = true ∧
        ∀ v ∈ visitsOf answers config steps input helpers, v.succeeds = false → v.Reported) ∧
      ((∀ s ∈ steps.steps, s.2.condition.AnswersAll) → result.isSuccess = true →
        result.Complete steps) := by
  obtain ⟨evaluator, visits, ready, walked, rfl, rfl⟩ := runLogged_ok ended
  have history := walk_history walked
  rw [visitsOf_eq ready walked, complete_iff walked rfl rfl]
  -- Without actions a failure is one that was not reported, so no failure is left if all were.
  have silent (v : Visit) (visited : v ∈ visits) (failed : v.succeeds = false) :
      v.action? evaluator = none ↔ ¬v.Reported :=
    Visit.action?_eq_none_iff failed (unhidden _ (history.step_mem visited)) evaluator
  have success_iff : (visits.filterMap (·.action? evaluator)).isEmpty = true ↔
      ∀ v ∈ visits, v.action? evaluator = none := by
    rw [List.isEmpty_iff, List.filterMap_eq_nil_iff]
  have sufficient (success : ∀ v ∈ visits, v.action? evaluator = none)
      (reported : ∀ v ∈ visits, v.succeeds = false → v.Reported) :
      ∀ v ∈ visits, v.succeeds = true := by
    intro v visited
    by_contra failure
    have failed := Bool.eq_false_iff.mpr failure
    exact (silent v visited failed).mp (success v visited) (reported v visited failed)
  constructor
  · constructor
    · intro complete
      refine ⟨success_iff.mpr fun v visited => ?_, fun v visited failed => ?_⟩
      · exact v.action?_of_succeeds (complete v visited) evaluator
      · rw [complete v visited] at failed
        cases failed
    · rintro ⟨success, reported⟩
      exact sufficient (success_iff.mp success) reported
  · intro answersAll success
    apply sufficient (success_iff.mp success)
    intro v visited _
    exact (answersAll _ (history.step_mem visited)).selects _ _

def allAnswered : Answers := fun _ _ => some secondReply

def openSession : Step where
  url := "/session"
  method := "POST"
  condition := onFailure

def openProfile : Step where
  url := "/profile"
  method := "GET"
  condition := onFailure

/-- Two calls with an action for any failure. -/
def dashboard : StepMap where
  steps := [("session", openSession), ("profile", openProfile)]
  distinct := by decide

def openSessionVisit : Visit :=
  ⟨"session", openSession, seen [], some ⟨.post, "/session", [], none, []⟩, some secondReply⟩

def openProfileVisit : Visit :=
  ⟨"profile", openProfile, seen [("session", secondBody)], some ⟨.get, "/profile", [], none, []⟩,
    some secondReply⟩

theorem openSession_kept : openSessionVisit.succeeds = true ∧
    openSessionVisit.member? = some ("session", secondBody) :=
  keeps_secondReply rfl rfl rfl

theorem openProfile_kept : openProfileVisit.succeeds = true ∧
    openProfileVisit.member? = some ("profile", secondBody) :=
  keeps_secondReply rfl rfl rfl

theorem dashboard_walk : walk allAnswered (.bare 100000) start [] dashboard.steps =
    ([openSessionVisit, openProfileVisit], none) := by
  have session : Visit.next allAnswered (.bare 100000) start [] "session" openSession .post =
      openSessionVisit :=
    start_next rfl rfl rfl rfl rfl rfl
  have profile : Visit.next allAnswered (.bare 100000) start [openSessionVisit] "profile"
      openProfile .get = openProfileVisit := by
    have known : [openSessionVisit].filterMap Visit.member? = [("session", secondBody)] :=
      List.filterMap_cons_some openSession_kept.2
    exact start_next rfl rfl rfl rfl known rfl
  refine walk_cons rfl (by decide : openSession.verb? = some .post) session ?_
  refine walk_cons ?_ (by decide : openProfile.verb? = some .get) profile rfl
  simp [Visit.letsGoOn, openSession_kept.1]

def dashboardResult : RunResult where
  api := [("session", secondBody), ("profile", secondBody)]
  actions := []
  records := [⟨"session", .ran, some 200⟩, ⟨"profile", .ran, some 200⟩]

def dashboardLog : List Request :=
  [⟨.post, "/session", [], none, []⟩, ⟨.get, "/profile", [], none, []⟩]

theorem dashboard_ended :
    runLogged allAnswered {} dashboard [] {} = (.ok dashboardResult, dashboardLog) := by
  have walked : walk allAnswered (.bare 100000) (Scope.ofInput [] (Query.parse ({} : Config).query))
      [] dashboard.steps = ([openSessionVisit, openProfileVisit], none) := dashboard_walk
  have session := Visit.action?_of_succeeds openSession_kept.1 (.bare 100000)
  have profile := Visit.action?_of_succeeds openProfile_kept.1 (.bare 100000)
  rw [runLogged_of_walk bare_ready walked]
  simp only [List.filterMap_cons, List.filterMap_nil, openSession_kept.2, openProfile_kept.2,
    session, profile]
  rfl

theorem onFailure_answersAll : onFailure.AnswersAll where
  fallback := rfl
  acts := by decide

theorem dashboard_complete :
    runLogged allAnswered {} dashboard [] {} = (.ok dashboardResult, dashboardLog) ∧
      (∀ s ∈ dashboard.steps, s.2.hidesError = false) ∧ dashboardResult.Complete dashboard := by
  have unhidden : ∀ s ∈ dashboard.steps, s.2.hidesError = false := by decide
  have answersAll : ∀ s ∈ dashboard.steps, s.2.condition.AnswersAll := by
    intro s listed
    rcases List.mem_pair.mp listed with rfl | rfl <;> exact onFailure_answersAll
  exact ⟨dashboard_ended, unhidden,
    (runLogged_complete_iff unhidden dashboard_ended).2 answersAll rfl⟩

def firstOnly : Answers := fun log _ => if log.isEmpty then some ⟨200, "{}"⟩ else none

/-- A login with an action for one status, and a call without any. -/
def profilePage : StepMap where
  steps := [
    ("login", { url := "/login", method := "POST", condition := { entries :=
      [("401", { message := some (.string "Invalid credentials") })] } }),
    ("profile", { url := "/profile", method := "GET" })]
  distinct := by decide

def profilePageResult : RunResult where
  api := [("login", .object [])]
  actions := []
  records := [⟨"login", .ran, some 200⟩, ⟨"profile", .ran, none⟩]

def profilePageLog : List Request :=
  [⟨.post, "/login", [], none, []⟩, ⟨.get, "/profile", [], none, []⟩]

/-- No response and no entry: the run has no action, and there is no profile to show. -/
theorem profilePage_incomplete :
    runLogged firstOnly {} profilePage [] {} = (.ok profilePageResult, profilePageLog) ∧
      (∀ s ∈ profilePage.steps, s.2.hidesError = false) ∧ profilePageResult.isSuccess = true ∧
      profilePageResult.api.lookup "profile" = none ∧ ¬profilePageResult.Complete profilePage := by
  have absent : profilePageResult.api.lookup "profile" = none := by decide
  refine ⟨?_, by decide, rfl, absent, ?_⟩
  · rw [runLogged_eq]
    cbv
  · intro complete
    have present := complete.bodies "profile" (by decide)
    rw [absent] at present
    cases present

end Finished

end HttpWorkflow
