import HttpWorkflow.Proofs.Run.History
import HttpWorkflow.Proofs.Scope

/-! What a failed step hands on.

Two runs of the same steps are compared whose transports answer alike except at one step, which
fails in both of them and lets the chain go on. A walk uses its past only for the bodies of the
steps that succeeded and to ask whether the chain goes on, and a failed step leaves no body. So
the runs meet the same scopes, make the same requests and end in the same way at every other step.
-/

set_option autoImplicit false

namespace HttpWorkflow

section Scopes

/-- Only its own `beforeFetch` puts anything into the scope of a step. -/
theorem Step.get?_prepareScope (s : Step) (scope : Scope) (evaluator : Evaluator) {name : String}
    (other : name = "beforeFetch" → s.beforeFetch = none) :
    (s.prepareScope scope evaluator).get? name = scope.get? name := by
  unfold prepareScope
  cases template : s.beforeFetch with
  | none => rfl
  | some t =>
    have apart : name ≠ "beforeFetch" := by
      intro same
      rw [other same] at template
      cases template
    simp only
    split
    · rw [Scope.get?_set, if_neg apart]
    · rfl

end Scopes

section Walk

variable {answers₁ answers₂ : Answers} {evaluator : Evaluator} {input : Scope}

theorem Visit.next_request {past₁ past₂ : List Visit}
    (members : past₁.filterMap member? = past₂.filterMap member?) (name : String) (s : Step)
    (method : Method) :
    (Visit.next answers₁ evaluator input past₁ name s method).request =
      (Visit.next answers₂ evaluator input past₂ name s method).request := by
  simp only [Visit.next, members]

theorem Visit.next_congr {past₁ past₂ : List Visit}
    (members : past₁.filterMap member? = past₂.filterMap member?) {name : String} {s : Step}
    {method : Method}
    (answered : (Visit.next answers₁ evaluator input past₁ name s method).response =
      (Visit.next answers₂ evaluator input past₂ name s method).response) :
    Visit.next answers₁ evaluator input past₁ name s method =
      Visit.next answers₂ evaluator input past₂ name s method := by
  simp only [Visit.next, members] at answered ⊢
  rw [answered]

/-- The same answer at the same step to the same request. -/
def AlikeAt (visits₁ visits₂ : List Visit) (j : Nat) : Prop :=
  ∀ v₁ v₂, visits₁[j]? = some v₁ → visits₂[j]? = some v₂ → v₁.request = v₂.request →
    v₁.response = v₂.response

theorem AlikeAt.succ {v w : Visit} {visits₁ visits₂ : List Visit} {j : Nat}
    (alike : AlikeAt (v :: visits₁) (w :: visits₂) (j + 1)) : AlikeAt visits₁ visits₂ j := alike

theorem AlikeAt.next_eq {past₁ past₂ visits₁ visits₂ : List Visit} {name : String} {s : Step}
    {method : Method} (members : past₁.filterMap Visit.member? = past₂.filterMap Visit.member?)
    (alike : AlikeAt (Visit.next answers₁ evaluator input past₁ name s method :: visits₁)
      (Visit.next answers₂ evaluator input past₂ name s method :: visits₂) 0) :
    Visit.next answers₁ evaluator input past₁ name s method =
      Visit.next answers₂ evaluator input past₂ name s method :=
  Visit.next_congr members (alike _ _ rfl rfl (Visit.next_request members name s method))

/-- Pasts with the same members, both or neither of which let the chain go on, lead to the same
walk over transports that answer alike from there on. -/
theorem walk_congr {past₁ past₂ : List Visit} {rest : List (String × Step)}
    (members : past₁.filterMap Visit.member? = past₂.filterMap Visit.member?)
    (going : past₁.all Visit.letsGoOn = past₂.all Visit.letsGoOn)
    (alike : ∀ j, AlikeAt (walk answers₁ evaluator input past₁ rest).1
      (walk answers₂ evaluator input past₂ rest).1 j) :
    walk answers₁ evaluator input past₁ rest = walk answers₂ evaluator input past₂ rest := by
  -- The next visits are the same, so the two pasts keep the same members when these join them.
  induction rest generalizing past₁ past₂ with
  | nil => rfl
  | cons first rest ih =>
    obtain ⟨name, s⟩ := first
    simp only [walk, going] at alike ⊢
    cases goes : past₂.all Visit.letsGoOn with
    | false => rfl
    | true =>
      cases verb : s.verb? with
      | none => rfl
      | some method =>
        simp only [goes, verb, if_true] at alike ⊢
        have same := AlikeAt.next_eq members (alike 0)
        rw [same] at alike ⊢
        have next : walk answers₁ evaluator input
              (past₁ ++ [Visit.next answers₂ evaluator input past₂ name s method]) rest =
            walk answers₂ evaluator input
              (past₂ ++ [Visit.next answers₂ evaluator input past₂ name s method]) rest := by
          apply ih
          · rw [filterMap_concat, filterMap_concat, members]
          · rw [List.all_append, List.all_append, going]
          · intro j
            exact (alike (j + 1)).succ
        rw [next]

/-- A failed visit that lets the chain go on leaves nothing for the walk after it. -/
theorem walk_after_failed {past : List Visit} {v₁ v₂ : Visit} {rest : List (String × Step)}
    (failed₁ : v₁.succeeds = false) (failed₂ : v₂.succeeds = false)
    (goes₁ : v₁.letsGoOn = true) (goes₂ : v₂.letsGoOn = true)
    (alike : ∀ j, AlikeAt (walk answers₁ evaluator input (past ++ [v₁]) rest).1
      (walk answers₂ evaluator input (past ++ [v₂]) rest).1 j) :
    walk answers₁ evaluator input (past ++ [v₁]) rest =
      walk answers₂ evaluator input (past ++ [v₂]) rest := by
  apply walk_congr _ _ alike
  · simp only [filterMap_concat, Visit.member?_of_failed failed₁, Visit.member?_of_failed failed₂]
  · simp only [List.all_append, List.all_cons, goes₁, goes₂]

/-- A walk with a visit begins with that of the first step, and goes on after it. -/
theorem walk_of_visited {answers : Answers} {past visits : List Visit} {name : String} {s : Step}
    {rest : List (String × Step)} {error : Option RunError}
    (walked : walk answers evaluator input past ((name, s) :: rest) = (visits, error)) {i : Nat}
    {v : Visit} (visited : visits[i]? = some v) :
    ∃ method later, s.verb? = some method ∧
      visits = Visit.next answers evaluator input past name s method :: later ∧
      walk answers evaluator input (past ++ [Visit.next answers evaluator input past name s method])
        rest = (later, error) := by
  have none_visited : visits ≠ [] := by
    rintro rfl
    cases visited
  by_cases going : past.all Visit.letsGoOn = true
  · cases verb : s.verb? with
    | none =>
      simp only [walk, going, if_true, verb] at walked
      exact absurd (Prod.mk.inj walked).1.symm none_visited
    | some method =>
      simp only [walk, going, if_true, verb] at walked
      obtain ⟨rfl, rfl⟩ := Prod.mk.inj walked
      exact ⟨method, _, rfl, rfl, rfl⟩
  · rw [walk_halted (Bool.eq_false_iff.mpr going)] at walked
    exact absurd (Prod.mk.inj walked).1.symm none_visited

/-- Two walks over transports that answer alike but at one step, which fails in both and lets the
chain go on, differ in the response of that step only. -/
theorem walk_isolated {past visits₁ visits₂ : List Visit} {rest : List (String × Step)}
    {error₁ error₂ : Option RunError} {i : Nat} {v₁ v₂ : Visit}
    (walked₁ : walk answers₁ evaluator input past rest = (visits₁, error₁))
    (walked₂ : walk answers₂ evaluator input past rest = (visits₂, error₂))
    (alike : ∀ j, j ≠ i → AlikeAt visits₁ visits₂ j)
    (visited₁ : visits₁[i]? = some v₁) (visited₂ : visits₂[i]? = some v₂)
    (failed₁ : v₁.succeeds = false) (failed₂ : v₂.succeeds = false)
    (continues : v₁.step.continuesOnError = true) :
    ∃ earlier later, visits₁ = earlier ++ v₁ :: later ∧ visits₂ = earlier ++ v₂ :: later ∧
      earlier.length = i ∧ v₁.request = v₂.request ∧ error₁ = error₂ := by
  -- Up to the step that fails the pasts are the same; after it only their members are.
  induction rest generalizing past visits₁ visits₂ error₁ error₂ i with
  | nil =>
    obtain ⟨rfl, _⟩ := Prod.mk.inj walked₁
    simp at visited₁
  | cons first rest ih =>
    obtain ⟨name, s⟩ := first
    obtain ⟨method, later₁, verb₁, rfl, went₁⟩ := walk_of_visited walked₁ visited₁
    obtain ⟨method', later₂, verb₂, rfl, went₂⟩ := walk_of_visited walked₂ visited₂
    obtain rfl := Option.some.inj (verb₁.symm.trans verb₂)
    cases i with
    | zero =>
      obtain rfl := Option.some.inj visited₁
      obtain rfl := Option.some.inj visited₂
      have goes (answers : Answers) :
          (Visit.next answers evaluator input past name s method).letsGoOn = true :=
        Bool.or_eq_true_iff.mpr (Or.inr continues)
      have later : (later₁, error₁) = (later₂, error₂) := by
        rw [← went₁, ← went₂]
        apply walk_after_failed failed₁ failed₂ (goes _) (goes _)
        rw [went₁, went₂]
        intro j
        exact (alike (j + 1) (Nat.succ_ne_zero j)).succ
      obtain ⟨rfl, rfl⟩ := Prod.mk.inj later
      exact ⟨[], later₁, rfl, rfl, rfl, rfl, rfl⟩
    | succ i =>
      have same := AlikeAt.next_eq rfl (alike 0 (Nat.succ_ne_zero i).symm)
      rw [same] at went₁ ⊢
      have alikeLater : ∀ j, j ≠ i → AlikeAt later₁ later₂ j := by
        intro j other
        exact (alike (j + 1) (by omega)).succ
      obtain ⟨earlier, later, rfl, rfl, length, request, errors⟩ :=
        ih went₁ went₂ alikeLater visited₁ visited₂
      refine ⟨_ :: earlier, later, rfl, rfl, ?_, request, errors⟩
      rw [List.length_cons, length]

end Walk

section Lists

variable {α β : Type}

theorem getElem?_append_cons_of_ne {earlier : List α} {j : Nat} (other : j ≠ earlier.length)
    (x y : α) (later : List α) :
    (earlier ++ x :: later)[j]? = (earlier ++ y :: later)[j]? := by
  by_cases before : j < earlier.length
  · rw [List.getElem?_append_left before, List.getElem?_append_left before]
  · obtain ⟨k, rfl⟩ : ∃ k, j = earlier.length + (k + 1) := ⟨j - earlier.length - 1, by omega⟩
    simp only [List.getElem?_append_right (Nat.le_add_right _ _), Nat.add_sub_cancel_left,
      List.getElem?_cons_succ]

theorem filterMap_append_cons (f : α → Option β) (earlier : List α) (x : α) (later : List α) :
    (earlier ++ x :: later).filterMap f =
      earlier.filterMap f ++ ((f x).toList ++ later.filterMap f) := by
  cases found : f x <;> simp [found]

end Lists

section Finished

/-- The templates of a step see the fields of the caller, the bodies of the steps that succeeded
before it, and what its own `beforeFetch` gives. -/
structure Visit.SeesOnly (caller : Scope) (bodies : Members) (evaluator : Evaluator) (v : Visit) :
    Prop where
  own : v.scope = v.step.prepareScope (caller.withBodies bodies) evaluator
  api : v.scope.get? "api" = some (.object bodies)
  field : ∀ name, name ≠ "api" → (name = "beforeFetch" → v.step.beforeFetch = none) →
    v.scope.get? name = caller.get? name

theorem Visit.Follows.seesOnly {answers : Answers} {evaluator : Evaluator} {caller : Scope}
    {past : List Visit} {v : Visit} (follows : v.Follows answers evaluator caller past) :
    v.SeesOnly caller (past.filterMap Visit.member?) evaluator where
  own := follows.scope
  api := by
    have apart : "api" = "beforeFetch" → v.step.beforeFetch = none :=
      fun same => absurd same (by decide)
    rw [follows.scope, Step.get?_prepareScope _ _ _ apart, Scope.withBodies, Scope.get?_set,
      if_pos rfl]
  field := by
    intro name notApi other
    rw [follows.scope, Step.get?_prepareScope _ _ _ other, Scope.withBodies, Scope.get?_set,
      if_neg notApi]

variable {answers₁ answers₂ : Answers} {config : Config} {steps : StepMap} {input : Members}
  {helpers : Helpers} {r₁ r₂ : RunResult} {log₁ log₂ : List Request}

/-- Two runs whose transports answer alike except at one step, which fails in both and lets the
chain go on, differ in the record and in the action of this step only. No step sees what a step
before it put into its own scope, from `beforeFetch` or from the fields of a body. -/
theorem runLogged_isolated
    (ended₁ : runLogged answers₁ config steps input helpers = (.ok r₁, log₁))
    (ended₂ : runLogged answers₂ config steps input helpers = (.ok r₂, log₂)) {i : Nat}
    (alike : ∀ j, j ≠ i → AlikeAt (visitsOf answers₁ config steps input helpers)
      (visitsOf answers₂ config steps input helpers) j) {v₁ v₂ : Visit}
    (visited₁ : (visitsOf answers₁ config steps input helpers)[i]? = some v₁)
    (visited₂ : (visitsOf answers₂ config steps input helpers)[i]? = some v₂)
    (failed₁ : v₁.succeeds = false) (failed₂ : v₂.succeeds = false)
    (continues : v₁.step.continuesOnError = true) :
    log₁ = log₂ ∧ r₁.api = r₂.api ∧
      (∀ j, j ≠ i → (visitsOf answers₁ config steps input helpers)[j]? =
        (visitsOf answers₂ config steps input helpers)[j]?) ∧
      (∀ j, j ≠ i → r₁.records[j]? = r₂.records[j]?) ∧
      ∃ evaluator, Evaluator.ofHelpers? helpers config.maxOperations = some evaluator ∧
        (∃ before after,
          before = ((visitsOf answers₁ config steps input helpers).take i).filterMap
            (·.action? evaluator) ∧
          after = ((visitsOf answers₁ config steps input helpers).drop (i + 1)).filterMap
            (·.action? evaluator) ∧
          r₁.actions = before ++ ((v₁.action? evaluator).toList ++ after) ∧
          r₂.actions = before ++ ((v₂.action? evaluator).toList ++ after)) ∧
        ∀ (j : Nat) (v : Visit), (visitsOf answers₁ config steps input helpers)[j]? = some v →
          v.SeesOnly (Scope.ofInput input (Query.parse config.query))
            (((visitsOf answers₁ config steps input helpers).take j).filterMap Visit.member?)
            evaluator := by
  obtain ⟨evaluator, visits₁, ready, walked₁, rfl, rfl⟩ := runLogged_ok ended₁
  obtain ⟨evaluator', visits₂, ready', walked₂, rfl, rfl⟩ := runLogged_ok ended₂
  obtain rfl := Option.some.inj (ready.symm.trans ready')
  rw [visitsOf_eq ready walked₁] at alike visited₁ ⊢
  rw [visitsOf_eq ready walked₂] at alike visited₂ ⊢
  have history := walk_history walked₁
  have sees (j : Nat) (v : Visit) (visited : visits₁[j]? = some v) :
      v.SeesOnly (Scope.ofInput input (Query.parse config.query))
        ((visits₁.take j).filterMap Visit.member?) evaluator := by
    exact (history.follows_of_visit visited).seesOnly
  obtain ⟨earlier, later, rfl, rfl, rfl, request, _⟩ :=
    walk_isolated walked₁ walked₂ alike visited₁ visited₂ failed₁ failed₂ continues
  refine ⟨?_, ?_, ?_, ?_, evaluator, ready, ?_, sees⟩
  · rw [filterMap_append_cons, filterMap_append_cons, request]
  · simp only [filterMap_append_cons, Visit.member?_of_failed failed₁,
      Visit.member?_of_failed failed₂]
  · intro j other
    exact getElem?_append_cons_of_ne other _ _ _
  · intro j other
    have placed : j ≠ (earlier.map Visit.record).length := by rwa [List.length_map]
    simp only [List.map_append, List.map_cons, List.append_assoc, List.cons_append,
      List.length_append, List.length_cons]
    exact getElem?_append_cons_of_ne placed _ _ _
  · have after : (earlier ++ v₁ :: later).drop (earlier.length + 1) = later := by
      rw [← List.drop_drop, List.drop_left, List.drop_one, List.tail_cons]
    refine ⟨_, _, rfl, rfl, ?_, ?_⟩
    · rw [List.take_left, after]
      exact filterMap_append_cons _ _ _ _
    · rw [List.take_left, after]
      exact filterMap_append_cons _ _ _ _

def guestLogin : Step where
  url := "/login"
  method := "POST"
  beforeFetch := some (.object [])
  condition := { entries := [("401", {}), ("default", { message := some (.string "\"no\"") })] }
  continuesOnError := true

/-- A login that may fail, and a call after it. -/
def guestAccess : StepMap where
  steps := [("login", guestLogin), ("session", session)]
  distinct := by decide

def refusal : Response := ⟨401, "\x7b\"reason\": \"guest\"\x7d"⟩

def guestVisit (response : Option Response) : Visit where
  name := "login"
  step := guestLogin
  scope := ⟨[("qs", .object []), ("api", .object []), ("beforeFetch", .object [])]⟩
  request := some ⟨.post, "/login", [], none, []⟩
  response := response

def guestVisits (response : Option Response) : List Visit := [guestVisit response, sessionVisit]

section Guest

variable {answers : Answers} {response : Option Response}

theorem guestVisit_letsGoOn : (guestVisit response).letsGoOn = true := Bool.or_true _

theorem guestLogin_next (answers : Answers) :
    Visit.next answers (.bare 100000) start [] "login" guestLogin .post =
      guestVisit (answers [] ⟨.post, "/login", [], none, []⟩) := by
  have route : isRoute guestLogin.url = true := by decide
  have scope : guestLogin.prepareScope (start.withBodies []) (.bare 100000) =
      (guestVisit none).scope := by
    rw [start_withBodies]
    cbv
  have made := Step.toRequest_route route rfl rfl .post (guestVisit none).scope (.bare 100000)
  simp only [Visit.next, List.filterMap_nil, scope, made, Except.toOption, Option.bind_some]
  rfl

theorem guestSession_next (failed : (guestVisit response).succeeds = false)
    (answered : ∀ request, answers [⟨.post, "/login", [], none, []⟩] request = some secondReply) :
    Visit.next answers (.bare 100000) start [guestVisit response] "session" session .get =
      sessionVisit := by
  have known : [guestVisit response].filterMap Visit.member? = [] := by
    simp [Visit.member?_of_failed failed]
  have sent : [guestVisit response].filterMap Visit.request = [⟨.post, "/login", [], none, []⟩] :=
    rfl
  refine start_next rfl rfl rfl rfl known ?_
  rw [sent, answered]
  rfl

theorem guest_walk (first : answers [] ⟨.post, "/login", [], none, []⟩ = response)
    (failed : (guestVisit response).succeeds = false)
    (answered : ∀ request, answers [⟨.post, "/login", [], none, []⟩] request = some secondReply) :
    walk answers (.bare 100000) (Scope.ofInput [] (Query.parse ({} : Config).query)) []
      guestAccess.steps = (guestVisits response, none) := by
  have asked := guestLogin_next answers
  rw [first] at asked
  refine walk_cons rfl (by decide : guestLogin.verb? = some .post) asked ?_
  refine walk_cons ?_ (by decide : session.verb? = some .get)
    (guestSession_next failed answered) rfl
  simp [guestVisit_letsGoOn]

end Guest

def guestResult (status : Option Nat) (action : Option Action) : RunResult where
  api := [("session", secondBody)]
  actions := action.toList
  records := [⟨"login", .ran, status⟩, ⟨"session", .ran, some 200⟩]

def guestLog : List Request :=
  [⟨.post, "/login", [], none, []⟩, ⟨.get, "/session", [], none, []⟩]

theorem guestAccess_ended {answers : Answers} {response : Option Response} {action : Option Action}
    (first : answers [] ⟨.post, "/login", [], none, []⟩ = response)
    (failed : (guestVisit response).succeeds = false)
    (answered : ∀ request, answers [⟨.post, "/login", [], none, []⟩] request = some secondReply)
    (ruled : (guestVisit response).action? (.bare 100000) = action) :
    visitsOf answers {} guestAccess [] {} = guestVisits response ∧
      runLogged answers {} guestAccess [] {} =
        (.ok (guestResult (response.map Response.status) action), guestLog) := by
  have walked := guest_walk first failed answered
  have unruled : sessionVisit.action? (.bare 100000) = none :=
    Visit.action?_of_succeeds sessionVisit_succeeds _
  refine ⟨visitsOf_eq bare_ready walked, ?_⟩
  rw [runLogged_of_walk bare_ready walked]
  simp only [guestVisits, List.filterMap_cons, List.filterMap_nil, Visit.member?_of_failed failed,
    sessionVisit_member, ruled, unruled]
  cases action <;> rfl

/-- The first request is refused, the others are answered as by `secondOnly`. -/
def firstRefused : Answers := fun log request =>
  if log.isEmpty then some refusal else secondOnly log request

theorem refused_failed : (guestVisit (some refusal)).succeeds = false := by
  cbv

theorem guestAccess_refused :
    visitsOf firstRefused {} guestAccess [] {} = guestVisits (some refusal) ∧
      runLogged firstRefused {} guestAccess [] {} =
        (.ok (guestResult (some 401) none), guestLog) := by
  have unkeyed : (guestVisit (some refusal)).extracted? = none := by
    simp [Visit.extracted?, ConditionTable.matchKey?, guestVisit, guestLogin]
  have ruled : (guestVisit (some refusal)).action? (.bare 100000) = none := by
    rw [Visit.action?, refused_failed, unkeyed]
    rfl
  exact guestAccess_ended rfl refused_failed (fun _ => rfl) ruled

theorem guestAccess_unanswered :
    visitsOf secondOnly {} guestAccess [] {} = guestVisits none ∧
      runLogged secondOnly {} guestAccess [] {} =
        (.ok (guestResult none (some (.message "no"))), guestLog) := by
  have ruled : (guestVisit none).action? (.bare 100000) = some (.message "no") := by cbv
  exact guestAccess_ended rfl rfl (fun _ => rfl) ruled

theorem guestAccess_isolated :
    runLogged firstRefused {} guestAccess [] {} =
        (.ok (guestResult (some 401) none), guestLog) ∧
      runLogged secondOnly {} guestAccess [] {} =
        (.ok (guestResult none (some (.message "no"))), guestLog) ∧
      ∀ j, j ≠ 0 → (guestVisits (some refusal))[j]? = (guestVisits none)[j]? := by
  obtain ⟨visits₁, ended₁⟩ := guestAccess_refused
  obtain ⟨visits₂, ended₂⟩ := guestAccess_unanswered
  have alike : ∀ j, j ≠ 0 → AlikeAt (visitsOf firstRefused {} guestAccess [] {})
      (visitsOf secondOnly {} guestAccess [] {}) j := by
    rw [visits₁, visits₂]
    intro j other v₁ v₂ visited₁ visited₂ _
    cases j with
    | zero => exact absurd rfl other
    | succ j => rw [Option.some.inj (visited₁.symm.trans visited₂)]
  have unanswered : (guestVisit none).succeeds = false := rfl
  have visited₁ : (visitsOf firstRefused {} guestAccess [] {})[0]? =
      some (guestVisit (some refusal)) := by rw [visits₁]; rfl
  have visited₂ : (visitsOf secondOnly {} guestAccess [] {})[0]? =
      some (guestVisit none) := by rw [visits₂]; rfl
  obtain ⟨_, _, others, _⟩ :=
    runLogged_isolated ended₁ ended₂ alike visited₁ visited₂ refused_failed unanswered rfl
  rw [visits₁, visits₂] at others
  exact ⟨ended₁, ended₂, others⟩

end Finished

end HttpWorkflow
