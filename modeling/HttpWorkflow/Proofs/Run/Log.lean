import HttpWorkflow.Proofs.Run.Relation
import HttpWorkflow.Proofs.Run.Visit

/-! A run over a transport that keeps a log is a walk.

`runTraced_eq` is the one place where the monads of a run are opened. It gives the result, the
error, the requests and the lines of every run by its visits, so that what holds of runs is proved
of walks. A run that drops what it prints has the same result and sends the same requests.
-/

set_option autoImplicit false

namespace HttpWorkflow

/-- What a run has handed out: the requests that it sent and the lines that it printed. -/
structure Trace where
  requests : List Request := []
  printed : String := ""

def Transport.tracing (answers : Answers) : Transport (StateM Trace) := fun request t =>
  (answers t.requests request, { t with requests := t.requests ++ [request] })

def Printer.tracing : Printer (StateM Trace) := fun text t =>
  ((), { t with printed := t.printed ++ text })

/-- A run that has handed out nothing yet, and its trace in the end. -/
def runTraced (answers : Answers) (config : Config) (steps : StepMap) (input : Members)
    (helpers : Helpers) : Except RunError RunResult × Trace :=
  (run (Transport.tracing answers) config steps input helpers .tracing).run.run {}

/-- What the step prints that is due after those in the past, before its verb is looked at. -/
def Step.printedDue (evaluator : Evaluator) (input : Scope) (past : List Visit) (s : Step) :
    String :=
  s.printedBefore (input.withBodies (past.filterMap Visit.member?)) evaluator

/-- What a step prints from then on. -/
def Visit.printed (evaluator : Evaluator) (v : Visit) : String :=
  v.step.printedRequest v.scope evaluator ++
    v.step.printedAfter v.name v.scope evaluator (Outcome.ofResponse? v.response)

/-- What is printed by the visits after those in the past. -/
def printedBy (evaluator : Evaluator) (input : Scope) (past : List Visit) : List Visit → String
  | [] => ""
  | v :: later => v.step.printedDue evaluator input past ++ v.printed evaluator ++
      printedBy evaluator input (past ++ [v]) later

/-- What is printed by a step that is due after the visits when it ends the run in an error. -/
def printedLast (evaluator : Evaluator) (input : Scope) (visits : List Visit)
    (due : Option (String × Step)) : Option RunError → String
  | some _ => due.elim "" fun s => s.2.printedDue evaluator input visits
  | none => ""

theorem run_run_bind {ε α β σ : Type} (x : ExceptT ε (StateM σ) α)
    (f : α → ExceptT ε (StateM σ) β) (state : σ) :
    (x >>= f).run.run state =
      match x.run.run state with
      | (.error e, after) => (.error e, after)
      | (.ok a, after) => (f a).run.run after := by
  rw [ExceptT.run_bind, StateT.run_bind]
  change (let p := x.run.run state; _) = _
  obtain ⟨result, after⟩ := x.run.run state
  cases result <;> rfl

theorem status?_ofResponse? (response : Option Response) :
    (Outcome.ofResponse? response).status? = response.map Response.status := by
  cases response with
  | none => rfl
  | some r => cases read : r.json? <;> simp [Outcome.ofResponse?, read, Outcome.status?]

/-- The three ways in which a step can end, told by the views of its visit. The name has to be new,
or else its member would replace an earlier one. -/
theorem settle_visit (v : Visit) (evaluator : Evaluator) (p : Progress)
    (fresh : v.name ∉ keys p.api) :
    v.step.settle v.name v.scope evaluator p (Outcome.ofResponse? v.response) =
      ⟨p.api ++ v.member?.toList, p.actions ++ (v.action? evaluator).toList, v.letsGoOn⟩ := by
  obtain ⟨name, s, scope, request, response⟩ := v
  -- With all views open, the outcome alone decides: no response, no JSON, an error, a success.
  simp only [Step.settle, Progress.decide, Step.onError, Progress.accept, Visit.member?,
    Visit.letsGoOn, Visit.succeeds, Visit.action?, Visit.body?, Visit.status?, Visit.extracted?,
    Visit.after]
  cases response with
  | none => simp [Outcome.ofResponse?]
  | some r =>
    cases read : r.json? with
    | none => simp [Outcome.ofResponse?, read]
    | some body =>
      cases verdict : s.condition.isError
          (s.condition.matchKey? (scope.withResponse name body)) r.status with
      | true => simp [Outcome.ofResponse?, read, verdict]
      | false => simp [Outcome.ofResponse?, read, verdict, insertMember_of_not_mem fresh]

section Walk

variable {answers : Answers} {evaluator : Evaluator} {input : Scope}

theorem fetch_tracing (s : Step) (method : Method) (scope : Scope) (t : Trace) :
    (fetch (Transport.tracing answers) s method scope evaluator).run t =
      let request := (s.toRequest method scope evaluator).toOption
      (Outcome.ofResponse? (request.bind (answers t.requests)),
        { t with requests := t.requests ++ request.toList }) := by
  unfold fetch
  cases s.toRequest method scope evaluator with
  | error e =>
    simp only [Except.toOption, Option.toList_none, List.append_nil]
    rfl
  | ok request => rfl

theorem runStep_tracing {past : List Visit} {name : String} (fresh : name ∉ past.map Visit.name)
    (s : Step) (before : String) :
    (runStep (Transport.tracing answers) evaluator input name s (.ofVisits evaluator past)
        .tracing).run.run ⟨past.filterMap Visit.request, before⟩ =
      let due := before ++ s.printedDue evaluator input past
      match s.verb? with
      | none => (.error (.unsupportedMethod name s.method), ⟨past.filterMap Visit.request, due⟩)
      | some method =>
        let v := Visit.next answers evaluator input past name s method
        (.ok (⟨past.filterMap Visit.member? ++ v.member?.toList,
            past.filterMap (·.action? evaluator) ++ (v.action? evaluator).toList, v.letsGoOn⟩,
          v.status?),
          ⟨past.filterMap Visit.request ++ v.request.toList, due ++ v.printed evaluator⟩) := by
  cases verb : s.verb? with
  | none => simp only [runStep, verb]; rfl
  | some method =>
    let v := Visit.next answers evaluator input past name s method
    -- What the step finds under `api` are the bodies of the past, and its own name is not there.
    have absent : v.name ∉ keys (Progress.ofVisits evaluator past).api := by
      intro known
      exact fresh ((Visit.keys_members_sublist past).subset known)
    have settled : s.settle name v.scope evaluator (.ofVisits evaluator past)
        (Outcome.ofResponse? v.response) = _ := settle_visit v evaluator _ absent
    have ran : (runStep (Transport.tracing answers) evaluator input name s
          (.ofVisits evaluator past) .tracing).run.run ⟨past.filterMap Visit.request, before⟩ =
        let sent := (fetch (Transport.tracing answers) s method v.scope evaluator).run
          ⟨past.filterMap Visit.request, before ++ s.printedDue evaluator input past ++
            s.printedRequest v.scope evaluator⟩
        (.ok (s.settle name v.scope evaluator (.ofVisits evaluator past) sent.1, sent.1.status?),
          { sent.2 with
            printed := sent.2.printed ++ s.printedAfter name v.scope evaluator sent.1 }) := by
      simp only [runStep, verb]
      rfl
    rw [ran, fetch_tracing]
    change (Except.ok (s.settle name v.scope evaluator _ (Outcome.ofResponse? v.response),
        (Outcome.ofResponse? v.response).status?),
      Trace.mk (past.filterMap Visit.request ++ v.request.toList)
        (_ ++ s.printedAfter name v.scope evaluator (Outcome.ofResponse? v.response))) = _
    rw [settled, status?_ofResponse?, String.append_assoc]
    rfl

theorem runSteps_stopped (transport : Transport (StateM Trace)) (print : Printer (StateM Trace))
    (rest : List (String × Step)) {p : Progress} (stopped : p.continues = false) (t : Trace) :
    (runSteps transport evaluator input rest p print).run.run t =
      (.ok (p, rest.map Record.skipped), t) := by
  induction rest with
  | nil => rfl
  | cons first rest ih =>
    simp only [runSteps, stopped, Bool.false_eq_true, if_false]
    rw [run_run_bind, ih]
    rfl

/-- The past determines the state of the loop: progress, requests, and whether the chain goes on. -/
theorem runSteps_tracing {past : List Visit} {rest : List (String × Step)}
    (distinct : (past.map Visit.name ++ keys rest).Nodup) (before : String) :
    (runSteps (Transport.tracing answers) evaluator input rest (.ofVisits evaluator past)
        .tracing).run.run ⟨past.filterMap Visit.request, before⟩ =
      let (visits, error) := walk answers evaluator input past rest
      (match error with
        | some e => .error e
        | none => .ok (.ofVisits evaluator (past ++ visits),
            visits.map Visit.record ++ (rest.drop visits.length).map Record.skipped),
        ⟨(past ++ visits).filterMap Visit.request,
          before ++ printedBy evaluator input past visits ++
            printedLast evaluator input (past ++ visits) rest[visits.length]? error⟩) := by
  -- Each step adds its visit to the past, so the hypothesis has to hold for every past.
  induction rest generalizing past before with
  | nil =>
    simp only [runSteps, walk, List.append_nil, printedBy, printedLast, String.append_empty]
    rfl
  | cons first rest ih =>
    obtain ⟨name, s⟩ := first
    cases going : past.all Visit.letsGoOn with
    | false =>
      have halted : (Progress.ofVisits evaluator past).continues = false := going
      rw [runSteps_stopped _ _ _ halted]
      simp only [walk, going, Bool.false_eq_true, if_false, List.append_nil, printedBy,
        printedLast, String.append_empty]
      rfl
    | true =>
      have fresh : name ∉ past.map Visit.name := by
        intro known
        exact (List.nodup_append.mp distinct).2.2 _ known name (by simp [keys]) rfl
      have goesOn : (Progress.ofVisits evaluator past).continues = true := going
      simp only [runSteps, goesOn, if_true, walk, going]
      rw [run_run_bind, runStep_tracing fresh]
      cases verb : s.verb? with
      | none =>
        simp only [List.append_nil, printedBy, String.append_empty]
        rfl
      | some method =>
        let v := Visit.next answers evaluator input past name s method
        have next := @ih (past ++ [v]) (by simpa [v, Visit.next, keys] using distinct)
          (before ++ s.printedDue evaluator input past ++ v.printed evaluator)
        rw [Progress.ofVisits_concat evaluator going, filterMap_concat] at next
        simp only
        rw [run_run_bind, next]
        obtain ⟨later, error⟩ := walk answers evaluator input (past ++ [v]) rest
        simp only [List.append_assoc, List.cons_append, List.nil_append, List.length_cons,
          List.getElem?_cons_succ, printedBy, String.append_assoc]
        cases error with
        | some e => rfl
        | none => rfl

end Walk

/-- The result, the error, the requests and the lines of a run, by its visits. -/
theorem runTraced_eq (answers : Answers) (config : Config) (steps : StepMap) (input : Members)
    (helpers : Helpers) :
    runTraced answers config steps input helpers =
      match Evaluator.ofHelpers? helpers config.maxOperations with
      | none => (.error .helperScript, {})
      | some evaluator =>
        let scope := Scope.ofInput input (Query.parse config.query)
        let (visits, error) := walk answers evaluator scope [] steps.steps
        (match error with
          | some e => .error e
          | none => .ok ⟨visits.filterMap Visit.member?, visits.filterMap (·.action? evaluator),
              visits.map Visit.record ++ (steps.steps.drop visits.length).map Record.skipped⟩,
          ⟨visits.filterMap Visit.request, printedBy evaluator scope [] visits ++
            printedLast evaluator scope visits steps.steps[visits.length]? error⟩) := by
  unfold runTraced run
  cases Evaluator.ofHelpers? helpers config.maxOperations with
  | none => rfl
  | some evaluator =>
    have walked : (runSteps (Transport.tracing answers) evaluator
          (Scope.ofInput input (Query.parse config.query)) steps.steps {} .tracing).run.run {} =
        _ := @runSteps_tracing _ _ _ [] _ (by simpa using steps.distinct) ""
    simp only
    rw [run_run_bind, walked]
    obtain ⟨visits, error⟩ := walk answers evaluator
      (Scope.ofInput input (Query.parse config.query)) [] steps.steps
    simp only [List.nil_append, String.empty_append]
    cases error with
    | some e => rfl
    | none => rfl

/-- Computations that do with the image of a state what the other does with the state. -/
def Correspondence.image {σ τ : Type} (φ : σ → τ) : Correspondence (StateM τ) (StateM σ) where
  Rel x y := ∀ state, x.run (φ state) = Prod.map id φ (y.run state)
  pure _ _ := rfl
  bind := by
    intro α β x y f g first next state
    rw [StateT.run_bind, StateT.run_bind, first state]
    exact next _ _

/-- A run that drops what it prints differs in nothing else. -/
theorem runLogged_eq_runTraced (answers : Answers) (config : Config) (steps : StepMap)
    (input : Members) (helpers : Helpers) :
    runLogged answers config steps input helpers =
      Prod.map id Trace.requests (runTraced answers config steps input helpers) :=
  run_related (.image Trace.requests) (fun _ _ => rfl) (fun _ _ => rfl) config steps input helpers
    {}

/-- The result, the error and the log of a run, by its visits. -/
theorem runLogged_eq (answers : Answers) (config : Config) (steps : StepMap) (input : Members)
    (helpers : Helpers) :
    runLogged answers config steps input helpers =
      match Evaluator.ofHelpers? helpers config.maxOperations with
      | none => (.error .helperScript, [])
      | some evaluator =>
        let (visits, error) := walk answers evaluator
          (Scope.ofInput input (Query.parse config.query)) [] steps.steps
        (match error with
          | some e => .error e
          | none => .ok ⟨visits.filterMap Visit.member?, visits.filterMap (·.action? evaluator),
              visits.map Visit.record ++ (steps.steps.drop visits.length).map Record.skipped⟩,
          visits.filterMap Visit.request) := by
  rw [runLogged_eq_runTraced, runTraced_eq]
  cases Evaluator.ofHelpers? helpers config.maxOperations <;> rfl

section Ends

variable {answers : Answers} {config : Config} {steps : StepMap} {input : Members}
  {helpers : Helpers} {evaluator : Evaluator} {visits : List Visit} {e : RunError}

theorem runLogged_of_unready
    (unready : Evaluator.ofHelpers? helpers config.maxOperations = none) :
    runLogged answers config steps input helpers = (.error .helperScript, []) := by
  simp only [runLogged_eq, unready]

theorem runLogged_of_walk_error
    (ready : Evaluator.ofHelpers? helpers config.maxOperations = some evaluator)
    (walked : walk answers evaluator (Scope.ofInput input (Query.parse config.query)) []
      steps.steps = (visits, some e)) :
    runLogged answers config steps input helpers = (.error e, visits.filterMap Visit.request) := by
  simp only [runLogged_eq, ready, walked]

theorem runLogged_of_walk
    (ready : Evaluator.ofHelpers? helpers config.maxOperations = some evaluator)
    (walked : walk answers evaluator (Scope.ofInput input (Query.parse config.query)) []
      steps.steps = (visits, none)) :
    runLogged answers config steps input helpers =
      (.ok ⟨visits.filterMap Visit.member?, visits.filterMap (·.action? evaluator),
        recordsOf steps.steps visits⟩, visits.filterMap Visit.request) := by
  simp only [runLogged_eq, ready, walked, recordsOf]

theorem runLogged_snd_of_walk {error : Option RunError}
    (ready : Evaluator.ofHelpers? helpers config.maxOperations = some evaluator)
    (walked : walk answers evaluator (Scope.ofInput input (Query.parse config.query)) []
      steps.steps = (visits, error)) :
    (runLogged answers config steps input helpers).2 = visits.filterMap Visit.request := by
  simp only [runLogged_eq, ready, walked]

end Ends

end HttpWorkflow
