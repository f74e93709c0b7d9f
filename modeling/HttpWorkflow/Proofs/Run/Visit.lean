import HttpWorkflow.Run
import Mathlib.Data.List.Nodup

/-! What the steps of a run meet.

A visit is one step with what it met when it was due: the scope of its templates, the request made
of it and the response that arrived. A chain over a transport that keeps a log walks from visit to
visit, and everything in the result of a run is read off the visits. Transports answer as they
like: an answer may depend on all requests received so far.
-/

set_option autoImplicit false

namespace HttpWorkflow

/-- The answer to a request after those received before it; `none` when no response arrives. -/
abbrev Answers := List Request → Request → Option Response

def Transport.logging (answers : Answers) : Transport (StateM (List Request)) := fun request log =>
  (answers log request, log ++ [request])

/-- A run over a transport that has received nothing, and the requests received by its end. -/
def runLogged (answers : Answers) (config : Config) (steps : StepMap) (input : Members)
    (helpers : Helpers) : Except RunError RunResult × List Request :=
  (run (Transport.logging answers) config steps input helpers).run.run []

structure Visit where
  name : String
  step : Step
  scope : Scope
  request : Option Request
  response : Option Response

namespace Visit

def body? (v : Visit) : Option Json := v.response.bind Response.json?

def status? (v : Visit) : Option Nat := v.response.map Response.status

/-- What the templates about the response see. -/
def after (v : Visit) : Scope :=
  match v.body? with
  | some body => v.scope.withResponse v.name body
  | none => v.scope

/-- The value that the table is searched for, if the body is JSON and the table has a key. -/
def extracted? (v : Visit) : Option String :=
  v.body?.bind fun _ => v.step.condition.matchKey? v.after

/-- Whether the body is JSON and the table does not call the response an error. -/
def succeeds (v : Visit) : Bool :=
  match v.body?, v.status? with
  | some _, some status => !v.step.condition.isError v.extracted? status
  | _, _ => false

def letsGoOn (v : Visit) : Bool := v.succeeds || v.step.continuesOnError

/-- What the visit leaves under `api`. -/
def member? (v : Visit) : Option (String × Json) :=
  if v.succeeds then v.body?.map fun body => (v.name, body) else none

/-- The action of the selected entry. -/
def action? (v : Visit) (evaluator : Evaluator) : Option Action :=
  if v.succeeds || v.step.hidesError then none
  else (v.step.condition.select? v.extracted? v.status?).bind fun e => e.action? v.after evaluator

def record (v : Visit) : Record := { name := v.name, state := .ran, status := v.status? }

theorem name_of_member {v : Visit} {member : String × Json} (found : v.member? = some member) :
    member.1 = v.name := by
  simp only [member?, Option.ite_none_right_eq_some, Option.map_eq_some_iff] at found
  obtain ⟨_, _, _, rfl⟩ := found
  rfl

theorem keys_members_sublist (visits : List Visit) :
    (keys (visits.filterMap member?)).Sublist (visits.map name) := by
  induction visits with
  | nil => exact .slnil
  | cons v rest ih =>
    cases found : v.member? with
    | none => simpa [found] using ih.cons v.name
    | some member => simpa [found, keys, name_of_member found] using ih.cons_cons v.name

theorem letsGoOn_eq_false {v : Visit} :
    v.letsGoOn = false ↔ v.succeeds = false ∧ v.step.continuesOnError = false :=
  Bool.or_eq_false_iff

theorem member?_of_failed {v : Visit} (failed : v.succeeds = false) : v.member? = none := by
  simp only [member?, failed, Bool.false_eq_true, if_false]

theorem action?_of_succeeds {v : Visit} (success : v.succeeds = true) (evaluator : Evaluator) :
    v.action? evaluator = none := by
  simp only [action?, success, Bool.true_or, if_true]

/-- Without a key in the table, JSON in the body is success where the status has no entry. -/
theorem succeeds_of_json {v : Visit} {response : Response} {body : Json}
    (arrived : v.response = some response) (read : response.json? = some body)
    (unkeyed : v.step.condition.key = none)
    (unlisted : v.step.condition.forStatus? response.status = none) : v.succeeds = true := by
  have unread : v.extracted? = none := by
    simp [extracted?, ConditionTable.matchKey?, unkeyed]
  have sound : v.step.condition.isError none response.status = false := by
    simp only [ConditionTable.isError, unlisted]
  simp only [succeeds, body?, status?, arrived, Option.bind_some, Option.map_some, read, unread,
    sound, Bool.not_false]

theorem member?_of_json {v : Visit} {response : Response} {body : Json}
    (success : v.succeeds = true) (arrived : v.response = some response)
    (read : response.json? = some body) : v.member? = some (v.name, body) := by
  simp only [member?, success, if_true, body?, arrived, Option.bind_some, read, Option.map_some]

theorem mem_keys_members {visits : List Visit} {v : Visit} (visited : v ∈ visits)
    (success : v.succeeds = true) : v.name ∈ keys (visits.filterMap member?) := by
  cases read : v.body? with
  | none => simp [succeeds, read] at success
  | some body =>
    have kept : v.member? = some (v.name, body) := by
      simp only [member?, success, if_true, read, Option.map_some]
    exact List.mem_map.mpr ⟨_, List.mem_filterMap.mpr ⟨v, visited, kept⟩, rfl⟩

theorem succeeds_of_mem_keys {visits : List Visit} (distinct : (visits.map name).Nodup)
    {v : Visit} (visited : v ∈ visits) (kept : v.name ∈ keys (visits.filterMap member?)) :
    v.succeeds = true := by
  obtain ⟨member, found, same⟩ := List.mem_map.mp kept
  obtain ⟨w, other, left⟩ := List.mem_filterMap.mp found
  -- Names are distinct, so the visit that left a member of this name is the visit itself.
  have named : w.name = v.name := (name_of_member left).symm.trans same
  obtain rfl := List.inj_on_of_nodup_map distinct other visited named
  by_contra failure
  rw [member?_of_failed (Bool.eq_false_iff.mpr failure)] at left
  cases left

end Visit

def Record.skipped (s : String × Step) : Record := { name := s.1, state := .skipped }

/-- The records of the steps of a run: those visited, then those that were skipped. -/
def recordsOf (steps : List (String × Step)) (visits : List Visit) : List Record :=
  visits.map Visit.record ++ (steps.drop visits.length).map Record.skipped

def Progress.ofVisits (evaluator : Evaluator) (visits : List Visit) : Progress where
  api := visits.filterMap Visit.member?
  actions := visits.filterMap (·.action? evaluator)
  continues := visits.all Visit.letsGoOn

theorem filterMap_concat {α β : Type} (f : α → Option β) (xs : List α) (x : α) :
    (xs ++ [x]).filterMap f = xs.filterMap f ++ (f x).toList := by
  cases found : f x <;> simp [found]

theorem Progress.ofVisits_concat (evaluator : Evaluator) {past : List Visit}
    (going : past.all Visit.letsGoOn) (v : Visit) :
    Progress.ofVisits evaluator (past ++ [v]) =
      ⟨past.filterMap Visit.member? ++ v.member?.toList,
        past.filterMap (·.action? evaluator) ++ (v.action? evaluator).toList, v.letsGoOn⟩ := by
  simp only [ofVisits, filterMap_concat, List.all_append, going, List.all_cons, List.all_nil,
    Bool.and_true, Bool.true_and]

section Walk

variable (answers : Answers) (evaluator : Evaluator) (input : Scope)

/-- The visit of a step that is due after those in the past. -/
def Visit.next (past : List Visit) (name : String) (s : Step) (method : Method) : Visit :=
  let scope := s.prepareScope (input.withBodies (past.filterMap Visit.member?)) evaluator
  let request := (s.toRequest method scope evaluator).toOption
  ⟨name, s, scope, request, request.bind (answers (past.filterMap Visit.request))⟩

/-- The visits of a chain after those in the past, up to a step that is not reached or has a verb
without support. -/
def walk (past : List Visit) : List (String × Step) → List Visit × Option RunError
  | [] => ([], none)
  | (name, s) :: rest =>
    if past.all Visit.letsGoOn then
      match s.verb? with
      | none => ([], some (.unsupportedMethod name s.method))
      | some method =>
        let v := Visit.next answers evaluator input past name s method
        let (later, error) := walk (past ++ [v]) rest
        (v :: later, error)
    else ([], none)

end Walk

/-- The visits of a run; none when it has no evaluator. -/
def visitsOf (answers : Answers) (config : Config) (steps : StepMap) (input : Members)
    (helpers : Helpers) : List Visit :=
  match Evaluator.ofHelpers? helpers config.maxOperations with
  | none => []
  | some evaluator =>
    (walk answers evaluator (Scope.ofInput input (Query.parse config.query)) [] steps.steps).1

theorem visitsOf_eq {answers : Answers} {config : Config} {steps : StepMap} {input : Members}
    {helpers : Helpers} {evaluator : Evaluator} {visits : List Visit} {error : Option RunError}
    (ready : Evaluator.ofHelpers? helpers config.maxOperations = some evaluator)
    (walked : walk answers evaluator (Scope.ofInput input (Query.parse config.query)) []
      steps.steps = (visits, error)) :
    visitsOf answers config steps input helpers = visits := by
  simp only [visitsOf, ready, walked]

end HttpWorkflow
