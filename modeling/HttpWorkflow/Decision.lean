import HttpWorkflow.Expression.Evaluator
import HttpWorkflow.Request
import HttpWorkflow.Step.Basic

/-! What follows from a response.

A response is an error when the entry at its key exists and does not proceed. The key is the
rendered key template of the table, or else the status. Error handling picks an entry by the
extracted value, the status and the default, in this order, and derives at most one action.
-/

set_option autoImplicit false

namespace HttpWorkflow

/-- An instruction for the presentation layer. -/
inductive Action where
  | redirect (target : String)
  | message (text : String)
  deriving DecidableEq, Repr

namespace Action

def kind : Action → String
  | redirect _ => "redirect"
  | message _ => "message"

def text : Action → String
  | redirect s => s
  | message s => s

def toJson (a : Action) : Json := .object [(a.kind, .string a.text)]

/-- An action is an object with one member. -/
def ofJson? : Json → Option Action
  | .object [("redirect", .string s)] => some (redirect s)
  | .object [("message", .string s)] => some (message s)
  | _ => none

@[simp] theorem ofJson?_toJson (a : Action) : ofJson? a.toJson = some a := by
  cases a <;> rfl

end Action

/-- What the call of a step came to. -/
inductive Outcome where
  | received (status : Nat) (body : Json)
  /-- The body is not JSON. -/
  | unreadable (status : Nat)
  /-- The request could not be made or sent. -/
  | failed

namespace Outcome

def status? : Outcome → Option Nat
  | received status _ => some status
  | unreadable status => some status
  | failed => none

def ofResponse? : Option Response → Outcome
  | none => failed
  | some r =>
    match r.json? with
    | some body => received r.status body
    | none => unreadable r.status

end Outcome

namespace ConditionTable

/-- The rendered key template. -/
def matchKey? (t : ConditionTable) (scope : Scope) : Option String :=
  t.key.map fun template => Template.render template scope

def isError (t : ConditionTable) (extracted : Option String) (status : Nat) : Bool :=
  let entry := match extracted with
    | some v => t.get? v
    | none => t.forStatus? status
  match entry with
  | some e => !e.proceeds
  | none => false

def select? (t : ConditionTable) (extracted : Option String) (status : Option Nat) :
    Option ConditionEntry :=
  (extracted.bind t.get?).or ((status.bind t.forStatus?).or t.fallback?)

end ConditionTable

namespace ConditionEntry

/-- A template that is present. -/
def present (template : Option Json) : Option Json := template.filter fun v => !v.isFalsy

/-- A redirect goes before a message. Helpers are not in sight of either. -/
def action? (e : ConditionEntry) (scope : Scope) (evaluator : Evaluator) : Option Action :=
  match present e.redirect, present e.message with
  | some target, _ => some (.redirect (evaluator.plain.execute target scope).stringify)
  | none, some text => some (.message (evaluator.plain.execute text scope).stringify)
  | none, none => none

/-- What `action?` prints on the way. -/
def printed (e : ConditionEntry) (scope : Scope) (evaluator : Evaluator) : String :=
  match present e.redirect, present e.message with
  | some target, _ => evaluator.plain.printed target scope
  | none, some text => evaluator.plain.printed text scope
  | none, none => ""

end ConditionEntry

/-- How a step ends in error: whether the next may run, and the action. -/
structure Decision where
  continues : Bool
  action : Option Action
  deriving DecidableEq, Repr

namespace Step

def onError (s : Step) (extracted : Option String) (status : Option Nat) (scope : Scope)
    (evaluator : Evaluator) : Decision where
  continues := s.continuesOnError
  action :=
    if s.hidesError then none
    else (s.condition.select? extracted status).bind fun e => e.action? scope evaluator

/-- What `onError` prints on the way. -/
def printedOnError (s : Step) (extracted : Option String) (status : Option Nat) (scope : Scope)
    (evaluator : Evaluator) : String :=
  if s.hidesError then ""
  else (s.condition.select? extracted status).elim "" fun e => e.printed scope evaluator

end Step

end HttpWorkflow
