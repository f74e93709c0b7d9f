import HttpWorkflow.Config
import HttpWorkflow.Decision
import HttpWorkflow.Workflow

/-! Running steps over a transport, one after another, until one says not to go on.

What goes wrong between the program and a server becomes an action or ends the chain. Only a verb
without support and a script that does not compile are errors of the run. Whatever expressions print
goes out at once, before the next request.
-/

set_option autoImplicit false

namespace HttpWorkflow

/-- Sends a request; `none` when no response arrives. -/
abbrev Transport (m : Type → Type) := Request → m (Option Response)

/-- Takes what expressions print. -/
abbrev Printer (m : Type → Type) := String → m Unit

namespace Printer

variable {m : Type → Type} [Monad m]

/-- Drops it. -/
def silent : Printer m := fun _ => pure ()

/-- Puts it after what was printed before. -/
def keeping : Printer (StateT String m) := fun text => modify (· ++ text)

end Printer

inductive RecordState where
  | pending
  | ran
  | skipped
  deriving DecidableEq, Repr

def RecordState.name : RecordState → String
  | pending => "pending"
  | ran => "ran"
  | skipped => "skipped"

structure Record where
  name : String
  state : RecordState := .pending
  status : Option Nat := none
  deriving DecidableEq, Repr

namespace Record

def run (r : Record) (status : Option Nat) : Record := { r with state := .ran, status := status }

def skip (r : Record) : Record := { r with state := .skipped }

end Record

/-- What steps hand on to the next: the bodies of those that succeeded, the actions so far, and
whether the next step may run. -/
structure Progress where
  api : Members := []
  actions : List Action := []
  continues : Bool := true

namespace Progress

def decide (p : Progress) (d : Decision) : Progress :=
  { p with actions := p.actions ++ d.action.toList, continues := d.continues }

def accept (p : Progress) (name : String) (body : Json) : Progress :=
  { p with api := insertMember p.api name body, continues := true }

end Progress

inductive RunError where
  | unsupportedMethod (step method : String)
  | helperScript
  deriving DecidableEq, Repr

def RunError.message? : RunError → Option String
  | unsupportedMethod step method => some s!"step `{step}` uses unsupported method `{method}`"
  | helperScript => none

structure RunResult where
  api : Members
  actions : List Action
  records : List Record

namespace RunResult

def firstAction? (r : RunResult) : Option Action := r.actions.head?

def isSuccess (r : RunResult) : Bool := r.actions.isEmpty

def toJson (r : RunResult) : Json :=
  .object [("api", .object r.api), ("actions", .array (r.actions.map Action.toJson))]

end RunResult

namespace Step

/-- The scope of a step with an object that `beforeFetch` gives. -/
def prepareScope (s : Step) (scope : Scope) (evaluator : Evaluator) : Scope :=
  match s.beforeFetch with
  | none => scope
  | some template =>
    match evaluator.plain.execute template scope with
    | .object members => scope.set "beforeFetch" (.object members)
    | _ => scope

/-- What `prepareScope` prints on the way. -/
def printedBefore (s : Step) (scope : Scope) (evaluator : Evaluator) : String :=
  s.beforeFetch.elim "" fun template => evaluator.plain.printed template scope

/-- The value of a slot, which may be left out. -/
def slot (template : Option Json) (scope : Scope) (evaluator : Evaluator) : Json :=
  match template with
  | some t => evaluator.execute t scope
  | none => .null

def toRequest (s : Step) (method : Method) (scope : Scope) (evaluator : Evaluator) :
    Except RequestError Request :=
  Request.build method (evaluator.execute (.string s.url) scope)
    (slot s.headers scope evaluator) (slot s.request scope evaluator) s.options

/-- What `toRequest` prints on the way: the URL first, then the headers and the payload. -/
def printedRequest (s : Step) (scope : Scope) (evaluator : Evaluator) : String :=
  let slot (template : Option Json) : String := template.elim "" fun t => evaluator.printed t scope
  evaluator.printed (.string s.url) scope ++ slot s.headers ++ slot s.request

/-- What the outcome of a step makes of the progress. -/
def settle (s : Step) (name : String) (scope : Scope) (evaluator : Evaluator) (p : Progress) :
    Outcome → Progress
  | .received status body =>
    let after := scope.withResponse name body
    let extracted := s.condition.matchKey? after
    if s.condition.isError extracted status then
      p.decide (s.onError extracted (some status) after evaluator)
    else p.accept name body
  | .unreadable status => p.decide (s.onError none (some status) scope evaluator)
  | .failed => p.decide (s.onError none none scope evaluator)

/-- What `settle` prints on the way. -/
def printedAfter (s : Step) (name : String) (scope : Scope) (evaluator : Evaluator) :
    Outcome → String
  | .received status body =>
    let after := scope.withResponse name body
    let extracted := s.condition.matchKey? after
    if s.condition.isError extracted status then
      s.printedOnError extracted (some status) after evaluator
    else ""
  | .unreadable status => s.printedOnError none (some status) scope evaluator
  | .failed => s.printedOnError none none scope evaluator

end Step

section Run

variable {m : Type → Type} [Monad m]

/-- Make the request of a step and send it. -/
def fetch (transport : Transport m) (s : Step) (method : Method) (scope : Scope)
    (evaluator : Evaluator) : m Outcome :=
  match s.toRequest method scope evaluator with
  | .error _ => pure .failed
  | .ok request => Outcome.ofResponse? <$> transport request

/-- Run one step: the progress after it, and the status that it got. -/
def runStep (transport : Transport m) (evaluator : Evaluator) (input : Scope) (name : String)
    (s : Step) (p : Progress) (print : Printer m := .silent) :
    ExceptT RunError m (Progress × Option Nat) := do
  let known := input.withBodies p.api
  (print (s.printedBefore known evaluator) : m Unit)
  let scope := s.prepareScope known evaluator
  match s.verb? with
  | none => throw (.unsupportedMethod name s.method)
  | some method =>
    (print (s.printedRequest scope evaluator) : m Unit)
    let outcome ← (fetch transport s method scope evaluator : m Outcome)
    (print (s.printedAfter name scope evaluator outcome) : m Unit)
    return (s.settle name scope evaluator p outcome, outcome.status?)

/-- Run steps in order and skip those after one that does not let the chain go on. -/
def runSteps (transport : Transport m) (evaluator : Evaluator) (input : Scope)
    (steps : List (String × Step)) (p : Progress) (print : Printer m := .silent) :
    ExceptT RunError m (Progress × List Record) := do
  match steps with
  | [] => return (p, [])
  | (name, s) :: rest =>
    let record : Record := { name := name }
    if p.continues then
      let (p, status) ← runStep transport evaluator input name s p print
      let (p, records) ← runSteps transport evaluator input rest p print
      return (p, record.run status :: records)
    else
      let (p, records) ← runSteps transport evaluator input rest p print
      return (p, record.skip :: records)

/-- Run steps with the input of a caller. -/
def run (transport : Transport m) (config : Config) (steps : StepMap) (input : Members)
    (helpers : Helpers) (print : Printer m := .silent) : ExceptT RunError m RunResult := do
  match Evaluator.ofHelpers? helpers config.maxOperations with
  | none => throw .helperScript
  | some evaluator =>
    let scope := Scope.ofInput input (Query.parse config.query)
    let (p, records) ← runSteps transport evaluator scope steps.steps {} print
    return ⟨p.api, p.actions, records⟩

end Run

end HttpWorkflow
