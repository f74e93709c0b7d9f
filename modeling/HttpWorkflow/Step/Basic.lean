import HttpWorkflow.Step.Condition
import HttpWorkflow.Step.Method

/-! The declarative description of one call. -/

set_option autoImplicit false

namespace HttpWorkflow

/-- A step. The verb is kept as text, so that one without support is found when the step is due.
Fields that a document gives beside the known ones are options for the transport. -/
structure Step where
  url : String
  method : String
  headers : Option Json := none
  request : Option Json := none
  beforeFetch : Option Json := none
  condition : ConditionTable := {}
  hidesError : Bool := false
  continuesOnError : Bool := false
  options : Members := []
  deriving Inhabited, BEq

namespace Step

def call (method : Method) (url : String) : Step := { url := url, method := method.name }

def verb? (s : Step) : Option Method := Method.ofName? s.method

/-- Add one header; a headers template that is no object is replaced. -/
def header (s : Step) (name value : String) : Step :=
  let headers := match s.headers with
    | some (.object members) => members
    | _ => []
  { s with headers := some (.object (insertMember headers name (.string value))) }

/-- Match on a rendered template in place of the status code. -/
def conditionKey (s : Step) (template : String) : Step :=
  { s with condition := { s.condition with key := some template } }

def on (s : Step) (key : String) (entry : ConditionEntry) : Step :=
  { s with condition := s.condition.insert key entry }

def onDefault (s : Step) (entry : ConditionEntry) : Step := s.on "default" entry

def option (s : Step) (name : String) (value : Json) : Step :=
  { s with options := insertMember s.options name value }

/-- The known fields in a fixed order, then the options. -/
def toJson (s : Step) : Json :=
  .object ([("url", .string s.url), ("method", .string s.method)]
    ++ optionalMember "headers" s.headers
    ++ optionalMember "request" s.request
    ++ optionalMember "beforeFetch" s.beforeFetch
    ++ [("condition", s.condition.toJson),
        ("shouldHideError", .bool s.hidesError),
        ("shouldContinueNextApiOnError", .bool s.continuesOnError)]
    ++ s.options)

end Step

end HttpWorkflow
