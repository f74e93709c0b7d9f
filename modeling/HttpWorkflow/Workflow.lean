import HttpWorkflow.Step.Map

/-! A workflow: a name, notes for its readers, and the steps. -/

set_option autoImplicit false

namespace HttpWorkflow

structure Workflow where
  name : String := ""
  description : Option String := none
  steps : StepMap := .empty
  deriving Inhabited

namespace Workflow

def add (w : Workflow) (name : String) (step : Step) : Workflow :=
  { w with steps := w.steps.insert name step }

def describe (w : Workflow) (text : String) : Workflow := { w with description := some text }

def toJson (w : Workflow) : Json :=
  .object [("name", .string w.name),
    ("description", match w.description with | some d => .string d | none => .null),
    ("steps", w.steps.toJson)]

end Workflow

end HttpWorkflow
