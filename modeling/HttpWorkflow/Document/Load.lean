import HttpWorkflow.Document.Decode
import HttpWorkflow.Document.Yaml.Node

/-! Loading workflows from documents in YAML, of which JSON is a part. -/

set_option autoImplicit false

namespace HttpWorkflow

/-- Why a document is no workflow. -/
inductive DocumentError where
  | notStepMap
  | noSteps
  | emptyName
  | emptyUrl (step : String)
  | emptyMethod (step : String)
  deriving DecidableEq, Repr

def DocumentError.message : DocumentError → String
  | notStepMap => "Workflow document is not a valid step map"
  | noSteps => "Workflow document defines no steps"
  | emptyName => "Step names cannot be empty"
  | emptyUrl step => s!"Step `{step}` has an empty url"
  | emptyMethod step => s!"Step `{step}` has an empty method"

namespace Step

/-- What a document must give for a step. -/
def check (s : Step) (name : String) : Except DocumentError Unit :=
  if name.isEmpty then .error .emptyName
  else if s.url.isEmpty then .error (.emptyUrl name)
  else if s.method.isEmpty then .error (.emptyMethod name)
  else .ok ()

end Step

namespace Workflow

def check (w : Workflow) : Except DocumentError Unit :=
  if w.steps.isEmpty then .error .noSteps
  else w.steps.steps.forM fun (name, s) => s.check name

/-- The workflow of a document. -/
def load (text : String) : Except DocumentError Workflow :=
  match (Document.Yaml.read? text).bind (ofData? .yaml) with
  | none => .error .notStepMap
  | some w => do
    w.check
    return w

end Workflow

end HttpWorkflow
