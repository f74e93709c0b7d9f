import HttpWorkflow.CommandLine.Arguments
import HttpWorkflow.Document.Load
import HttpWorkflow.Environment
import HttpWorkflow.Transport

/-! The command line: it reads its files, checks all that can be checked, and runs the workflow. -/

set_option autoImplicit false

namespace HttpWorkflow

/-- What a program finds around it: files, variables, a file of settings, and the network. -/
structure Surroundings (m : Type → Type) where
  /-- The text of a file; `none` when it cannot be read. -/
  file? : String → m (Option String)
  lookup : String → m (Option String)
  settings? : m (Option String)
  connect : Connection m

/-- The same surroundings for a program that keeps what is printed. -/
def Surroundings.keeping {m : Type → Type} [Monad m] (around : Surroundings m) :
    Surroundings (StateT String m) where
  file? path := around.file? path
  lookup name := around.lookup name
  settings? := around.settings?
  connect := around.connect.keeping

namespace CommandLine

inductive Failure where
  | unreadableDocument (path : String)
  | invalidDocument (path : String) (cause : DocumentError)
  | unreadableFile (path : String)
  | notJson (path : String)
  | notObject (path : String)
  | invalidBaseUrl (cause : BaseUrlError)
  | failedRun (cause : RunError)
  deriving DecidableEq, Repr

namespace Failure

def message : Failure → String
  | unreadableDocument path => s!"Cannot read workflow document {path}"
  | invalidDocument path _ => s!"Invalid workflow document {path}"
  | unreadableFile path => s!"Failed to read {path}"
  | notJson path => s!"Failed to parse {path} as JSON"
  | notObject path => s!"{path} must contain a JSON object"
  | invalidBaseUrl cause => cause.message
  | failedRun _ => "Workflow execution failed"

/-- What lies behind a failure, where it is known. -/
def cause? : Failure → Option String
  | invalidDocument _ cause => some cause.message
  | failedRun cause => cause.message?
  | _ => none

def report (f : Failure) : String :=
  s!"Error: {f.message}\n" ++ match f.cause? with
    | some cause => s!"\nCaused by:\n    {cause}\n"
    | none => ""

end Failure

/-- How the program ends, with all that it writes to its standard output. -/
structure Ending where
  code : Nat
  output : String := ""
  failure : Option Failure := none

/-- The ending after a run. What expressions printed goes before the result, and stands alone when
there is none. -/
def Ending.ofRun (printed : String) : Except Failure RunResult → Ending
  | .ok result => { code := 0, output := printed ++ result.toJson.pretty ++ "\n" }
  | .error failure => { code := 1, output := printed, failure := some failure }

/-- What the program says about what went wrong. -/
def Ending.errors (e : Ending) : String :=
  match e.failure with
  | some failure => failure.report
  | none => if e.code = 2 then misuseText else ""

section Program

variable {m : Type → Type} [Monad m]

def document (around : Surroundings m) (path : String) : ExceptT Failure m Workflow := do
  match ← (around.file? path : m (Option String)) with
  | none => throw (.unreadableDocument path)
  | some text =>
    match Workflow.load text with
    | .ok w => return w
    | .error cause => throw (.invalidDocument path cause)

/-- The text of a file that an option names. -/
def textFile (around : Surroundings m) (path : String) : ExceptT Failure m String := do
  match ← (around.file? path : m (Option String)) with
  | some text => return text
  | none => throw (.unreadableFile path)

/-- The members of the object in a file; none without a file. -/
def objectFile (around : Surroundings m) : Option String → ExceptT Failure m Members
  | none => return []
  | some path => do
    match Json.parse? (← textFile around path) with
    | some (.object members) => return members
    | some _ => throw (.notObject path)
    | none => throw (.notJson path)

/-- The variables that hold settings, with those of a file of settings. -/
def settings (around : Surroundings m) : m Config := do
  let values ← Config.variableNames.mapM fun name => return (name, ← around.lookup name)
  let env (name : String) : Option String := (values.lookup name).join
  match ← around.settings? with
  | some text => return .ofEnvironment (Environment.withFile env text)
  | none => return .ofEnvironment env

/-- Run a workflow over the network with the given settings. -/
def runWorkflow (connect : Connection m) (config : Config) (base : Option Url) (w : Workflow)
    (input : Members) (helpers : Helpers) (print : Printer m := .silent) :
    ExceptT RunError m RunResult :=
  run (connect.transport base config.timeout) config w.steps input helpers print

def runOptions (around : Surroundings m) (print : Printer m) (o : Options) :
    ExceptT Failure m RunResult := do
  let w ← document around o.workflow
  let input ← objectFile around o.input
  let bindings ← objectFile around o.bindings
  let script ← match o.helpers with
    | some path => some <$> textFile around path
    | none => pure none
  let config ← (settings around : m Config)
  let config := { config with
    query := o.query.getD config.query, baseUrl := o.baseUrl.or config.baseUrl }
  match config.base with
  | .error cause => throw (.invalidBaseUrl cause)
  | .ok base =>
    match ← (runWorkflow around.connect config base w input ⟨bindings, script⟩ print).run with
    | .ok result => return result
    | .error cause => throw (.failedRun cause)

/-- The whole program. -/
def program (around : Surroundings m) (args : List String) : m Ending := do
  match Request.ofArguments args with
  | .help => return { code := 0, output := helpText }
  | .version => return { code := 0, output := versionText }
  | .misuse => return { code := 2 }
  | .run o =>
    let (result, printed) ← (runOptions around.keeping .keeping o).run.run ""
    return .ofRun printed result

end Program

end CommandLine

end HttpWorkflow
