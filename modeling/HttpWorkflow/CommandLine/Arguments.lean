/-! Arguments of the command line. -/

set_option autoImplicit false

namespace HttpWorkflow.CommandLine

/-- What the arguments say. Of the files only the workflow must be named. -/
structure Options where
  workflow : String
  input : Option String := none
  bindings : Option String := none
  helpers : Option String := none
  query : Option String := none
  baseUrl : Option String := none
  verbose : Bool := false
  deriving DecidableEq, Repr

/-- What the arguments ask for. -/
inductive Request where
  | run (options : Options)
  | help
  | version
  | misuse
  deriving DecidableEq, Repr

def versionText : String := "apichain 0.1.0\n"

def usageText : String := "Usage: apichain [OPTIONS] <WORKFLOW>\n"

def misuseText : String :=
  "error: these arguments ask for nothing that can be done\n\n" ++ usageText
    ++ "\nFor more information, try '--help'.\n"

def helpText : String := "Run a chain of HTTP API steps\n\n" ++ usageText ++ "
Arguments:
  <WORKFLOW>  Workflow document (YAML or JSON)

Options:
  -i, --input <INPUT>        JSON object with caller input
  -b, --bindings <BINDINGS>  JSON object of named helper values
      --helpers <HELPERS>    Rhai script with helper functions
  -q, --query <QUERY>        Query string exposed as `qs` (overrides APICHAIN_QUERY)
      --base-url <BASE_URL>  Base URL for relative step URLs (overrides APICHAIN_BASE_URL)
  -v, --verbose              Verbose logging
  -h, --help                 Print help
  -V, --version              Print version
"

/-- The options that take a value. -/
inductive Name where
  | input
  | bindings
  | helpers
  | query
  | baseUrl
  deriving DecidableEq

namespace Name

def ofWord? : String → Option Name
  | "input" => some input
  | "bindings" => some bindings
  | "helpers" => some helpers
  | "query" => some query
  | "base-url" => some baseUrl
  | _ => none

def ofLetter? : Char → Option Name
  | 'i' => some input
  | 'b' => some bindings
  | 'q' => some query
  | _ => none

/-- Names of files have at least one character. -/
def isFile : Name → Bool
  | input | bindings | helpers => true
  | query | baseUrl => false

end Name

/-- What the arguments so far have given. -/
structure Given where
  workflow : Option String := none
  values : List (Name × String) := []
  verbose : Bool := false

namespace Given

/-- Take the value of an option, which may be given once. -/
def add? (g : Given) (name : Name) (value : String) : Option Given :=
  if (name.isFile && value.isEmpty) || (g.values.lookup name).isSome then none
  else some { g with values := (name, value) :: g.values }

def addWorkflow? (g : Given) (path : String) : Option Given :=
  if path.isEmpty || g.workflow.isSome then none else some { g with workflow := some path }

def addVerbose? (g : Given) : Option Given :=
  if g.verbose then none else some { g with verbose := true }

def request (g : Given) : Request :=
  match g.workflow with
  | none => .misuse
  | some workflow => .run {
      workflow := workflow
      input := g.values.lookup .input
      bindings := g.values.lookup .bindings
      helpers := g.values.lookup .helpers
      query := g.values.lookup .query
      baseUrl := g.values.lookup .baseUrl
      verbose := g.verbose }

end Given

/-- What one argument leads to: go on, go on with a value for an option, or stop. -/
inductive Next where
  | more (given : Given)
  | value (given : Given) (name : Name)
  | stop (request : Request)

def goOn : Option Given → Next
  | some g => .more g
  | none => .stop .misuse

/-- Letters after one dash. An option takes the letters after it as its value. -/
def letters (g : Given) : List Char → Next
  | [] => .more g
  | 'v' :: rest =>
    match g.addVerbose? with
    | some g => letters g rest
    | none => .stop .misuse
  | 'h' :: _ => .stop .help
  | 'V' :: _ => .stop .version
  | c :: rest =>
    match Name.ofLetter? c, rest with
    | none, _ => .stop .misuse
    | some name, [] => .value g name
    | some name, '=' :: value => goOn (g.add? name (String.ofList value))
    | some name, value => goOn (g.add? name (String.ofList value))

/-- A word after two dashes, with a value after an equals sign or not. -/
def word (g : Given) (name : String) (value : Option String) : Next :=
  match name, value with
  | "help", none => .stop .help
  | "version", none => .stop .version
  | "verbose", none => goOn g.addVerbose?
  | name, value =>
    match Name.ofWord? name, value with
    | some n, some v => goOn (g.add? n v)
    | some n, none => .value g n
    | none, _ => .stop .misuse

def argument (g : Given) (arg : String) : Next :=
  match arg.toList with
  | '-' :: '-' :: cs =>
    let name := cs.takeWhile (· ≠ '=')
    let value := if name.length < cs.length then some (String.ofList (cs.drop (name.length + 1)))
      else none
    word g (String.ofList name) value
  | '-' :: c :: cs => letters g (c :: cs)
  | _ => goOn (g.addWorkflow? arg)

/-- Whether an argument may be the value of the option before it. -/
def isValue (arg : String) : Bool := arg == "-" || arg.toList.head? ≠ some '-'

/-- Read arguments; after two dashes alone only the workflow may follow. -/
def readAll : Given → List String → Request
  | g, [] => g.request
  | g, "--" :: rest =>
    match rest.foldlM Given.addWorkflow? g with
    | some g => g.request
    | none => .misuse
  | g, [arg] =>
    match argument g arg with
    | .more g => g.request
    | .value _ _ => .misuse
    | .stop r => r
  | g, arg :: after :: rest =>
    match argument g arg with
    | .more g => readAll g (after :: rest)
    | .value g name =>
      if isValue after then
        match g.add? name after with
        | some g => readAll g rest
        | none => .misuse
      else .misuse
    | .stop r => r

def Request.ofArguments (args : List String) : Request := readAll {} args

end HttpWorkflow.CommandLine
