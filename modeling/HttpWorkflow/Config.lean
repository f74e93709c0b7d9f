/-! Settings of a run. -/

set_option autoImplicit false

namespace HttpWorkflow

structure Config where
  /-- What relative URLs of steps refer to. -/
  baseUrl : Option String := none
  /-- The query string of the current page, which templates see as `qs`. -/
  query : String := ""
  /-- Milliseconds. -/
  timeout : Nat := 30000
  /-- Operations that one expression may take; zero is no limit. -/
  maxOperations : Nat := 100000
  deriving Inhabited, DecidableEq, Repr

namespace Config

/-- A number of 64 bits in decimal digits, after at most one plus sign. -/
def number? (text : String) : Option Nat :=
  let digits := match text.toList with
    | '+' :: rest => rest
    | cs => cs
  if digits.isEmpty || !digits.all Char.isDigit then none
  else
    let n := digits.foldl (fun n c => n * 10 + (c.toNat - 48)) 0
    if n < Nat.pow 2 64 then some n else none

/-- The names of the variables that hold settings. -/
def variableNames : List String :=
  ["APICHAIN_BASE_URL", "APICHAIN_QUERY", "APICHAIN_TIMEOUT_MS", "APICHAIN_MAX_OPERATIONS"]

/-- The settings of an environment; what is unset or unreadable keeps its default. -/
def ofEnvironment (env : String → Option String) : Config where
  baseUrl := (env "APICHAIN_BASE_URL").filter (!·.isEmpty)
  query := (env "APICHAIN_QUERY").getD ""
  timeout := ((env "APICHAIN_TIMEOUT_MS").bind number?).getD 30000
  maxOperations := ((env "APICHAIN_MAX_OPERATIONS").bind number?).getD 100000

end Config

end HttpWorkflow
