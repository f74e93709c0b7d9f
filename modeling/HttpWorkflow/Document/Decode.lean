import HttpWorkflow.Document.Scalar
import HttpWorkflow.Workflow

/-! Reading workflows, steps and condition tables from document trees.

A known field may be given once. Unknown fields of a step are its options, of which a repeated one
keeps its first position and its last value; other unknown fields are passed over.
-/

set_option autoImplicit false

namespace HttpWorkflow

open Document (Data)

namespace Document

/-- How the trees of a format are read. In a positional format a list may stand for the fields of
an entry in their order. -/
structure Format where
  positional : Bool

def Format.json : Format := ⟨true⟩

def Format.yaml : Format := ⟨false⟩

/-- The value of a field that may be given once; `none` when it is given again. -/
def once? (fields : List (String × Data)) (name : String) : Option (Option Data) :=
  match fields.filter (·.1 == name) with
  | [] => some none
  | [(_, v)] => some (some v)
  | _ => none

/-- The entries of a map whose keys are texts. -/
def fields? (d : Data) : Option (List (String × Data)) := do
  (← d.entries?).mapM fun (k, v) => return (← k.text?, v)

def requiredText? (fields : List (String × Data)) (name : String) : Option String := do
  (← (← once? fields name)).text?

/-- A value that may be null or left out. -/
def optionalJson? (d : Option Data) : Option (Option Json) :=
  match d with
  | none => some none
  | some d => do
    match ← d.optional? with
    | none => return none
    | some d => return some (← d.toJson? false)

def optionalText? (d : Option Data) : Option (Option String) :=
  match d with
  | none => some none
  | some d => do
    match ← d.optional? with
    | none => return none
    | some d => return some (← d.text?)

/-- A flag that is off when left out. -/
def flagField? (d : Option Data) : Option Bool :=
  match d with
  | none => some false
  | some d => d.flag?

end Document

open Document

namespace ConditionEntry

def ofFields? (redirect message proceeds : Option Data) : Option ConditionEntry := do
  return ⟨← optionalJson? redirect, ← optionalJson? message, ← flagField? proceeds⟩

def ofData? (format : Format) (d : Data) : Option ConditionEntry := do
  match format.positional, d with
  | true, .list items =>
    guard (items.length ≤ 3)
    ofFields? items[0]? items[1]? items[2]?
  | _, d =>
    let fields ← fields? d
    ofFields? (← once? fields "redirect") (← once? fields "message") (← once? fields "continue")

end ConditionEntry

namespace ConditionTable

/-- The text of a key: a text, an integer or a flag. -/
def keyText? (d : Data) : Option String :=
  match d.scalar? with
  | some (.text s) => some s
  | some (.int n) => some (toString n)
  | some (.flag b) => some (if b then "true" else "false")
  | _ => none

/-- Take one more entry of a document into the table. -/
def add? (format : Format) (t : ConditionTable) (entry : Data × Data) : Option ConditionTable := do
  let key ← keyText? entry.1
  if key == "key" then return { t with key := ← optionalText? (some entry.2) }
  else return t.insert key (← ConditionEntry.ofData? format entry.2)

def ofData? (format : Format) (d : Data) : Option ConditionTable := do
  (← d.entries?).foldlM (add? format) {}

end ConditionTable

namespace Step

/-- The names of the known fields, which are no options. -/
def fieldNames : List String :=
  ["url", "method", "headers", "request", "beforeFetch", "condition", "shouldHideError",
    "shouldContinueNextApiOnError"]

/-- The value of an option, inside which keys must be texts by their form. -/
def options? (fields : List (String × Data)) : Option Members := do
  let given ← (fields.filter fun f => !fieldNames.contains f.1).mapM fun (name, v) =>
    return (name, ← v.toJson? true)
  return insertMembers [] given

def ofData? (format : Format) (d : Data) : Option Step := do
  let fields ← fields? d
  return {
    url := ← requiredText? fields "url"
    method := ← requiredText? fields "method"
    headers := ← optionalJson? (← once? fields "headers")
    request := ← optionalJson? (← once? fields "request")
    beforeFetch := ← optionalJson? (← once? fields "beforeFetch")
    condition := ← ConditionTable.ofData? format (← (← once? fields "condition"))
    hidesError := ← flagField? (← once? fields "shouldHideError")
    continuesOnError := ← flagField? (← once? fields "shouldContinueNextApiOnError")
    options := ← options? fields }

end Step

namespace StepMap

def ofData? (format : Format) (d : Data) : Option StepMap := do
  let steps ← (← fields? d).mapM fun (name, v) => return (name, ← Step.ofData? format v)
  return ofIndexMap (.ofList steps)

end StepMap

namespace Workflow

def ofData? (format : Format) (d : Data) : Option Workflow := do
  let fields ← fields? d
  let name ← match ← once? fields "name" with
    | some v => v.text?
    | none => some ""
  return ⟨name, ← optionalText? (← once? fields "description"),
    ← StepMap.ofData? format (← (← once? fields "steps"))⟩

end Workflow

end HttpWorkflow
