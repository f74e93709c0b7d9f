import HttpWorkflow.Expression.Conditional
import HttpWorkflow.Json.Reader
import HttpWorkflow.Script.Run
import HttpWorkflow.Template

/-! Evaluation of rendered text.

A text is a JSON value, or else one expression, or else itself. Templates render to text first.
Helpers are constants and functions that expressions may use; plain evaluation uses none. An
expression may print lines, also one that has no value in the end.
-/

set_option autoImplicit false

namespace HttpWorkflow

/-- Named values and a script of functions for expressions. -/
structure Helpers where
  bindings : Members := []
  script : Option String := none

/-- Helpers that are ready for use, and the number of operations that an expression may take; zero
is no limit. -/
structure Evaluator where
  library : Script.Program
  constants : Script.Constants
  maxOperations : Nat

namespace Expression

/-- A floating point number without a fraction, of less than 2^53, as an integer. -/
def integralFloat (x : Float) : Json :=
  if x.abs < 9007199254740992.0 && x.floor == x then
    .int (if x < 0 then -(x.abs.toUInt64.toNat : Int) else x.toUInt64.toNat)
  else .float x

mutual

/-- A value with integers in place of its integral floating point numbers. -/
def integral : Json → Json
  | .float x => integralFloat x
  | .array items => .array (integralItems items)
  | .object members => .object (integralMembers members)
  | other => other

def integralItems : List Json → List Json
  | [] => []
  | item :: rest => integral item :: integralItems rest

def integralMembers : Members → Members
  | [] => []
  | (k, v) :: rest => (k, integral v) :: integralMembers rest

end

/-- The value of a text as an expression. -/
def value? (library : Script.Program) (constants : Script.Constants) (maxOperations : Nat)
    (text : String) : Option Json := do
  let program ← Script.Program.compileExpression? (toScript text)
  (← library.run? program constants maxOperations).toJson?

def evaluate (library : Script.Program) (constants : Script.Constants) (maxOperations : Nat)
    (text : String) : Json :=
  match Json.parse? text with
  | some literal => integral literal
  | none =>
    match value? library constants maxOperations text with
    | some v => integral v
    | none => .string text

/-- What the evaluation of a text prints. -/
def printed (library : Script.Program) (constants : Script.Constants) (maxOperations : Nat)
    (text : String) : String :=
  match Json.parse? text with
  | some _ => ""
  | none =>
    match Script.Program.compileExpression? (toScript text) with
    | some program => library.output program constants maxOperations
    | none => ""

end Expression

namespace Evaluator

/-- No helpers. -/
def bare (maxOperations : Nat) : Evaluator := ⟨.empty, [], maxOperations⟩

/-- `none` when the script does not compile. -/
def ofHelpers? (helpers : Helpers) (maxOperations : Nat) : Option Evaluator := do
  let library ← match helpers.script with
    | some script => Script.Program.compile? script
    | none => some .empty
  return ⟨library, helpers.bindings.map fun (name, v) => (name, .ofJson v), maxOperations⟩

def evaluate (e : Evaluator) (text : String) : Json :=
  Expression.evaluate e.library e.constants e.maxOperations text

def plain (e : Evaluator) : Evaluator := bare e.maxOperations

/-- Render a template and evaluate the text. Falsy values are taken as they are. -/
def execute (e : Evaluator) (template : Json) (scope : Scope) : Json :=
  if template.isFalsy then template else e.evaluate (Template.renderValue template scope)

/-- What `execute` prints on the way. -/
def printed (e : Evaluator) (template : Json) (scope : Scope) : String :=
  if template.isFalsy then ""
  else Expression.printed e.library e.constants e.maxOperations (Template.renderValue template scope)

end Evaluator

end HttpWorkflow
