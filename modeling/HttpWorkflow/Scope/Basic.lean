import HttpWorkflow.Json.Printer
import HttpWorkflow.Scope.Path

/-! The scope that templates look names up in.

A scope is built for one step: the caller's input over a snapshot of the query, then the bodies
collected so far under `api`. After a response the scope also holds the fields of its body.
-/

set_option autoImplicit false

namespace HttpWorkflow

structure Scope where
  fields : Members
  deriving Inhabited, BEq

namespace Scope

def empty : Scope := ⟨[]⟩

def set (s : Scope) (name : String) (value : Json) : Scope := ⟨insertMember s.fields name value⟩

def get? (s : Scope) (name : String) : Option Json := s.fields.lookup name

/-- The input over the query snapshot, which is the field `qs` unless the input has its own. -/
def ofInput (input query : Members) : Scope :=
  ⟨insertMembers [("qs", .object query)] input⟩

/-- The scope of a step. The collected bodies always replace a field `api` of the input. -/
def withBodies (s : Scope) (api : Members) : Scope := s.set "api" (.object api)

/-- The fields that a body puts at the top: its members, or its items under their indices. -/
def lifted : Json → Members
  | .object members => members
  | .array items => items.zipIdx.map fun (item, i) => (toString i, item)
  | _ => []

def withResponse (s : Scope) (step : String) (body : Json) : Scope :=
  let api := match s.get? "api" with
    | some (.object members) => members
    | _ => []
  let recorded := s.set "api" (.object (insertMember api step body))
  ⟨insertMembers recorded.fields (lifted body)⟩

/-- An array index: decimal digits, after at most one plus sign, in the range of a word. -/
def index? (segment : String) : Option Nat :=
  let digits := match segment.toList with
    | '+' :: rest => rest
    | cs => cs
  if digits.isEmpty || !digits.all Char.isDigit then none
  else
    let n := digits.foldl (fun n c => n * 10 + (c.toNat - 48)) 0
    if n < Nat.pow 2 64 then some n else none

/-- One move into a value. -/
def enter (value : Json) (segment : String) : Option Json :=
  match value with
  | .object members => members.lookup segment
  | .array items => do items[← index? segment]?
  | _ => none

/-- The value at a dotted path. A stored null is found. -/
def lookup (s : Scope) (path : String) : Option Json :=
  match Path.segments path with
  | [] => none
  | first :: rest => (s.get? first).bind fun value => rest.foldlM enter value

end Scope

end HttpWorkflow
