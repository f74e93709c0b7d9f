import HttpWorkflow.Json.Basic

/-! Condition tables: what to do about a response, by a key taken from it.

Keys are extracted values, status codes or `default`. A table with a key template matches on the
rendered template in place of the status code.
-/

set_option autoImplicit false

namespace HttpWorkflow

/-- What one key of a table asks for. An entry that proceeds marks its key as success. -/
structure ConditionEntry where
  redirect : Option Json := none
  message : Option Json := none
  proceeds : Bool := false
  deriving Inhabited, BEq

structure ConditionTable where
  key : Option String := none
  entries : List (String × ConditionEntry) := []
  deriving Inhabited, BEq

/-- A member for a value that is there. -/
def optionalMember (name : String) : Option Json → Members
  | some v => [(name, v)]
  | none => []

namespace ConditionEntry

def toJson (e : ConditionEntry) : Json :=
  .object (optionalMember "redirect" e.redirect ++ optionalMember "message" e.message
    ++ if e.proceeds then [("continue", .bool true)] else [])

end ConditionEntry

namespace ConditionTable

def get? (t : ConditionTable) (key : String) : Option ConditionEntry := t.entries.lookup key

def forStatus? (t : ConditionTable) (status : Nat) : Option ConditionEntry :=
  t.get? (toString status)

def fallback? (t : ConditionTable) : Option ConditionEntry := t.get? "default"

def insert (t : ConditionTable) (key : String) (entry : ConditionEntry) : ConditionTable :=
  { t with entries := insertMember t.entries key entry }

/-- The key template first, then the entries in order. -/
def toJson (t : ConditionTable) : Json :=
  .object (optionalMember "key" (t.key.map .string)
    ++ t.entries.map fun (k, e) => (k, e.toJson))

end ConditionTable

end HttpWorkflow
