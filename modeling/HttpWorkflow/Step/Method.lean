/-! The verbs that a step may use. -/

set_option autoImplicit false

namespace HttpWorkflow

inductive Method where
  | post
  | get
  | put
  | patch
  | delete
  deriving DecidableEq, Repr, Inhabited

namespace Method

def all : List Method := [post, get, put, patch, delete]

def name : Method → String
  | post => "POST"
  | get => "GET"
  | put => "PUT"
  | patch => "PATCH"
  | delete => "DELETE"

/-- Whether the payload travels in the body rather than in the query. -/
def carriesBody : Method → Bool
  | post | put | patch => true
  | get | delete => false

/-- The verb of this name, in capital letters. -/
def ofName? (name : String) : Option Method := all.find? (·.name == name)

@[simp] theorem ofName?_name (m : Method) : ofName? m.name = some m := by
  cases m <;> decide

end Method

end HttpWorkflow
