/-! JSON values.

Objects keep their members in written order. Integers and floating point numbers are different
numbers: `1` is not `1.0`. A tree as written may repeat a key; `collapse` gives the value that it
denotes, in which a key keeps its first position and takes its last value.
-/

set_option autoImplicit false

namespace HttpWorkflow

/-- Put `value` at `key`: in place of the value that is there, else after all other members. -/
def insertMember {α : Type} (members : List (String × α)) (key : String) (value : α) :
    List (String × α) :=
  match members with
  | [] => [(key, value)]
  | (k, v) :: rest => if k = key then (k, value) :: rest else (k, v) :: insertMember rest key value

def insertMembers {α : Type} (members : List (String × α)) (added : List (String × α)) :
    List (String × α) :=
  added.foldl (fun acc m => insertMember acc m.1 m.2) members

inductive Json where
  | null
  | bool (value : Bool)
  | int (value : Int)
  | float (value : Float)
  | string (value : String)
  | array (items : List Json)
  | object (members : List (String × Json))
  deriving Inhabited

/-- The members of a JSON object. -/
abbrev Members := List (String × Json)

namespace Json

mutual

def beq : Json → Json → Bool
  | null, null => true
  | bool a, bool b => a == b
  | int a, int b => a == b
  | float a, float b => a.toBits == b.toBits
  | string a, string b => a == b
  | array a, array b => beqItems a b
  | object a, object b => beqMembers a b
  | _, _ => false

def beqItems : List Json → List Json → Bool
  | [], [] => true
  | a :: as, b :: bs => beq a b && beqItems as bs
  | _, _ => false

def beqMembers : List (String × Json) → List (String × Json) → Bool
  | [], [] => true
  | (k, a) :: as, (l, b) :: bs => k == l && beq a b && beqMembers as bs
  | _, _ => false

end

instance : BEq Json := ⟨beq⟩

mutual

/-- The value that a tree with repeated keys denotes. -/
def collapse : Json → Json
  | array items => array (collapseItems items)
  | object members => object (insertMembers [] (collapseMembers members))
  | other => other

def collapseItems : List Json → List Json
  | [] => []
  | item :: rest => collapse item :: collapseItems rest

def collapseMembers : List (String × Json) → List (String × Json)
  | [] => []
  | (k, v) :: rest => (k, collapse v) :: collapseMembers rest

end

/-- Null, false, zero of either kind and the empty string count as absent. -/
def isFalsy : Json → Bool
  | null => true
  | bool b => !b
  | int n => n = 0
  | float x => x == 0
  | string s => s.isEmpty
  | array _ | object _ => false

def member? (members : Members) (key : String) : Option Json := members.lookup key

end Json

end HttpWorkflow
