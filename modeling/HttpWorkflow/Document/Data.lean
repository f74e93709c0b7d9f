import HttpWorkflow.Json.Basic

/-! Documents as trees, before it is known what they describe.

A scalar without quotes is kept as it is written: it is a text where a text is due, and elsewhere
null, a flag, a number or a text by its form. Quoted scalars and the scalars of JSON have one kind.
A map keeps repeated keys.
-/

set_option autoImplicit false

namespace HttpWorkflow.Document

inductive Data where
  | null
  | flag (value : Bool)
  | int (value : Int)
  | float (value : Float)
  | text (value : String)
  | plain (text : String)
  | list (items : List Data)
  | map (entries : List (Data × Data))
  | tagged (tag : String) (content : Data)
  /-- What no field can be read from. -/
  | unreadable
  deriving Inhabited

namespace Data

mutual

def ofJson : Json → Data
  | .null => null
  | .bool b => flag b
  | .int n => int n
  | .float x => float x
  | .string s => text s
  | .array items => list (ofItems items)
  | .object members => map (ofMembers members)

def ofItems : List Json → List Data
  | [] => []
  | item :: rest => ofJson item :: ofItems rest

def ofMembers : List (String × Json) → List (Data × Data)
  | [] => []
  | (k, v) :: rest => (text k, ofJson v) :: ofMembers rest

end

/-- The content without its tag. -/
def untagged : Data → Data
  | tagged _ content => content
  | other => other

/-- The text of a field that holds one: any scalar of a document without types. -/
def text? (d : Data) : Option String :=
  match d.untagged with
  | text s | plain s => some s
  | _ => none

def isNullWord (s : String) : Bool := s == "null" || s == "Null" || s == "NULL" || s == "~"

def flagWord? (s : String) : Option Bool :=
  if s == "true" || s == "True" || s == "TRUE" then some true
  else if s == "false" || s == "False" || s == "FALSE" then some false
  else none

def flag? (d : Data) : Option Bool :=
  match d.untagged with
  | flag b => some b
  | plain s => flagWord? s
  | _ => none

/-- The entries of a map. A scalar with nothing written counts as a map without entries. -/
def entries? (d : Data) : Option (List (Data × Data)) :=
  match d.untagged with
  | map entries => some entries
  | plain "" => some []
  | _ => none

def nullTag : String := "tag:yaml.org,2002:null"

/-- A value that may be missing; `none` for what is neither there nor absent. -/
def optional? (d : Data) : Option (Option Data) :=
  match d with
  | null => some none
  | plain s => some (if s.isEmpty || isNullWord s then none else some d)
  | tagged tag (plain s) =>
    if tag == nullTag then if isNullWord s then some none else none else some (some d)
  | d => some (some d)

end Data

end HttpWorkflow.Document
