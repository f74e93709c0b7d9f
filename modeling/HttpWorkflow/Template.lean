import HttpWorkflow.Scope.Basic

/-! Placeholders in text.

The text is split at every opening brace. The part of a fragment before its first closing brace is
a path; one that is found in the scope is replaced by its value, and any other fragment keeps its
text and the brace in front of it. Then quotes next to a bracket are dropped, so that a value put
into a quoted slot becomes JSON.
-/

set_option autoImplicit false

namespace HttpWorkflow.Template

/-- The fragments between opening braces. -/
def fragments (cs : List Char) : List (List Char) := cs.splitOnP (· = '{')

/-- The text of a fragment with its path replaced, if it has one that the scope holds. -/
def resolve? (scope : Scope) (fragment : List Char) : Option (List Char) :=
  match fragment.dropWhile (· ≠ '}') with
  | [] => none
  | _ :: rest =>
    let path := fragment.takeWhile (· ≠ '}')
    (scope.lookup (String.ofList path)).map fun value => value.stringify.toList ++ rest

/-- Replace what the scope holds. Only the first fragment has no brace in front of it. -/
def substitute (scope : Scope) (cs : List Char) : List Char :=
  match fragments cs with
  | [] => []
  | first :: rest =>
    (resolve? scope first).getD first
      ++ rest.flatMap fun fragment => (resolve? scope fragment).getD ('{' :: fragment)

def isQuoteMark (c : Char) : Bool := c = '\\' || c = '"' || c = '|' || c = '\''

def isOpening (c : Char) : Bool := c = '[' || c = '{'

def isClosing (c : Char) : Bool := c = ']' || c = '}'

/-- Drop a quote before an opening bracket and a quote after a closing one, from left to right. -/
def unquote : List Char → List Char
  | a :: b :: rest =>
    if isQuoteMark a && isOpening b then b :: unquote rest
    else if isClosing a && isQuoteMark b then a :: unquote rest
    else a :: unquote (b :: rest)
  | short => short

def render (text : String) (scope : Scope) : String :=
  String.ofList (unquote (substitute scope text.toList))

/-- The rendered text of a value. What counts as absent renders as nothing. -/
def renderValue (value : Json) (scope : Scope) : String :=
  if value.isFalsy then "" else render value.stringify scope

end HttpWorkflow.Template
