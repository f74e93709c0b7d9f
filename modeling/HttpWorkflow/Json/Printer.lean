import HttpWorkflow.Decimal.Notation
import HttpWorkflow.Json.Basic

/-! JSON text of a value: compact, and indented by two spaces. -/

set_option autoImplicit false

namespace HttpWorkflow.Json

/-- JSON numbers are positional from `1e-5` up to below `1e16`, else they have a signed exponent.
What is no number is written as null. -/
def numberNotation : Decimal.Notation where
  plainFrom := -5
  plainBelow := 16
  exponentPlus := true
  tieUp := false
  signedZero := true
  nan := "null"
  infinity := "null"

def floatText (x : Float) : String :=
  if x.isInf then "null" else numberNotation.render x

def hexLower (n : Nat) : Char :=
  if n < 10 then Char.ofNat (n + 48) else Char.ofNat (n + 87)

/-- A character inside a string literal. -/
def escapeChar (c : Char) : List Char :=
  if c = '"' then ['\\', '"']
  else if c = '\\' then ['\\', '\\']
  else if c = '\n' then ['\\', 'n']
  else if c = '\r' then ['\\', 'r']
  else if c = '\t' then ['\\', 't']
  else if c.toNat = 8 then ['\\', 'b']
  else if c.toNat = 12 then ['\\', 'f']
  else if c.toNat < 32 then ['\\', 'u', '0', '0', hexLower (c.toNat / 16), hexLower (c.toNat % 16)]
  else [c]

def quote (s : String) : List Char := '"' :: s.toList.flatMap escapeChar ++ ['"']

mutual

def write : Json → List Char
  | null => "null".toList
  | bool b => (if b then "true" else "false").toList
  | int n => (toString n).toList
  | float x => (floatText x).toList
  | string s => quote s
  | array items => '[' :: writeItems items ++ [']']
  | object members => '{' :: writeMembers members ++ ['}']

def writeItems : List Json → List Char
  | [] => []
  | [item] => write item
  | item :: rest => write item ++ ',' :: writeItems rest

def writeMembers : List (String × Json) → List Char
  | [] => []
  | [(k, v)] => quote k ++ ':' :: write v
  | (k, v) :: rest => quote k ++ ':' :: write v ++ ',' :: writeMembers rest

end

/-- Compact JSON text. -/
def compress (j : Json) : String := String.ofList j.write

def newline (depth : Nat) : List Char := '\n' :: List.replicate (2 * depth) ' '

mutual

/-- Text with one item or member a line. Empty arrays and objects stay closed. -/
def writePretty (depth : Nat) : Json → List Char
  | array [] => ['[', ']']
  | array items => '[' :: prettyItems (depth + 1) items ++ newline depth ++ [']']
  | object [] => ['{', '}']
  | object members => '{' :: prettyMembers (depth + 1) members ++ newline depth ++ ['}']
  | other => write other

def prettyItems (depth : Nat) : List Json → List Char
  | [] => []
  | [item] => newline depth ++ writePretty depth item
  | item :: rest => newline depth ++ writePretty depth item ++ ',' :: prettyItems depth rest

def prettyMembers (depth : Nat) : List (String × Json) → List Char
  | [] => []
  | [(k, v)] => newline depth ++ quote k ++ ':' :: ' ' :: writePretty depth v
  | (k, v) :: rest =>
    newline depth ++ quote k ++ ':' :: ' ' :: writePretty depth v ++ ',' :: prettyMembers depth rest

end

def pretty (j : Json) : String := String.ofList (j.writePretty 0)

/-- Strings as they are, everything else as compact JSON. -/
def stringify : Json → String
  | string s => s
  | other => other.compress

end HttpWorkflow.Json
