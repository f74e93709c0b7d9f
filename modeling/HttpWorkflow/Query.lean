import HttpWorkflow.Json.Printer
import HttpWorkflow.Text.Percent

/-! Query strings, read into an object and written from one. -/

set_option autoImplicit false

namespace HttpWorkflow.Query

/-- The pieces between separators. -/
def pieces (separator : Char) (cs : List Char) : List (List Char) :=
  cs.splitOnP (· = separator)

/-- A component as it was before encoding: a plus sign is a space, and escapes are octets of UTF-8.
Where these are ill-formed the escapes stay as they are. -/
def decodeComponent (cs : List Char) : List Char :=
  let spaced := cs.map fun c => if c = '+' then ' ' else c
  (Utf8.decode (Percent.decode (Utf8.encode spaced))).getD spaced

/-- A piece split at its first equals sign; without one the value is empty. -/
def pair (piece : List Char) : String × String :=
  let key := piece.takeWhile (· ≠ '=')
  let value := (piece.dropWhile (· ≠ '=')).drop 1
  (String.ofList (decodeComponent key), String.ofList (decodeComponent value))

/-- The decoded pairs, in order. One leading question mark is optional. -/
def pairs (raw : String) : List (String × String) :=
  let cs := match raw.toList with
    | '?' :: rest => rest
    | cs => cs
  ((pieces '&' cs).filter (!·.isEmpty)).map pair

/-- Add one more value for a key: a second one turns the string into an array. -/
def collect (members : Members) (key value : String) : Members :=
  match members.lookup key with
  | none => members ++ [(key, .string value)]
  | some (.array values) => insertMember members key (.array (values ++ [.string value]))
  | some first => insertMember members key (.array [first, .string value])

def parse (raw : String) : Members :=
  (pairs raw).foldl (fun members p => collect members p.1 p.2) []

mutual

/-- The text of a value in a query: arrays by their items, in which a null is empty. -/
def display : Json → String
  | .string s => s
  | .array items => ",".intercalate (displayItems items)
  | .object _ => "[object Object]"
  | other => other.compress

def displayItems : List Json → List String
  | [] => []
  | .null :: rest => "" :: displayItems rest
  | item :: rest => display item :: displayItems rest

end

def encodeComponent (s : String) : String := String.ofList (Percent.encode s.toList)

/-- `key=value` pairs joined by ampersands, both sides encoded. -/
def serialize (fields : Members) : String :=
  "&".intercalate (fields.map fun (k, v) => encodeComponent k ++ "=" ++ encodeComponent (display v))

end HttpWorkflow.Query
