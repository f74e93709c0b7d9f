import HttpWorkflow.Script.Library.Reply

/-! Functions on arrays, maps and ranges that need no call back into the script. -/

set_option autoImplicit false

namespace HttpWorkflow.Script.Library

/-- The position of the first item at or after `at_` that equals a value. -/
def positionOf (v : Value) : Nat → List Value → Option Nat
  | _, [] => none
  | at_, item :: rest =>
    if Operator.equal? item v = some true then some at_ else positionOf v (at_ + 1) rest

def insertAt {α : Type} (items : List α) (position : Int) (item : α) : List α :=
  let at_ := min (start items.length position) items.length
  items.take at_ ++ item :: items.drop at_

/-- Neighbouring equal items once. -/
def dedup : List Value → List Value
  | a :: b :: rest =>
    if Operator.equal? a b = some true then dedup (a :: rest) else a :: dedup (b :: rest)
  | short => short
termination_by items => items.length

/-- Whether one item stands before or beside another of its kind. -/
def inOrder : Value → Value → Bool
  | .int x, .int y => x ≤ y
  | .float x, .float y => x ≤ y
  | .text x, .text y => x ≤ y
  | .char x, .char y => x ≤ y
  | .bool x, .bool y => !x || y
  | _, _ => true

def hasOrder : Value → Bool
  | .int _ | .float _ | .text _ | .char _ | .bool _ | .unit => true
  | _ => false

/-- Sort items that are all of one kind that has an order. -/
def sort? (le : Value → Value → Bool) (items : List Value) : Option (List Value) :=
  match items with
  | [] | [_] => some items
  | first :: rest =>
    if hasOrder first && rest.all (·.typeName == first.typeName) then some (items.mergeSort le)
    else none

def upwards? (items : List Value) : Option (List Value) := sort? inOrder items

def downwards? (items : List Value) : Option (List Value) := sort? (fun x y => inOrder y x) items

/-- The part of a list that a start and a length select: what is before, in and after it. -/
def cut {α : Type} (items : List α) (first length : Int) : List α × List α × List α :=
  let at_ := start items.length first
  (items.take at_, (items.drop at_).take length.toNat, items.drop (at_ + length.toNat))

def splice (items : List Value) (first length : Int) (added : List Value) : Call :=
  let (before, _, after) := cut items first length
  change (.array (before ++ added ++ after)) .unit

/-- Take the selected part out of an array. -/
def drain (items : List Value) (first length : Int) : Call :=
  let (before, inside, after) := cut items first length
  change (.array (before ++ after)) (.array inside)

/-- Keep the selected part of an array, unless it is empty, and give the others. -/
def retain (items : List Value) (first length : Int) : Call :=
  let (before, inside, after) := cut items first length
  if inside.isEmpty then give (.array []) else change (.array inside) (.array (before ++ after))

def onArray (name : String) (items : List Value) (rest : List Value) : Call :=
  match name, rest with
  | "len", [] => give (.int items.length)
  | "is_empty", [] => give (.bool items.isEmpty)
  | "push", [v] => change (.array (items ++ [v])) .unit
  | "append", [.array other] => change (.array (items ++ other)) .unit
  | "insert", [.int i, v] => change (.array (insertAt items i v)) .unit
  | "pop", [] => change (.array items.dropLast) (items.getLast?.getD .unit)
  | "shift", [] => change (.array (items.drop 1)) (items.headD .unit)
  | "remove", [.int i] =>
    match place? items.length i with
    | some i => change (.array (items.eraseIdx i)) (items[i]?.getD .unit)
    | none => give .unit
  | "reverse", [] => change (.array items.reverse) .unit
  | "sort", [] =>
    match upwards? items with
    | some sorted => change (.array sorted) .unit
    | none => refuse .wrongType
  | "sort_desc", [] =>
    match downwards? items with
    | some sorted => change (.array sorted) .unit
    | none => refuse .wrongType
  | "order", [] => ((upwards? items).elim (refuse .wrongType) fun sorted => give (.array sorted))
  | "order_desc", [] =>
    ((downwards? items).elim (refuse .wrongType) fun sorted => give (.array sorted))
  | "splice", [.int i, .int n, .array added] => splice items i n added
  | "splice", [.range a b inclusive, .array added] =>
    let (i, n) := span a b inclusive
    splice items i n added
  | "drain", [.int i, .int n] => drain items i n
  | "drain", [.range a b inclusive] =>
    let (i, n) := span a b inclusive
    drain items i n
  | "retain", [.int i, .int n] => retain items i n
  | "retain", [.range a b inclusive] =>
    let (i, n) := span a b inclusive
    retain items i n
  | "dedup", [] => change (.array (dedup items)) .unit
  | "clear", [] => change (.array []) .unit
  | "truncate", [.int n] => change (.array (items.take n.toNat)) .unit
  | "chop", [.int n] => change (.array (items.drop (items.length - n.toNat))) .unit
  | "pad", [.int n, v] =>
    if Value.maxItems < n.toNat then refuse .dataTooLarge
    else change (.array (items ++ List.replicate (n.toNat - items.length) v)) .unit
  | "get", [.int i] => give (items[start items.length i]?.getD .unit)
  | "set", [.int i, v] => change (.array (items.set (start items.length i) v)) .unit
  | "contains", [v] => give (.bool (positionOf v 0 items).isSome)
  | "index_of", [v] =>
    give (match positionOf v 0 items with | some n => .int n | none => .int (-1))
  | "index_of", [v, .int i] =>
    let at_ := start items.length i
    give (match positionOf v at_ (items.drop at_) with | some n => .int n | none => .int (-1))
  | "extract", [.int i] => give (.array (slice items i items.length))
  | "extract", [.int i, .int n] => give (.array (slice items i n))
  | "extract", [.range a b inclusive] =>
    let (i, n) := span a b inclusive
    give (.array (slice items i n))
  | "split", [.int i] =>
    let at_ := start items.length i
    change (.array (items.take at_)) (.array (items.drop at_))
  | _, _ => none

def mixin (entries added : List (String × Value)) : List (String × Value) :=
  added.foldl (fun m e => Value.insertEntry m e.1 e.2) entries

mutual

/-- A map as an object of other notations: `null` for the unit value. -/
def objectText (entries : List (String × Value)) : String :=
  "\x7b" ++ ",".intercalate (memberTexts entries) ++ "\x7d"

def memberTexts : List (String × Value) → List String
  | [] => []
  | (k, v) :: rest => ((Value.text k).inspect ++ ":" ++ memberText v) :: memberTexts rest

def memberText : Value → String
  | .unit => "null"
  | .map entries => objectText entries
  | v => v.inspect

end

def onMap (name : String) (entries : List (String × Value)) (rest : List Value) : Call :=
  match name, rest with
  | "len", [] => give (.int entries.length)
  | "is_empty", [] => give (.bool entries.isEmpty)
  | "clear", [] => change (.map []) .unit
  | "contains", [.text k] => give (.bool (entries.lookup k).isSome)
  | "get", [.text k] => give ((entries.lookup k).getD .unit)
  | "set", [.text k, v] => change (.map (Value.insertEntry entries k v)) .unit
  | "remove", [.text k] =>
    change (.map (entries.filter (·.1 ≠ k))) ((entries.lookup k).getD .unit)
  | "mixin", [.map other] => change (.map (mixin entries other)) .unit
  | "fill_with", [.map other] => change (.map (mixin other entries)) .unit
  | "keys", [] => give (.array (entries.map fun e => .text e.1))
  | "values", [] => give (.array (entries.map (·.2)))
  | "to_json", [] => give (.text (objectText entries))
  | _, _ => none

def onRange (name : String) (first last : Int) (inclusive : Bool) (rest : List Value) : Call :=
  match name, rest with
  | "start", [] => give (.int first)
  | "end", [] => give (.int last)
  | "is_inclusive", [] => give (.bool inclusive)
  | "is_exclusive", [] => give (.bool !inclusive)
  | "is_empty", [] => give (.bool (if inclusive then last < first else last ≤ first))
  | "contains", [.int n] =>
    give (.bool (first ≤ n && (if inclusive then n ≤ last else n < last)))
  | "range", [] => give (.range first last inclusive)
  | _, _ => none

end HttpWorkflow.Script.Library
