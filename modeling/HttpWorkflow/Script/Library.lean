import HttpWorkflow.Script.Library.Collection
import HttpWorkflow.Script.Library.Number
import HttpWorkflow.Script.Library.Text

/-! The functions that every script may call.

The first argument is the receiver of a method call. Operators are functions too, under their
signs. Functions that call back into the script belong to the evaluator.

Evaluation reads no clock: `timestamp`, and what may be asked of its values, is left out, and of
`sleep` there is only the value. Blobs and `parse_json` are left out as well.
-/

set_option autoImplicit false

namespace HttpWorkflow.Script.Library

def isOperator (name : String) : Bool :=
  ["+", "-", "*", "/", "%", "**", "<<", ">>", "&", "|", "^", "==", "!=", "<", "<=", ">", ">=",
    "..", "..=", "!"].contains name

/-- Functions that change their receiver, and so refuse a constant one. -/
def changesReceiver (name : String) : Bool :=
  ["make_upper", "make_lower", "trim", "clear", "crop", "replace", "remove", "set", "pop",
    "truncate", "pad", "append", "push", "insert", "shift", "reverse", "sort", "dedup", "chop",
    "mixin", "fill_with", "drain", "retain", "splice", "sort_by", "sort_desc", "for_each", "+="].contains name

def onAny (name : String) (receiver : Value) (rest : List Value) : Call :=
  match name, rest with
  | "to_string", [] => give (.text receiver.display)
  | "to_debug", [] => give (.text receiver.inspect)
  | "type_of", [] => give (.text receiver.typeName)
  | "is_shared", [] => give (.bool false)
  | _, _ => none

def onFunction (name : String) (target : String) (bound rest : List Value) : Call :=
  match name, rest with
  | "name", [] => give (.text target)
  | "is_anonymous", [] => give (.bool (target.startsWith "anon$"))
  | "curry", args => give (.function target (bound ++ args))
  | _, _ => none

def byKind (name : String) (receiver : Value) (rest : List Value) : Call :=
  match receiver with
  | .int n => onInt name n rest
  | .float x => onFloat name x rest
  | .char c => onChar name c rest
  | .text s => onText name s rest
  | .array items => onArray name items rest
  | .map entries => onMap name entries rest
  | .range first last inclusive => onRange name first last inclusive rest
  | .function target bound => onFunction name target bound rest
  | _ => none

/-- Call the function of this name that takes these arguments. -/
def call (name : String) (args : List Value) : Call :=
  match args with
  | [] =>
    match name with
    | "PI" => give (.float pi)
    | "E" => give (.float 2.718281828459045)
    | _ => none
  | [x] =>
    if isOperator name then ofAnswer (Operator.unary name x)
    else (byKind name x []).orElse fun _ => onAny name x []
  | [x, y] =>
    if isOperator name then ofAnswer (Operator.binary name x y)
    else (byKind name x [y]).orElse fun _ => onAny name x [y]
  | x :: rest => (byKind name x rest).orElse fun _ => onAny name x rest

/-- A property that is not an entry of a map: the result of a function without arguments. -/
def property (name : String) (receiver : Value) : Call :=
  let readable := ["len", "bytes", "is_empty", "is_odd", "is_even", "is_zero", "is_nan",
    "is_finite", "is_infinite", "floor", "ceiling", "round", "int", "fraction", "start", "end",
    "is_inclusive", "is_exclusive", "name", "is_anonymous"]
  if readable.contains name then byKind name receiver [] else none

/-- The new value of a variable after `x op= y`. Arrays and maps take the right side in. -/
def update (op : String) (x y : Value) : Answer :=
  match op, x, y with
  | "+", .array items, .array other => some (.ok (.array (items ++ other)))
  | "+", .array items, item => some (.ok (.array (items ++ [item])))
  | "+", .map entries, .map other => some (.ok (.map (mixin entries other)))
  | _, _, _ => Operator.binary op x y

end HttpWorkflow.Script.Library
