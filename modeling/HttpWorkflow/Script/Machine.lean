import HttpWorkflow.Script.Library
import HttpWorkflow.Script.Syntax

/-! The state of a running script, and the places in it that hold values. -/

set_option autoImplicit false

namespace HttpWorkflow.Script

structure Entry where
  name : String
  value : Value
  isConstant : Bool
  deriving Inhabited

/-- The variables in sight, innermost first; those of the outermost level; the value that a method
works on; variables shared by closures; what has been used of the resources; and what has been
printed. -/
structure Machine where
  scope : List Entry
  globals : List Entry
  receiver : Option Value
  cells : Array Value
  operations : Nat
  depth : Nat
  printed : String
  deriving Inhabited

/-- Why evaluation leaves its place: a fault, or a jump. -/
inductive Stop where
  | fault (f : Fault)
  | returned (value : Value)
  | left (value : Value)
  | next
  | exited (value : Value)

abbrev Eval := EStateM Stop Machine

/-- What a script may call and how much it may do; no limit on operations is zero. The place is the
one of the call that is being made. -/
structure Rules where
  program : Program
  maxOperations : Nat
  position : Option Position := none

def maxCalls : Nat := 32

namespace Machine

def start (scope : List Entry) : Machine :=
  { scope := scope, globals := [], receiver := none, cells := #[], operations := 0, depth := 0
    printed := "" }

end Machine

namespace Eval

def fault {α : Type} (f : Fault) : Eval α := throw (.fault f)

/-- Count one operation. -/
def tick (r : Rules) : Eval Unit := do
  let m ← get
  let n := m.operations + 1
  set { m with operations := n }
  if r.maxOperations ≠ 0 && r.maxOperations < n then fault .tooManyOperations

/-- Write a line. -/
def say (line : String) : Eval Unit :=
  modify fun m => { m with printed := m.printed ++ line ++ "\n" }

def ofExcept {α : Type} : Except Fault α → Eval α
  | .ok a => pure a
  | .error f => fault f

/-- A value that stays within the limits on data. -/
def checked (v : Value) : Eval Value :=
  if v.fits then pure v else fault .dataTooLarge

def bool (v : Value) : Eval Bool :=
  match v with
  | .bool b => pure b
  | _ => fault .wrongType

def keepScope (outer inner : Machine) : Machine :=
  { inner with scope := inner.scope.drop (inner.scope.length - outer.scope.length) }

/-- Run code and forget the variables that it declares. -/
def inBlock {α : Type} (body : Eval α) : Eval α := fun m =>
  match body m with
  | .ok v n => .ok v (keepScope m n)
  | .error e n => .error e (keepScope m n)

/-- Run the body of a loop once: the value that it leaves the loop with, if it does. -/
def round (body : Eval Value) : Eval (Option Value) := fun m =>
  match body m with
  | .ok _ n => .ok none n
  | .error .next n => .ok none n
  | .error (.left v) n => .ok (some v) n
  | .error e n => .error e n

/-- Run code and take the value that it returns. -/
def catchReturn (body : Eval Value) : Eval Value := fun m =>
  match body m with
  | .error (.returned v) n => .ok v n
  | other => other

/-- Run code; a fault that may be caught goes to the handler. -/
def catchFault (body : Eval Value) (handler : Fault → Eval Value) : Eval Value := fun m =>
  match body m with
  | .error (.fault f) n => if f.catchable then handler f n else .error (.fault f) n
  | other => other

def deref (v : Value) : Eval Value := do
  match v with
  | .cell i => return (← get).cells.getD i .unit
  | v => return v

def push (name : String) (value : Value) (isConstant : Bool) : Eval Unit :=
  modify fun m => { m with scope := ⟨name, value, isConstant⟩ :: m.scope }

end Eval

/-- What a place starts from: a variable, counted from the outermost one, the receiver of a method,
or a value that nothing holds. -/
inductive Root where
  | variable (position : Nat)
  | receiver
  | temporary

inductive Hop where
  | key (name : String)
  | item (position : Nat)

/-- A place and what it holds. After a missing optional value nothing more is read. -/
structure Located where
  value : Value
  root : Root
  path : List Hop
  isConstant : Bool
  skipped : Bool

namespace Located

def temporary (v : Value) : Located := ⟨v, .temporary, [], false, false⟩

def nothing : Located := ⟨.unit, .temporary, [], false, true⟩

def into (l : Located) (hop : Hop) (v : Value) : Located :=
  { l with value := v, path := l.path ++ [hop] }

/-- The value of a property. -/
def property (l : Located) (name : String) : Except Fault Located :=
  match l.value with
  | .map entries => .ok (l.into (.key name) ((entries.lookup name).getD .unit))
  | v =>
    match Library.property name v with
    | some (.ok reply) => .ok (temporary reply.result)
    | some (.error f) => .error f
    | none => .error (.undefinedProperty name)

/-- The value at a position. -/
def index (l : Located) (position : Value) : Except Fault Located :=
  match l.value, position with
  | .array items, .int i =>
    match Library.place? items.length i with
    | some n => .ok (l.into (.item n) (items[n]?.getD .unit))
    | none => .error .outOfBounds
  | .text s, .int i =>
    match Library.place? s.toList.length i with
    | some n => .ok (l.into (.item n) ((s.toList[n]?.map Value.char).getD .unit))
    | none => .error .outOfBounds
  | .map entries, .text k => .ok (l.into (.key k) ((entries.lookup k).getD .unit))
  | .int n, .range a b inclusive =>
    match Library.bits? n a b inclusive with
    | some m => .ok (temporary (.int m))
    | none => .error .outOfBounds
  | .int n, .int i =>
    match Library.place? 64 i with
    | some i => .ok (temporary (.bool ((n / Nat.pow 2 i) % 2 = 1)))
    | none => .error .outOfBounds
  | _, _ => .error .wrongType

/-- The value with what the path leads to replaced. -/
def replace (new : Value) : List Hop → Value → Option Value
  | [], _ => some new
  | .key k :: rest, .map entries => do
    let inner ← replace new rest ((entries.lookup k).getD .unit)
    return .map (Value.insertEntry entries k inner)
  | .item n :: rest, .array items => do
    let inner ← replace new rest (← items[n]?)
    return .array (items.set n inner)
  | [.item n], .text s =>
    match new with
    | .char c => some (.text (String.ofList (s.toList.set n c)))
    | _ => none
  | _, _ => none

end Located

namespace Eval

def lookup (name : String) : Eval Located := do
  let m ← get
  match m.scope.findIdx? (·.name == name) with
  | none => fault (.undefinedVariable name)
  | some i =>
    let entry := m.scope[i]?.getD default
    return ⟨← deref entry.value, .variable (m.scope.length - 1 - i), [], entry.isConstant, false⟩

def hold (root : Root) (v : Value) : Eval Unit := modify fun m =>
  match root with
  | .temporary => m
  | .receiver => { m with receiver := some v }
  | .variable position =>
    let i := m.scope.length - 1 - position
    match m.scope[i]? with
    | none => m
    | some entry =>
      match entry.value with
      | .cell c => { m with cells := m.cells.setIfInBounds c v }
      | _ => { m with scope := m.scope.set i { entry with value := v } }

def held (root : Root) : Eval Value := do
  let m ← get
  match root with
  | .temporary => return .unit
  | .receiver => return m.receiver.getD .unit
  | .variable position =>
    match m.scope[m.scope.length - 1 - position]? with
    | none => return .unit
    | some entry => deref entry.value

/-- Put a value into a place. -/
def store (l : Located) (v : Value) : Eval Unit := do
  if l.isConstant then fault .constantChanged
  match l.root with
  | .temporary => return
  | root =>
    match Located.replace v l.path (← held root) with
    | some whole => hold root (← checked whole)
    | none => fault .wrongType

/-- What a closure captures: a cell that it shares with the variable, or the value of a constant. -/
def capture (name : String) : Eval Value := do
  let m ← get
  match m.scope.findIdx? (·.name == name) with
  | none => fault (.undefinedVariable name)
  | some i =>
    let entry := m.scope[i]?.getD default
    if entry.isConstant then return entry.value
    match entry.value with
    | .cell c => return .cell c
    | v =>
      let c := Value.cell m.cells.size
      set { m with cells := m.cells.push v, scope := m.scope.set i { entry with value := c } }
      return c

end Eval

end HttpWorkflow.Script
