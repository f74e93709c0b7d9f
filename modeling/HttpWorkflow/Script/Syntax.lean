import HttpWorkflow.Script.Value

/-! Abstract syntax of scripts. Operators are calls of the function named by their sign. -/

set_option autoImplicit false

namespace HttpWorkflow.Script

/-- A place in a text, counted from one. -/
structure Position where
  line : Nat
  column : Nat
  deriving DecidableEq, Repr

namespace Position

/-- The place in a text from which on so many characters are left. -/
def ofLeft (cs : List Char) (left : Nat) : Position :=
  let before := cs.take (cs.length - left)
  ⟨before.count '\n' + 1, (before.reverse.takeWhile (· ≠ '\n')).length + 1⟩

def text (p : Position) : String := s!"{p.line}:{p.column}"

end Position

mutual

inductive Expr where
  | constant (value : Value)
  /-- The texts of the parts joined. -/
  | template (parts : List Expr)
  | array (items : List Expr)
  | map (entries : List (String × Expr))
  | variable (name : String)
  /-- A name in a module. -/
  | qualified (module : List String) (name : String) (args : Option (List Expr))
  | receiver
  /-- Calls know where they stand, apart from those that operators are. -/
  | call (name : String) (position : Option Position) (args : List Expr)
  | method (target : Expr) (optional : Bool) (name : String) (position : Option Position)
    (args : List Expr)
  | property (target : Expr) (optional : Bool) (name : String)
  | index (target : Expr) (optional : Bool) (position : Expr)
  | both (left right : Expr)
  | either (left right : Expr)
  | coalesce (left right : Expr)
  /-- A function without a name, and the variables around it that it uses. -/
  | closure (name : String) (captured : List String)
  | statement (body : Stmt)

inductive Stmt where
  | noop
  | expr (value : Expr)
  | declare (name : String) (isConstant : Bool) (value : Expr)
  /-- `target op= value`, or plain assignment without an operator. -/
  | assign (op : Option String) (target value : Expr)
  | block (body : List Stmt)
  | branch (condition : Expr) (yes no : Stmt)
  | switch (subject : Expr) (cases : List Case)
  /-- Repeat while the condition holds. -/
  | loop (condition : Expr) (body : Stmt)
  /-- Repeat as long as the condition has the value `goOn`, testing it after each round. -/
  | repeatLoop (body : Stmt) (condition : Expr) (goOn : Bool)
  | forEach (name : String) (counter : Option String) (source : Expr) (body : Stmt)
  | leave (value : Option Expr)
  | next
  | return (value : Option Expr)
  | throw (value : Option Expr)
  | attempt (body : Stmt) (name : Option String) (handler : Stmt)
  | importModule (path : Expr)
  | export

/-- One arm of a switch; no patterns at all match everything. -/
inductive Case where
  | mk (patterns : List Value) (guard : Option Expr) (body : Stmt)

end

instance : Inhabited Expr := ⟨.constant .unit⟩
instance : Inhabited Stmt := ⟨.noop⟩

/-- A function with its parameters. -/
structure Function where
  name : String
  params : List String
  body : Stmt
  deriving Inhabited

/-- What a text compiles to: statements to run, and functions to call. -/
structure Program where
  functions : List Function
  body : List Stmt
  deriving Inhabited

namespace Program

def empty : Program := ⟨[], []⟩

def find? (p : Program) (name : String) (arity : Nat) : Option Function :=
  p.functions.find? fun f => f.name == name && f.params.length == arity

/-- The function of this name, whatever its number of parameters. -/
def named? (p : Program) (name : String) : Option Function :=
  p.functions.find? (·.name == name)

/-- Both programs as one; the statements of the first run first. -/
def merge (p q : Program) : Program := ⟨p.functions ++ q.functions, p.body ++ q.body⟩

end Program

end HttpWorkflow.Script
