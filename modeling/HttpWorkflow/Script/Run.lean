import HttpWorkflow.Script.Eval

/-! Running a program, with named constants in sight. -/

set_option autoImplicit false

namespace HttpWorkflow.Script

abbrev Constants := List (String × Value)

namespace Constants

def entries (constants : Constants) : List Entry :=
  constants.reverse.map fun (name, v) => ⟨name, v, true⟩

end Constants

namespace Program

/-- More rounds than any run can wait for. Without a limit on operations a script that does not end
is stopped here, as if it had reached one. -/
def fuel : Nat := Nat.pow 2 40

/-- Run the statements of a library and then a program that may call its functions. The constants
keep their values in the program whatever the library declares. -/
def evalAll (library program : Program) (constants : Constants) (maxOperations : Nat) :
    Eval Value := do
  let rules : Rules := { program := library.merge program, maxOperations := maxOperations }
  let _ ← Eval.executeAll rules fuel library.body
  modify fun m => { m with scope := constants.entries ++ m.scope }
  Eval.executeAll rules fuel program.body

/-- The value of a program, if no fault stops it. Both `return` and `exit` end it with a value. -/
def run? (library program : Program) (constants : Constants) (maxOperations : Nat) :
    Option Value :=
  match evalAll library program constants maxOperations (.start constants.entries) with
  | .ok v _ | .error (.returned v) _ | .error (.exited v) _ => some v
  | .error _ _ => none

/-- The lines that a program prints before it ends, in a fault or not. -/
def output (library program : Program) (constants : Constants) (maxOperations : Nat) : String :=
  match evalAll library program constants maxOperations (.start constants.entries) with
  | .ok _ m | .error _ m => m.printed

end Program

end HttpWorkflow.Script
