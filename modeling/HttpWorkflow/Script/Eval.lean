import HttpWorkflow.Script.Machine
import HttpWorkflow.Script.Parser

/-! Evaluation of scripts.

Statements, expressions and calls count as operations, of which a run has a limited number. Calls
nest to a limited depth, and data has a limited size. A method call goes to a function of the
script with that many parameters, whose receiver is `this`, before it goes to the library. Fuel
bounds the depth of the evaluation and the rounds of a loop. What a script comes to depends on
nothing but the script, its constants and its limits: there are no clocks and no chance.
-/

set_option autoImplicit false

namespace HttpWorkflow.Script

namespace Eval

/-- What a handler sees of a fault. -/
def describe : Fault → Value
  | .thrown v => v
  | f => .map [("message", .text f.message)]

/-- Whether a pattern of a switch takes a value. -/
def fits (v : Value) : Value → Bool
  | .range a b inclusive =>
    match v with
    | .int n => a ≤ n && (if inclusive then n ≤ b else n < b)
    | _ => false
  | pattern => pattern.typeName == v.typeName && Operator.equal? v pattern == some true

/-- How a function with `arity` free parameters takes the arguments that a library function offers:
with the extra ones, without them, or with the first as its receiver. -/
def arrange (arity : Nat) (args extras : List Value) : List Value × Option Value :=
  if arity = args.length + extras.length then (args ++ extras, none)
  else if arity + 1 = args.length then
    match args with
    | first :: rest => (rest, some first)
    | [] => (args, none)
  else (args, none)

def arity (r : Rules) (name : String) (bound args : List Value) : Nat :=
  match r.program.named? name with
  | some f => f.params.length - bound.length
  | none => args.length

/-- The line that a call of `print` or of `debug` writes; the latter says where it stands. -/
def line? (position : Option Position) (name : String) (args : List Value) : Option String :=
  let shown? : Option (Value → String) := match name with
    | "print" => some Value.display
    | "debug" => some Value.inspect
    | _ => none
  let front : String := match name, position with
    | "debug", some p => p.text ++ " | "
    | _, _ => ""
  match shown?, args with
  | some _, [] => some front
  | some shown, [v] => some (front ++ shown v)
  | _, _ => none

/-- The answer of a library function. -/
def library (r : Rules) (name : String) (args : List Value) : Eval Reply :=
  match line? r.position name args with
  | some line => do
    say line
    return { result := .unit }
  | none =>
    match Library.call name args with
    | none => fault (.undefinedFunction name)
    | some (.error f) => fault f
    | some (.ok reply) => pure reply

/-- Take an answer: a changed receiver goes back to its place. -/
def finish (l : Located) (reply : Reply) : Eval Value := do
  reply.receiver.forM (store l)
  checked reply.result

/-- What a function leaves to its caller: the shared variables, the operations and what it
printed. -/
def back (outer inner : Machine) : Machine :=
  { outer with cells := inner.cells, operations := inner.operations, printed := inner.printed }

/-- Run the body of a function, then go on in the state around it; also gives the receiver. -/
def leaving (outer : Machine) (body : Eval Value) : Eval (Value × Option Value) := fun m =>
  match body m with
  | .ok v n => .ok (v, n.receiver) (back outer n)
  | .error e n => .error e (back outer n)

/-- A position, or -1 where nothing is found. -/
def found (position : Option Nat) : Eval Value :=
  return .int ((position.map Int.ofNat).getD (-1))

def isHigherOrder (name : String) : Bool :=
  ["map", "filter", "reduce", "reduce_rev", "all", "some", "find", "find_map", "index_of",
    "for_each", "sort", "sort_by", "order_by", "dedup", "retain", "drain", "contains"].contains name

mutual

def evaluate (r : Rules) : Nat → Expr → Eval Value
  | 0, _ => fault .tooManyOperations
  | fuel + 1, e => do
    tick r
    match e with
    | .constant v => return v
    | .template parts =>
      let vs ← evaluateAll r fuel parts
      checked (.text (String.join (vs.map Value.display)))
    | .array items => checked (.array (← evaluateAll r fuel items))
    | .map entries =>
      let vs ← evaluateAll r fuel (entries.map (·.2))
      let keyed := (entries.map (·.1)).zip vs
      checked (.map (keyed.foldl (fun m kv => Value.insertEntry m kv.1 kv.2) []))
    | .variable name => return (← lookup name).value
    | .receiver => return (← locate r fuel .receiver).value
    | .qualified ["global"] name none =>
      let m ← get
      let outermost := if m.depth = 0 then m.scope else m.globals
      match outermost.find? fun entry => entry.isConstant && entry.name == name with
      | some entry => return entry.value
      | none => fault (.undefinedVariable name)
    | .qualified path _ _ => fault (.undefinedModule ("::".intercalate path))
    | .call name position args => call { r with position := position } fuel name args
    | .method .. | .property .. | .index .. => return (← locate r fuel e).value
    | .both a b =>
      if ← bool (← evaluate r fuel a) then return .bool (← bool (← evaluate r fuel b))
      else return .bool false
    | .either a b =>
      if ← bool (← evaluate r fuel a) then return .bool true
      else return .bool (← bool (← evaluate r fuel b))
    | .coalesce a b =>
      match ← evaluate r fuel a with
      | .unit => evaluate r fuel b
      | v => return v
    | .closure name captured =>
      let mut bound : List Value := []
      for c in captured do
        bound := bound ++ [← capture c]
      return .function name bound
    | .statement body => execute r fuel body

def evaluateAll (r : Rules) : Nat → List Expr → Eval (List Value)
  | 0, _ => fault .tooManyOperations
  | _ + 1, [] => return []
  | fuel + 1, e :: rest => do
    let v ← evaluate r fuel e
    return v :: (← evaluateAll r fuel rest)

/-- The place that an expression names. -/
def locate (r : Rules) : Nat → Expr → Eval Located
  | 0, _ => fault .tooManyOperations
  | fuel + 1, e => do
    match e with
    | .variable name => lookup name
    | .receiver =>
      match (← get).receiver with
      | some v => return ⟨v, .receiver, [], false, false⟩
      | none => fault .unboundReceiver
    | .property target optional name =>
      let l ← locate r fuel target
      if l.skipped then return l
      match l.value, optional with
      | .unit, true => return .nothing
      | _, _ => ofExcept (l.property name)
    | .index target optional position =>
      let l ← locate r fuel target
      if l.skipped then return l
      match l.value, optional with
      | .unit, true => return .nothing
      | _, _ =>
        let at_ ← evaluate r fuel position
        tick r
        ofExcept (l.index at_)
    | .method target optional name position args =>
      let l ← locate r fuel target
      if l.skipped then return l
      match l.value, optional with
      | .unit, true => return .nothing
      | _, _ =>
        let vs ← evaluateAll r fuel args
        return .temporary (← callMethod { r with position := position } fuel l name vs)
    | e => return .temporary (← evaluate r fuel e)

/-- A call by name. The first argument of a library function is changed in place if it is a
variable. -/
def call (r : Rules) : Nat → String → List Expr → Eval Value
  | 0, _, _ => fault .tooManyOperations
  | fuel + 1, name, args => do
    let vs ← evaluateAll r fuel args
    match r.program.find? name vs.length with
    | some f => return (← invoke r fuel f vs none).1
    | none =>
      tick r
      match name, vs with
      | "Fn", [.text target] => return .function target []
      | "is_def_fn", [.text target, .int n] =>
        return .bool (0 ≤ n && (r.program.find? target n.toNat).isSome)
      | "is_def_var", [.text target] =>
        return .bool ((← get).scope.any (·.name == target))
      | "call", .function target bound :: rest => return (← callValue r fuel target bound rest none).1
      | "exit", [] => throw (.exited .unit)
      | "exit", [v] => throw (.exited v)
      | _, _ =>
        let l : Located ← match args with
          | .variable first :: _ =>
            let l ← lookup first
            pure (if l.isConstant then .temporary l.value else l)
          | _ => pure (.temporary (vs.headD .unit))
        match vs with
        | [] => finish (.temporary .unit) (← library r name [])
        | receiver :: rest => callLibrary r fuel { l with value := receiver } name rest

def callMethod (r : Rules) : Nat → Located → String → List Value → Eval Value
  | 0, _, _, _ => fault .tooManyOperations
  | fuel + 1, l, name, args => do
    let own : Option (String × List Value) := match l.value with
      | .map entries =>
        match entries.lookup name with
        | some (.function target bound) => some (target, bound)
        | _ => none
      | _ => none
    match l.value, name, own with
    | .function target bound, "call", _ => return (← callValue r fuel target bound args none).1
    | v, _, some (target, bound) =>
      let (result, receiver) ← callValue r fuel target bound args (some v)
      unless l.isConstant do receiver.forM (store l)
      return result
    | v, _, none =>
      match r.program.find? name args.length with
      | some f =>
        let (result, receiver) ← invoke r fuel f args (some v)
        unless l.isConstant do receiver.forM (store l)
        return result
      | none =>
        tick r
        if l.isConstant && Library.changesReceiver name then fault .constantChanged
        callLibrary r fuel l name args

/-- A library function, which may call functions that it is given. Those calls stand nowhere in a
text. -/
def callLibrary (r : Rules) : Nat → Located → String → List Value → Eval Value
  | 0, _, _, _ => fault .tooManyOperations
  | fuel + 1, l, name, args => do
    if isHigherOrder name then
      match l.value, args with
      | .array items, .function target bound :: rest =>
        overArray { r with position := none } fuel l name items target bound rest
      | .map entries, [.function target bound] =>
        overMap { r with position := none } fuel l name entries target bound
      | receiver, _ => finish l (← library r name (receiver :: args))
    else finish l (← library r name (l.value :: args))

/-- Array functions that ask a function about each item. -/
def overArray (r : Rules) :
    Nat → Located → String → List Value → String → List Value → List Value → Eval Value
  | 0, _, _, _, _, _, _ => fault .tooManyOperations
  | fuel + 1, l, name, items, target, bound, rest => do
    match name, rest with
    | "map", [] => checked (.array (← collect r fuel target bound 0 items))
    | "for_each", [] =>
      let _ ← collect r fuel target bound 0 items
      return .unit
    | "filter", [] => return .array ((← choose r fuel target bound 0 items).map (·.1))
    | "all", [] => return .bool ((← search r fuel target bound false 0 items).isNone)
    | "some", [] => return .bool ((← search r fuel target bound true 0 items).isSome)
    | "index_of", [] => found (← search r fuel target bound true 0 items)
    | "index_of", [.int i] =>
      let at_ := Library.start items.length i
      found (← search r fuel target bound true at_ (items.drop at_))
    | "find", [] =>
      return ((← search r fuel target bound true 0 items).bind (items[·]?)).getD .unit
    | "find", [.int i] =>
      let at_ := Library.start items.length i
      let n ← search r fuel target bound true at_ (items.drop at_)
      return (n.bind (items[·]?)).getD .unit
    | "find_map", [] =>
      let found ← collect r fuel target bound 0 items
      return (found.find? fun v => match v with | .unit => false | _ => true).getD .unit
    | "reduce", [] => fold r fuel target bound .unit 0 items
    | "reduce", [v] => fold r fuel target bound v 0 items
    | "reduce_rev", [] => fold r fuel target bound .unit 0 items.reverse
    | "reduce_rev", [v] => fold r fuel target bound v 0 items.reverse
    | "sort", [] | "sort_by", [] =>
      let sorted ← sortBy r fuel target bound items
      store l (.array sorted)
      return .unit
    | "order_by", [] => return .array (← sortBy r fuel target bound items)
    | "dedup", [] =>
      let kept ← dedupBy r fuel target bound items
      store l (.array kept)
      return .unit
    | "retain", [] =>
      let kept ← choose r fuel target bound 0 items
      let positions := kept.map (·.2)
      let dropped := items.zipIdx.filter fun (_, i) => !positions.contains i
      store l (.array (kept.map (·.1)))
      return .array (dropped.map (·.1))
    | "drain", [] =>
      let taken ← choose r fuel target bound 0 items
      let positions := taken.map (·.2)
      let kept := items.zipIdx.filter fun (_, i) => !positions.contains i
      store l (.array (kept.map (·.1)))
      return .array (taken.map (·.1))
    | _, _ => finish l (← library r name (.array items :: .function target bound :: rest))

def overMap (r : Rules) :
    Nat → Located → String → List (String × Value) → String → List Value → Eval Value
  | 0, _, _, _, _, _ => fault .tooManyOperations
  | fuel + 1, l, name, entries, target, bound => do
    match name with
    | "filter" => return .map (← chooseEntries r fuel target bound entries)
    | "retain" =>
      let kept ← chooseEntries r fuel target bound entries
      store l (.map kept)
      return .map (entries.filter fun e => (kept.lookup e.1).isNone)
    | "drain" =>
      let taken ← chooseEntries r fuel target bound entries
      store l (.map (entries.filter fun e => (taken.lookup e.1).isNone))
      return .map taken
    | _ => finish l (← library r name [.map entries, .function target bound])

def collect (r : Rules) :
    Nat → String → List Value → Nat → List Value → Eval (List Value)
  | 0, _, _, _, _ => fault .tooManyOperations
  | _ + 1, _, _, _, [] => return []
  | fuel + 1, target, bound, n, item :: rest => do
    let v ← offer r fuel target bound [item] [.int n]
    return v :: (← collect r fuel target bound (n + 1) rest)

/-- The items that a function accepts, with their positions. -/
def choose (r : Rules) :
    Nat → String → List Value → Nat → List Value → Eval (List (Value × Nat))
  | 0, _, _, _, _ => fault .tooManyOperations
  | _ + 1, _, _, _, [] => return []
  | fuel + 1, target, bound, n, item :: rest => do
    let accepted ← offer r fuel target bound [item] [.int n]
    let others ← choose r fuel target bound (n + 1) rest
    match accepted with
    | .bool true => return (item, n) :: others
    | _ => return others

def chooseEntries (r : Rules) :
    Nat → String → List Value → List (String × Value) → Eval (List (String × Value))
  | 0, _, _, _ => fault .tooManyOperations
  | _ + 1, _, _, [] => return []
  | fuel + 1, target, bound, (k, v) :: rest => do
    let accepted ← offer r fuel target bound [.text k, v] []
    let others ← chooseEntries r fuel target bound rest
    match accepted with
    | .bool true => return (k, v) :: others
    | _ => return others

/-- The position of the first item on which a function answers `wanted`. -/
def search (r : Rules) :
    Nat → String → List Value → Bool → Nat → List Value → Eval (Option Nat)
  | 0, _, _, _, _, _ => fault .tooManyOperations
  | _ + 1, _, _, _, _, [] => return none
  | fuel + 1, target, bound, wanted, n, item :: rest => do
    let answer ← match ← offer r fuel target bound [item] [.int n] with
      | .bool b => pure b
      | _ => pure false
    if answer == wanted then return some n
    search r fuel target bound wanted (n + 1) rest

def fold (r : Rules) :
    Nat → String → List Value → Value → Nat → List Value → Eval Value
  | 0, _, _, _, _, _ => fault .tooManyOperations
  | _ + 1, _, _, acc, _, [] => return acc
  | fuel + 1, target, bound, acc, n, item :: rest => do
    let acc ← offer r fuel target bound [acc, item] [.int n]
    fold r fuel target bound acc (n + 1) rest

/-- Insertion of each item before the first one that a comparison puts after it. -/
def sortBy (r : Rules) : Nat → String → List Value → List Value → Eval (List Value)
  | 0, _, _, _ => fault .tooManyOperations
  | _ + 1, _, _, [] => return []
  | fuel + 1, target, bound, item :: rest => do
    insertBy r fuel target bound item (← sortBy r fuel target bound rest)

def insertBy (r : Rules) : Nat → String → List Value → Value → List Value → Eval (List Value)
  | 0, _, _, _, _ => fault .tooManyOperations
  | _ + 1, _, _, item, [] => return [item]
  | fuel + 1, target, bound, item, first :: rest => do
    match ← offer r fuel target bound [item, first] [] with
    | .int n =>
      if n ≤ 0 then return item :: first :: rest
      else return first :: (← insertBy r fuel target bound item rest)
    | .bool false => return first :: (← insertBy r fuel target bound item rest)
    | _ => return item :: first :: rest

/-- The items without those that a function puts together with the one before them. -/
def dedupBy (r : Rules) : Nat → String → List Value → List Value → Eval (List Value)
  | 0, _, _, _ => fault .tooManyOperations
  | fuel + 1, target, bound, a :: b :: rest => do
    match ← offer r fuel target bound [b, a] [] with
    | .bool true => dedupBy r fuel target bound (a :: rest)
    | _ => return a :: (← dedupBy r fuel target bound (b :: rest))
  | _ + 1, _, _, short => return short

/-- Call a function with as many of the arguments as it takes. -/
def offer (r : Rules) : Nat → String → List Value → List Value → List Value → Eval Value
  | 0, _, _, _, _ => fault .tooManyOperations
  | fuel + 1, target, bound, args, extras => do
    let (args, receiver) := arrange (arity r target bound args) args extras
    return (← callValue r fuel target bound args receiver).1

/-- Call a function value; also gives its receiver afterwards. -/
def callValue (r : Rules) :
    Nat → String → List Value → List Value → Option Value → Eval (Value × Option Value)
  | 0, _, _, _, _ => fault .tooManyOperations
  | fuel + 1, target, bound, args, receiver => do
    let all := bound ++ args
    match r.program.find? target all.length with
    | some f => invoke r fuel f all receiver
    | none =>
      tick r
      let vs ← all.mapM deref
      match vs with
      | [] => return (← finish (.temporary .unit) (← library r target []), receiver)
      | first :: rest => return (← callLibrary r fuel (.temporary first) target rest, receiver)

/-- Run a function of the script; also gives its receiver afterwards. -/
def invoke (r : Rules) :
    Nat → Function → List Value → Option Value → Eval (Value × Option Value)
  | 0, _, _, _ => fault .tooManyOperations
  | fuel + 1, f, args, receiver => do
    tick r
    let outer ← get
    if maxCalls ≤ outer.depth then fault .callsTooDeep
    let params := (f.params.zip args).map fun (name, v) => (⟨name, v, false⟩ : Entry)
    set { outer with
      scope := params.reverse
      globals := if outer.depth = 0 then outer.scope else outer.globals
      receiver := receiver
      depth := outer.depth + 1 }
    leaving outer (catchReturn (execute r fuel f.body))

def execute (r : Rules) : Nat → Stmt → Eval Value
  | 0, _ => fault .tooManyOperations
  | fuel + 1, s => do
    match s with
    | .noop | .block _ => pure ()
    | _ => tick r
    match s with
    | .noop | .export => return .unit
    | .expr e => evaluate r fuel e
    | .declare name isConstant e =>
      push name (← evaluate r fuel e) isConstant
      return .unit
    | .assign op target e =>
      let v ← evaluate r fuel e
      let l ← locate r fuel target
      match op with
      | none => store l v
      | some op =>
        tick r
        match Library.update op l.value v with
        | some answer => store l (← ofExcept answer)
        | none => fault (.undefinedFunction op)
      return .unit
    | .block body => inBlock (executeAll r fuel body)
    | .branch condition yes no =>
      if ← bool (← evaluate r fuel condition) then execute r fuel yes else execute r fuel no
    | .switch subject cases =>
      let v ← evaluate r fuel subject
      select r fuel v cases
    | .loop condition body => loop r fuel condition body
    | .repeatLoop body condition goOn => repeatLoop r fuel body condition goOn
    | .forEach name counter source body =>
      match ← evaluate r fuel source with
      | .array items => forItems r fuel name counter body 0 items
      | .text t => forItems r fuel name counter body 0 (t.toList.map .char)
      | .range a b inclusive =>
        forSeries r fuel name counter body 0 a (if inclusive then b + 1 else b) 1
      | .series a b step => forSeries r fuel name counter body 0 a b step
      | _ => fault .wrongType
    | .leave e =>
      match e with
      | some e => throw (.left (← evaluate r fuel e))
      | none => throw (.left .unit)
    | .next => throw .next
    | .return e =>
      match e with
      | some e => throw (.returned (← evaluate r fuel e))
      | none => throw (.returned .unit)
    | .throw e =>
      match e with
      | some e => fault (.thrown (← evaluate r fuel e))
      | none => fault (.thrown .unit)
    | .attempt body name handler =>
      let depth := (← get).depth
      catchFault (inBlock (execute r fuel body)) fun f => inBlock do
        modify fun m => { m with depth := depth }
        name.forM fun name => push name (describe f) false
        execute r fuel handler
    | .importModule path =>
      let v ← evaluate r fuel path
      fault (.undefinedModule v.display)

/-- Run statements in turn; the value is that of the last. -/
def executeAll (r : Rules) : Nat → List Stmt → Eval Value
  | 0, _ => fault .tooManyOperations
  | _ + 1, [] => return .unit
  | fuel + 1, [s] => execute r fuel s
  | fuel + 1, s :: rest => do
    let v ← execute r fuel s
    match rest.all fun s => match s with | .noop => true | _ => false with
    | true => return v
    | false => executeAll r fuel rest

def select (r : Rules) : Nat → Value → List Case → Eval Value
  | 0, _, _ => fault .tooManyOperations
  | _ + 1, _, [] => return .unit
  | fuel + 1, v, .mk patterns condition body :: rest => do
    if patterns.isEmpty || patterns.any (fits v) then
      let holds ← match condition with
        | some e => bool (← evaluate r fuel e)
        | none => pure true
      if holds then execute r fuel body else select r fuel v rest
    else select r fuel v rest

def loop (r : Rules) : Nat → Expr → Stmt → Eval Value
  | 0, _, _ => fault .tooManyOperations
  | fuel + 1, condition, body => do
    tick r
    if ← bool (← evaluate r fuel condition) then
      match ← round (execute r fuel body) with
      | some v => return v
      | none => loop r fuel condition body
    else return .unit

def repeatLoop (r : Rules) : Nat → Stmt → Expr → Bool → Eval Value
  | 0, _, _, _ => fault .tooManyOperations
  | fuel + 1, body, condition, goOn => do
    tick r
    match ← round (execute r fuel body) with
    | some v => return v
    | none =>
      if (← bool (← evaluate r fuel condition)) == goOn then repeatLoop r fuel body condition goOn
      else return .unit

def forRound (r : Rules) : Nat → String → Option String → Stmt → Nat → Value → Eval (Option Value)
  | 0, _, _, _, _, _ => fault .tooManyOperations
  | fuel + 1, name, counter, body, n, item => do
    tick r
    inBlock do
      counter.forM fun c => push c (.int n) false
      push name item false
      round (execute r fuel body)

def forItems (r : Rules) : Nat → String → Option String → Stmt → Nat → List Value → Eval Value
  | 0, _, _, _, _, _ => fault .tooManyOperations
  | _ + 1, _, _, _, _, [] => return .unit
  | fuel + 1, name, counter, body, n, item :: rest => do
    match ← forRound r fuel name counter body n item with
    | some v => return v
    | none => forItems r fuel name counter body (n + 1) rest

/-- Rounds for `current`, `current + step`, and so on before `stop`. -/
def forSeries (r : Rules) :
    Nat → String → Option String → Stmt → Nat → Int → Int → Int → Eval Value
  | 0, _, _, _, _, _, _, _ => fault .tooManyOperations
  | fuel + 1, name, counter, body, n, current, stop, step => do
    if (0 < step && stop ≤ current) || (step < 0 && current ≤ stop) then return .unit
    match ← forRound r fuel name counter body n (.int current) with
    | some v => return v
    | none => forSeries r fuel name counter body (n + 1) (current + step) stop step

end

end Eval

end HttpWorkflow.Script
