import HttpWorkflow.Script.Syntax
import HttpWorkflow.Script.Token

/-! Parsing scripts.

A program is a list of functions and statements; an expression is a program of one statement, in
whose blocks only expressions stand. Nesting is limited, more tightly inside functions. Every call
of a parsing function takes one unit of fuel, of which a text has enough for all its characters.
-/

set_option autoImplicit false

namespace HttpWorkflow.Script

namespace Parser

/-- The variables of one function while it is read, and those it takes from around it. -/
structure Frame where
  locals : List String
  isClosure : Bool
  captured : List String

structure State where
  text : List Char
  tokens : List Token
  frames : List Frame
  closures : List Function
  /-- What sets the names of these closures apart from those of other texts. -/
  tag : String

end Parser

abbrev Parser := StateT Parser.State Option

namespace Parser

/-- Where a piece of code stands: its level, the limit on levels, whether statements are allowed in
its blocks, and whether it is the body of a function. -/
structure Place where
  level : Nat
  limit : Nat
  bare : Bool
  inFunction : Bool

def expressionLimit : Nat := 64

def functionLimit : Nat := 32

def fail {α : Type} : Parser α := fun _ => none

def Place.deeper (p : Place) : Parser Place :=
  if p.level + 1 ≤ p.limit then pure { p with level := p.level + 1 } else fail

def peek : Parser (Option Token) := return (← get).tokens.head?

def advance : Parser Unit := modify fun s => { s with tokens := s.tokens.drop 1 }

def isSymbol (sign : String) : Option Token → Bool
  | some (.symbol s) => s == sign
  | _ => false

def isKeyword (word : String) : Option Token → Bool
  | some (.keyword w) => w == word
  | _ => false

def nextIs (sign : String) : Parser Bool := return isSymbol sign (← peek)

def nextIsWord (word : String) : Parser Bool := return isKeyword word (← peek)

def accept (sign : String) : Parser Bool := do
  if ← nextIs sign then
    advance
    return true
  return false

def acceptWord (word : String) : Parser Bool := do
  if ← nextIsWord word then
    advance
    return true
  return false

def expect (sign : String) : Parser Unit := do
  unless ← accept sign do fail

def expectWord (word : String) : Parser Unit := do
  unless ← acceptWord word do fail

/-- Where the text has a name, from the number of characters that are left there. -/
def positionOf (left : Nat) : Parser (Option Position) := return some (.ofLeft (← get).text left)

/-- The name of a variable, a function or a property, and where it stands. -/
def placedName : Parser (String × Option Position) := do
  match ← peek with
  | some (.name s left) =>
    advance
    return (s, ← positionOf left)
  | _ => fail

def identifier : Parser String := return (← placedName).1

def freshName : Parser String := do
  let s ← identifier
  if s == "this" || Token.functionWords.contains s then fail else return s

def declare (name : String) : Parser Unit := modify fun s =>
  match s.frames with
  | frame :: rest => { s with frames := { frame with locals := name :: frame.locals } :: rest }
  | [] => s

/-- Note the use of a variable: a closure captures what it does not declare. -/
def use (name : String) : Parser Unit := modify fun s =>
  match s.frames with
  | frame :: rest =>
    if frame.isClosure && !frame.locals.contains name && !frame.captured.contains name then
      { s with frames := { frame with captured := frame.captured ++ [name] } :: rest }
    else s
  | [] => s

/-- Forget what a block declared. -/
def within {α : Type} (body : Parser α) : Parser α := do
  let outer := ((← get).frames.head?.map (·.locals)).getD []
  let result ← body
  modify fun s => match s.frames with
    | frame :: rest => { s with frames := { frame with locals := outer } :: rest }
    | [] => s
  return result

/-- Read the body of a function in a frame of its own; also gives what it captured. -/
def framed {α : Type} (params : List String) (isClosure : Bool) (body : Parser α) :
    Parser (α × List String) := do
  modify fun s => { s with frames := ⟨params, isClosure, []⟩ :: s.frames }
  let result ← body
  let s ← get
  match s.frames with
  | frame :: rest =>
    set { s with frames := rest }
    return (result, frame.captured)
  | [] => fail

def precedence : Token → Nat
  | .symbol s =>
    match s with
    | "||" | "|" | "^" => 30
    | "&&" | "&" => 60
    | "==" | "!=" => 90
    | "!in" => 110
    | "<" | "<=" | ">" | ">=" => 130
    | "??" => 135
    | ".." | "..=" => 140
    | "+" | "-" => 150
    | "*" | "/" | "%" => 180
    | "**" => 190
    | "<<" | ">>" => 210
    | _ => 0
  | .keyword "in" => 110
  | _ => 0

def precedenceOf : Option Token → Nat
  | some t => precedence t
  | none => 0

def bindsRight : Option Token → Bool := isSymbol "**"

/-- Whether an expression may be true or false, as far as its form shows. -/
def mayBeBool : Expr → Bool
  | .constant (.bool _) => true
  | .constant _ | .template _ | .array _ | .map _ => false
  | _ => true

def checkBool (e : Expr) : Parser Expr := if mayBeBool e then pure e else fail

/-- An operator between two expressions. -/
def combine (op : Token) (left right : Expr) : Parser Expr :=
  match op with
  | .symbol "&&" => do return .both (← checkBool left) (← checkBool right)
  | .symbol "||" => do return .either (← checkBool left) (← checkBool right)
  | .symbol "??" => return .coalesce left right
  | .symbol "!in" => return .call "!" none [.call "contains" none [right, left]]
  | .keyword _ => return .call "contains" none [right, left]
  | .symbol s => return .call s none [left, right]
  | _ => fail

def negate : Expr → Expr
  | .constant (.int n) =>
    if n = Value.least then .constant (.float (-(Float.ofInt n))) else .constant (.int (-n))
  | .constant (.float x) => .constant (.float (-x))
  | e => .call "-" none [e]

def assignments : List String :=
  ["+=", "-=", "*=", "/=", "%=", "**=", "<<=", ">>=", "&=", "|=", "^="]

/-- The operator of an assignment sign. -/
def assignment? : Option Token → Option (Option String)
  | some (.symbol "=") => some none
  | some (.symbol s) =>
    if assignments.contains s then some (some (String.ofList s.toList.dropLast)) else none
  | _ => none

def isAssignable : Expr → Bool
  | .variable _ | .receiver | .index .. | .property .. => true
  | _ => false

/-- Statements that end with a block need no semicolon. -/
def endsItself : Stmt → Bool
  | .block _ | .branch .. | .switch .. | .loop .. | .forEach .. | .attempt .. => true
  | _ => false

def literal? : Expr → Option Value
  | .constant v => some v
  | .call "-" _ [.constant (.int n)] => some (.int (-n))
  | .call ".." _ [.constant (.int a), .constant (.int b)] => some (.range a b false)
  | .call "..=" _ [.constant (.int a), .constant (.int b)] => some (.range a b true)
  | _ => none

def closureName (tag : String) (n : Nat) : String := "anon$" ++ tag ++ toString n

mutual

def expression : Nat → Place → Parser Expr
  | 0, _ => fail
  | fuel + 1, place => do
    let place ← place.deeper
    let left ← unary fuel place
    operators fuel place 1 left

/-- Operators that bind at least as tightly as `least` after a first operand. -/
def operators : Nat → Place → Nat → Expr → Parser Expr
  | 0, _, _, _ => fail
  | fuel + 1, place, least, left => do
    let op ← peek
    let level := precedenceOf op
    if level < least || (level == least && !bindsRight op) then return left
    match op with
    | none => return left
    | some op =>
      advance
      let right ← unary fuel place
      let next ← peek
      let right ←
        if level < precedenceOf next || (level == precedenceOf next && bindsRight next) then
          operators fuel place level right
        else pure right
      let place ← place.deeper
      operators fuel place least (← combine op left right)

def unary : Nat → Place → Parser Expr
  | 0, _ => fail
  | fuel + 1, place => do
    match ← peek with
    | some (.symbol "-") =>
      advance
      return negate (← unary fuel (← place.deeper))
    | some (.symbol "+") =>
      advance
      match ← unary fuel (← place.deeper) with
      | .constant (.int n) => return .constant (.int n)
      | .constant (.float x) => return .constant (.float x)
      | e => return .call "+" none [e]
    | some (.symbol "!") =>
      advance
      return .call "!" none [← checkBool (← unary fuel (← place.deeper))]
    | _ =>
      let e ← primary fuel place
      postfixes fuel place e

def primary : Nat → Place → Parser Expr
  | 0, _ => fail
  | fuel + 1, place => do
    match ← peek with
    | some (.int n) => advance; return .constant (.int n)
    | some (.float x) => advance; return .constant (.float x)
    | some (.char c) => advance; return .constant (.char c)
    | some (.text s) => advance; return .constant (.text s)
    | some (.template parts last) =>
      advance
      let place ← place.deeper
      let parts ← templateParts fuel place parts
      if parts.isEmpty then return .constant (.text last)
      else return .template (parts ++ [.constant (.text last)])
    | some (.keyword "true") => advance; return .constant (.bool true)
    | some (.keyword "false") => advance; return .constant (.bool false)
    | some (.symbol "(") =>
      advance
      let place ← place.deeper
      if ← accept ")" then return .constant .unit
      let e ← expression fuel place
      expect ")"
      return e
    | some (.symbol "[") =>
      advance
      let place ← place.deeper
      return .array (← list fuel place "]")
    | some (.symbol "#\x7b") =>
      advance
      let place ← place.deeper
      return .map (← entries fuel place [])
    | some (.symbol "|") =>
      advance
      closure fuel place (← params fuel "|")
    | some (.symbol "||") =>
      advance
      closure fuel place []
    | some (.symbol "\x7b") =>
      if place.bare then fail else return .statement (← block fuel place)
    | some (.keyword word) =>
      match word with
      | "if" => return .statement (← branch fuel (← place.deeper))
      | "switch" => return .statement (← switch fuel (← place.deeper))
      | "while" | "loop" | "do" | "for" =>
        if place.bare then fail else return .statement (← loop fuel (← place.deeper))
      | _ => fail
    | some (.name "this" _) =>
      if place.inFunction then
        advance
        return .receiver
      else fail
    | some (.name s left) =>
      advance
      if ← accept "(" then
        if s == "eval" then fail
        return .call s (← positionOf left) (← list fuel (← place.deeper) ")")
      else if ← accept "::" then qualified fuel place [s]
      else if Token.functionWords.contains s then fail
      else
        use s
        return .variable s
    | _ => fail

/-- A name in a module, after the names of modules around it. -/
def qualified : Nat → Place → List String → Parser Expr
  | 0, _, _ => fail
  | fuel + 1, place, path => do
    let name ← identifier
    if ← accept "::" then qualified fuel place (path ++ [name])
    else if ← accept "(" then
      return .qualified path name (some (← list fuel (← place.deeper) ")"))
    else return .qualified path name none

/-- Properties, methods and positions after an expression. -/
def postfixes : Nat → Place → Expr → Parser Expr
  | 0, _, _ => fail
  | fuel + 1, place, target => do
    match ← peek with
    | some (.symbol "[") => advance; position fuel place target false
    | some (.symbol "?[") => advance; position fuel place target true
    | some (.symbol ".") => advance; member fuel place target false
    | some (.symbol "?.") => advance; member fuel place target true
    | _ => return target

def position : Nat → Place → Expr → Bool → Parser Expr
  | 0, _, _, _ => fail
  | fuel + 1, place, target, optional => do
    let at_ ← expression fuel (← place.deeper)
    expect "]"
    postfixes fuel place (.index target optional at_)

def member : Nat → Place → Expr → Bool → Parser Expr
  | 0, _, _, _ => fail
  | fuel + 1, place, target, optional => do
    let (name, position) ← placedName
    if ← accept "(" then
      let args ← list fuel (← place.deeper) ")"
      postfixes fuel place (.method target optional name position args)
    else postfixes fuel place (.property target optional name)

/-- Expressions between commas up to a closing sign; the last comma may be left over. -/
def list : Nat → Place → String → Parser (List Expr)
  | 0, _, _ => fail
  | fuel + 1, place, close => do
    if ← accept close then return []
    let first ← expression fuel place
    if ← accept "," then return first :: (← list fuel place close)
    expect close
    return [first]

def entries : Nat → Place → List String → Parser (List (String × Expr))
  | 0, _, _ => fail
  | fuel + 1, place, seen => do
    if ← accept "\x7d" then return []
    let key ← match ← peek with
      | some (.text s) => advance; pure s
      | _ => identifier
    if seen.contains key then fail
    expect ":"
    let value ← expression fuel place
    if ← accept "," then return (key, value) :: (← entries fuel place (key :: seen))
    expect "\x7d"
    return [(key, value)]

def params : Nat → String → Parser (List String)
  | 0, _ => fail
  | fuel + 1, close => do
    if ← accept close then return []
    let name ← freshName
    if ← accept "," then
      let others ← params fuel close
      if others.contains name then fail else return name :: others
    expect close
    return [name]

/-- The parts of a text in back-ticks: what is written, and blocks of code. -/
def templateParts : Nat → Place → List (String × List Token) → Parser (List Expr)
  | 0, _, _ => fail
  | _ + 1, _, [] => return []
  | fuel + 1, place, (text, code) :: others => do
    let outside := (← get).tokens
    modify fun s => { s with tokens := code }
    let body ← within (statements fuel (← place.deeper) none)
    modify fun s => { s with tokens := outside }
    let others ← templateParts fuel place others
    return .constant (.text text) :: .statement (.block body) :: others

def closure : Nat → Place → List String → Parser Expr
  | 0, _, _ => fail
  | fuel + 1, place, names => do
    let inside : Place := ⟨0, functionLimit, place.bare, true⟩
    let (body, captured) ← framed names true (statement fuel inside)
    captured.forM use
    let name := closureName (← get).tag (← get).closures.length
    modify fun s => { s with closures := s.closures ++ [⟨name, captured ++ names, body⟩] }
    return .closure name captured

def statement : Nat → Place → Parser Stmt
  | 0, _ => fail
  | fuel + 1, place => do
    let place ← place.deeper
    match ← peek with
    | some (.symbol ";") => advance; return .noop
    | some (.symbol "\x7b") => block fuel place
    | some (.keyword word) =>
      match word with
      | "let" => advance; declaration fuel place false
      | "const" => advance; declaration fuel place true
      | "if" => branch fuel place
      | "switch" => switch fuel place
      | "while" | "loop" | "do" | "for" => loop fuel place
      | "break" => advance; return .leave (← operand fuel place)
      | "continue" => advance; return .next
      | "return" => advance; return .return (← operand fuel place)
      | "throw" => advance; return .throw (← operand fuel place)
      | "try" => advance; attempt fuel place
      | "import" =>
        advance
        let path ← expression fuel place
        if ← acceptWord "as" then let _ ← freshName
        return .importModule path
      | "export" =>
        advance
        let _ ← freshName
        if ← acceptWord "as" then let _ ← freshName
        return .export
      | "true" | "false" => expressionStatement fuel place
      | _ => fail
    | _ => expressionStatement fuel place

/-- The value after a word such as `return`, which may be missing. -/
def operand : Nat → Place → Parser (Option Expr)
  | 0, _ => fail
  | fuel + 1, place => do
    match ← peek with
    | none | some (.symbol ";") | some (.symbol "\x7d") => return none
    | _ => return some (← expression fuel place)

def expressionStatement : Nat → Place → Parser Stmt
  | 0, _ => fail
  | fuel + 1, place => do
    let target ← expression fuel place
    match assignment? (← peek) with
    | none => return .expr target
    | some op =>
      advance
      unless isAssignable target do fail
      return .assign op target (← expression fuel place)

def declaration : Nat → Place → Bool → Parser Stmt
  | 0, _, _ => fail
  | fuel + 1, place, isConstant => do
    let name ← freshName
    let value ← if ← accept "=" then expression fuel place
      else if isConstant then fail else pure (.constant .unit)
    declare name
    return .declare name isConstant value

def block : Nat → Place → Parser Stmt
  | 0, _ => fail
  | fuel + 1, place => do
    let place ← place.deeper
    expect "\x7b"
    return .block (← within (statements fuel place (some "\x7d")))

/-- Statements up to a closing sign, or up to the end of the code; where only expressions stand,
exactly one. -/
def statements : Nat → Place → Option String → Parser (List Stmt)
  | 0, _, _ => fail
  | fuel + 1, place, close => do
    let ended : Parser Bool := match close with
      | some sign => accept sign
      | none => return (← peek).isNone
    if place.bare then
      let only ← expressionStatement fuel (← place.deeper)
      if ← ended then return [only] else fail
    if ← ended then return []
    let first ← statement fuel place
    if ← accept ";" then return first :: (← statements fuel place close)
    if ← ended then return [first]
    if endsItself first || (match first with | .noop => true | _ => false) then
      return first :: (← statements fuel place close)
    fail

def branch : Nat → Place → Parser Stmt
  | 0, _ => fail
  | fuel + 1, place => do
    expectWord "if"
    let place ← place.deeper
    let condition ← checkBool (← expression fuel place)
    let yes ← block fuel place
    if ← acceptWord "else" then
      let no ← if ← nextIsWord "if" then branch fuel place else block fuel place
      return .branch condition yes no
    return .branch condition yes .noop

def switch : Nat → Place → Parser Stmt
  | 0, _ => fail
  | fuel + 1, place => do
    expectWord "switch"
    let place ← place.deeper
    let subject ← expression fuel place
    expect "\x7b"
    return .switch subject (← cases fuel place)

def cases : Nat → Place → Parser (List Case)
  | 0, _ => fail
  | fuel + 1, place => do
    if ← accept "\x7d" then return []
    let patterns ← if ← accept "_" then pure [] else patterns fuel place
    let condition ← if ← acceptWord "if" then
        pure (some (← checkBool (← expression fuel place)))
      else pure none
    expect "=>"
    let body ← if place.bare then expressionStatement fuel place else statement fuel place
    let arm := Case.mk patterns condition body
    if ← accept "," then return arm :: (← cases fuel place)
    if ← accept "\x7d" then return [arm]
    if endsItself body then return arm :: (← cases fuel place)
    fail

/-- Alternatives of an arm; each is a literal. A bar between them is no operator here. -/
def patterns : Nat → Place → Parser (List Value)
  | 0, _ => fail
  | fuel + 1, place => do
    let place ← place.deeper
    let e ← operators fuel place 31 (← unary fuel place)
    match literal? e with
    | none => fail
    | some v => if ← accept "|" then return v :: (← patterns fuel place) else return [v]

def loop : Nat → Place → Parser Stmt
  | 0, _ => fail
  | fuel + 1, place => do
    let place ← place.deeper
    if ← acceptWord "while" then
      let condition ← checkBool (← expression fuel place)
      return .loop condition (← block fuel place)
    else if ← acceptWord "loop" then return .loop (.constant (.bool true)) (← block fuel place)
    else if ← acceptWord "do" then
      let body ← block fuel place
      let goOn ← if ← acceptWord "while" then pure true
        else if ← acceptWord "until" then pure false else fail
      return .repeatLoop body (← checkBool (← expression fuel place)) goOn
    else
      expectWord "for"
      let (name, counter) ← if ← accept "(" then
          let name ← freshName
          expect ","
          let counter ← freshName
          expect ")"
          if name == counter then fail else pure (name, some counter)
        else pure (← freshName, none)
      expectWord "in"
      let source ← expression fuel place
      within do
        counter.forM declare
        declare name
        return .forEach name counter source (← block fuel place)

def attempt : Nat → Place → Parser Stmt
  | 0, _ => fail
  | fuel + 1, place => do
    let place ← place.deeper
    let body ← block fuel place
    expectWord "catch"
    let name ← if ← accept "(" then
        let name ← freshName
        expect ")"
        pure (some name)
      else pure none
    within do
      name.forM declare
      return .attempt body name (← block fuel place)

end

/-- A function definition; no other function has its name and number of parameters. -/
def functionDefinition (fuel : Nat) (others : List Function) : Parser Function := do
  if ← acceptWord "private" then expectWord "fn" else expectWord "fn"
  let name ← freshName
  expect "("
  let names ← params fuel ")"
  let inside : Place := ⟨0, functionLimit, false, true⟩
  let (body, _) ← framed names false (block fuel inside)
  if others.any fun f => f.name == name && f.params.length == names.length then fail
  else return ⟨name, names, body⟩

/-- Functions and statements up to the end of the text. -/
def programItems : Nat → List Function → List Stmt → Parser (List Function × List Stmt)
  | 0, _, _ => fail
  | fuel + 1, functions, body => do
    if (← peek).isNone then return (functions, body)
    if (← nextIsWord "fn") || (← nextIsWord "private") then
      let f ← functionDefinition fuel functions
      let _ ← accept ";"
      programItems fuel (functions ++ [f]) body
    else
      let first ← statement fuel ⟨0, expressionLimit, false, false⟩
      let ended ← accept ";"
      let separate := match first with
        | .noop => true
        | s => endsItself s
      if ended || separate || (← peek).isNone then programItems fuel functions (body ++ [first])
      else fail

def start (text : String) (tokens : List Token) (tag : String) : State :=
  ⟨text.toList, tokens, [⟨[], false, []⟩], [], tag⟩

def fuelFor (text : String) : Nat := 16 * (text.length + 4)

end Parser

namespace Program

/-- A statement `return e;` ends a program like the expression `e`: nothing after it runs. -/
def endAtReturn : List Stmt → List Stmt
  | [] => []
  | .return value :: _ => [.expr (value.getD (.constant .unit))]
  | first :: rest => first :: endAtReturn rest

/-- Compile a script of functions and statements. -/
def compile? (text : String) : Option Program := do
  let tokens ← Token.scan? text
  let ((functions, body), s) ← (Parser.programItems (Parser.fuelFor text) [] []).run
    (Parser.start text tokens "s")
  return ⟨functions ++ s.closures, endAtReturn body⟩

/-- Compile one expression. -/
def compileExpression? (text : String) : Option Program := do
  let tokens ← Token.scan? text
  let (e, s) ← (Parser.expression (Parser.fuelFor text) ⟨0, Parser.expressionLimit, true, false⟩).run
    (Parser.start text tokens "e")
  guard s.tokens.isEmpty
  return ⟨s.closures, [.expr e]⟩

end Program

end HttpWorkflow.Script
