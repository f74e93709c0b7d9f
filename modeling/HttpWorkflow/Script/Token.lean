import HttpWorkflow.Script.Library.Text

/-! Tokens of scripts.

White space and names are ASCII. Comments are skipped, nested block comments included. A text in
back-ticks may hold code, which becomes tokens of its own. What begins no token fails the text.
-/

set_option autoImplicit false

namespace HttpWorkflow.Script

inductive Token where
  | int (value : Int)
  | float (value : Float)
  | char (value : Char)
  | text (value : String)
  /-- Text in back-ticks: what is written before each piece of code, that code, and the end. -/
  | template (parts : List (String × List Token)) (last : String)
  /-- A name, and how many characters of the text are left where it begins. -/
  | name (value : String) (left : Nat)
  | keyword (value : String)
  | symbol (value : String)
  /-- A word or sign that is kept free for later use. -/
  | reserved (value : String)
  deriving Inhabited

namespace Token

def keywords : List String :=
  ["true", "false", "let", "const", "if", "else", "switch", "do", "while", "until", "loop", "for",
    "in", "fn", "private", "break", "continue", "return", "throw", "try", "catch", "import",
    "export", "as"]

def reservedWords : List String :=
  ["var", "static", "shared", "goto", "match", "case", "default", "public", "protected",
    "new", "use", "with", "is", "module", "package", "super", "thread", "spawn", "go", "await",
    "async", "sync", "yield", "void", "null", "nil"]

/-- Functions whose names are no variables. -/
def functionWords : List String :=
  ["print", "debug", "type_of", "Fn", "call", "curry", "is_def_var", "is_def_fn", "is_shared",
    "eval"]

/-- Signs, the longest first. -/
def signs : List String :=
  ["...", "..=", "**=", "<<=", ">>=", "===", "!==", "::<", "..", "::", "=>", "==", "!=", "<=",
    ">=", "<<", ">>", "&&", "||", "**", "+=", "-=", "*=", "/=", "%=", "&=", "|=", "^=", "?.",
    "?[", "??", "#\x7b", "#!", "++", "--", "->", "<-", ":=", "(*", "*)", "!.", "+", "-", "*", "/",
    "%", "<", ">", "=", "!", "&", "|", "^", ".", ",", ";", ":", "(", ")", "[", "]", "\x7b",
    "\x7d", "~", "#", "?", "@", "$"]

def reservedSigns : List String :=
  ["...", "===", "!==", "::<", "#!", "++", "--", "->", "<-", ":=", "(*", "*)", "!.", "~", "#",
    "?", "@", "$"]

/-- Whether a minus sign after this token is a subtraction. -/
def endsOperand : Token → Bool
  | int _ | float _ | char _ | text _ | template _ _ | name _ _ => true
  | keyword word => word == "true" || word == "false"
  | symbol sign => sign == ")" || sign == "]" || sign == "\x7d"
  | reserved _ => true

def isSpace (c : Char) : Bool :=
  c = ' ' || c = '\t' || c = '\n' || c = '\r' || c.toNat = 12

def isNameStart (c : Char) : Bool := c.isAlpha || c = '_'

def isNamePart (c : Char) : Bool := c.isAlphanum || c = '_'

/-- A name has a letter, and no digit before it. -/
def isName (cs : List Char) : Bool :=
  match cs.dropWhile (· = '_') with
  | c :: _ => c.isAlpha
  | [] => false

/-- What follows a block comment that is open `depth` times. -/
def skipComment : Nat → List Char → List Char
  | _, [] => []
  | depth, '/' :: '*' :: rest => skipComment (depth + 1) rest
  | depth, '*' :: '/' :: rest => if depth ≤ 1 then rest else skipComment (depth - 1) rest
  | depth, _ :: rest => skipComment depth rest

def isBaseDigit (base : Nat) (c : Char) : Bool := (Library.digitIn base c).isSome || c = '_'

/-- A number at the head of the text, which begins with a digit. -/
def number? (negative : Bool) (cs : List Char) : Option (Token × List Char) :=
  let sign (n : Int) : Int := if negative then -n else n
  let based (base : Nat) (rest : List Char) : Option (Token × List Char) :=
    let digits := (rest.takeWhile (isBaseDigit base)).filter (· ≠ '_')
    if digits.isEmpty then none
    else
      let n := digits.foldl (fun n c => n * base + (Library.digitIn base c).getD 0) 0
      if Nat.pow 2 64 ≤ n then none
      else some (int (sign ((n : Int).bmod (Nat.pow 2 64))), rest.dropWhile (isBaseDigit base))
  match cs with
  | '0' :: 'x' :: rest | '0' :: 'X' :: rest => based 16 rest
  | '0' :: 'o' :: rest | '0' :: 'O' :: rest => based 8 rest
  | '0' :: 'b' :: rest | '0' :: 'B' :: rest => based 2 rest
  | cs =>
    let isDigit (c : Char) : Bool := c.isDigit || c = '_'
    let digits (cs : List Char) : List Char := (cs.takeWhile isDigit).filter (· ≠ '_')
    let whole := digits cs
    let rest := cs.dropWhile isDigit
    let (fraction, rest) : Option (List Char) × List Char := match rest with
      | '.' :: c :: more =>
        if c.isDigit then (some (digits (c :: more)), (c :: more).dropWhile isDigit)
        else if c = '.' || isNameStart c then (none, rest)
        else (some [], c :: more)
      | _ => (none, rest)
    let exponent? (negative : Bool) (more : List Char) : Option (Int × List Char) :=
      let e : Int := Decimal.natOfDigits (digits more)
      if (digits more).isEmpty then none
      else some (if negative then -e else e, more.dropWhile isDigit)
    let scaled : Option (Option Int × List Char) := match rest with
      | 'e' :: '-' :: more => (exponent? true more).map fun (e, rest) => (some e, rest)
      | 'e' :: '+' :: more => (exponent? false more).map fun (e, rest) => (some e, rest)
      | 'e' :: c :: more =>
        if c.isDigit then (exponent? false (c :: more)).map fun (e, rest) => (some e, rest)
        else some (none, rest)
      | _ => some (none, rest)
    scaled.map fun (exponent, rest) =>
      let n := sign (Decimal.natOfDigits whole)
      if fraction.isNone && exponent.isNone && Value.least ≤ n && n ≤ Value.greatest then
        (int n, rest)
      else
        let x := Decimal.toFloat (Decimal.ofParts whole (fraction.getD []) (exponent.getD 0))
        (float (if negative then -x else x), rest)

/-- A character given by `count` hexadecimal digits. -/
def hexChar? (count : Nat) (cs : List Char) : Option (Char × List Char) := do
  let digits := cs.take count
  guard (digits.length = count && digits.all fun c => (Library.digitIn 16 c).isSome)
  let n := digits.foldl (fun n c => n * 16 + (Library.digitIn 16 c).getD 0) 0
  guard (n < 0xD800 ∨ (0xE000 ≤ n ∧ n < 0x110000))
  return (Char.ofNat n, cs.drop count)

def escapes : List (Char × Char) :=
  [('\\', '\\'), ('t', '\t'), ('n', '\n'), ('r', '\r'), ('"', '"'), ('\'', '\'')]

/-- The contents of a literal up to its closing quote. A doubled quote stands for one, and an
escaped line end continues the literal after the blanks of the next line. -/
def literal? (quote : Char) : Nat → List Char → Option (List Char × List Char)
  | 0, _ => none
  | fuel + 1, cs => do
    let with_ (c : Char) (rest : List Char) : Option (List Char × List Char) := do
      let (s, rest) ← literal? quote fuel rest
      return (c :: s, rest)
    match cs with
    | [] => none
    | '\\' :: 'x' :: rest =>
      let (c, rest) ← hexChar? 2 rest
      with_ c rest
    | '\\' :: 'u' :: rest =>
      let (c, rest) ← hexChar? 4 rest
      with_ c rest
    | '\\' :: 'U' :: rest =>
      let (c, rest) ← hexChar? 8 rest
      with_ c rest
    | '\\' :: '\n' :: rest => literal? quote fuel (rest.dropWhile isSpace)
    | '\\' :: e :: rest =>
      let c ← escapes.lookup e
      with_ c rest
    | c :: rest =>
      if c = quote then
        match rest with
        | d :: more => if d = quote then with_ quote more else return ([], rest)
        | [] => return ([], [])
      else if c = '\n' ∨ c = '\\' then none
      else with_ c rest

/-- Text in back-ticks up to its end or to the code that it holds; the flag says which. -/
def templateText? : List Char → Option (List Char × Bool × List Char)
  | [] => none
  | '`' :: '`' :: rest => (templateText? rest).map fun (s, code, rest) => ('`' :: s, code, rest)
  | '`' :: rest => some ([], false, rest)
  | '$' :: '{' :: rest => some ([], true, rest)
  | c :: rest => (templateText? rest).map fun (s, code, rest) => (c :: s, code, rest)

def word (cs : List Char) (left : Nat) : Token :=
  let s := String.ofList cs
  if keywords.contains s then keyword s
  else if reservedWords.contains s then reserved s
  else if s = "_" then symbol s
  else if isName cs then name s left
  else reserved s

def sign? (cs : List Char) : Option (Token × List Char) := do
  let s ← signs.find? fun s => s.toList.isPrefixOf cs
  let token := if reservedSigns.contains s then reserved s else symbol s
  return (token, cs.drop s.length)

/-- `!in` is one operator, unless a longer name begins there. -/
def notIn? : List Char → Option (List Char)
  | '!' :: 'i' :: 'n' :: rest =>
    match rest with
    | c :: _ => if isNamePart c then none else some rest
    | [] => some []
  | _ => none

mutual

/-- The tokens up to the end of the text, or inside a template up to the brace that closes its
code. `depth` counts braces that are open; `fuel` bounds the tokens. -/
def tokens? : Nat → Option Nat → Bool → List Char → Option (List Token × List Char)
  | 0, _, _, _ => none
  | fuel + 1, depth, afterOperand, cs => do
    let add (token : Token) (rest : List Char) : Option (List Token × List Char) := do
      let (ts, rest) ← tokens? fuel depth token.endsOperand rest
      return (token :: ts, rest)
    match cs with
    | [] => if depth.isNone then return ([], []) else none
    | '/' :: '/' :: rest => tokens? fuel depth afterOperand (rest.dropWhile (· ≠ '\n'))
    | '/' :: '*' :: rest => tokens? fuel depth afterOperand (skipComment 1 rest)
    | '"' :: rest =>
      let (s, rest) ← literal? '"' (rest.length + 1) rest
      add (text (String.ofList s)) rest
    | '\'' :: rest =>
      match ← literal? '\'' (rest.length + 1) rest with
      | ([c], rest) => add (char c) rest
      | _ => none
    | '`' :: rest =>
      let start := match rest with
        | '\n' :: rest => rest
        | rest => rest
      let (token, rest) ← template? fuel start []
      add token rest
    | '{' :: rest =>
      let (ts, rest) ← tokens? fuel (depth.map (· + 1)) false rest
      return (symbol "\x7b" :: ts, rest)
    | '#' :: '{' :: rest =>
      let (ts, rest) ← tokens? fuel (depth.map (· + 1)) false rest
      return (symbol "#\x7b" :: ts, rest)
    | '}' :: rest =>
      match depth with
      | some 0 => return ([], rest)
      | depth =>
        let (ts, rest) ← tokens? fuel (depth.map (· - 1)) true rest
        return (symbol "\x7d" :: ts, rest)
    | '-' :: c :: rest =>
      if c.isDigit && !afterOperand then
        let (token, rest) ← number? true (c :: rest)
        add token rest
      else
        let (token, rest) ← sign? ('-' :: c :: rest)
        add token rest
    | c :: rest =>
      if isSpace c then tokens? fuel depth afterOperand rest
      else if c.isDigit then
        let (token, rest) ← number? false cs
        add token rest
      else if isNameStart c then
        add (word (cs.takeWhile isNamePart) cs.length) (cs.dropWhile isNamePart)
      else
        match notIn? cs with
        | some rest => add (symbol "!in") rest
        | none =>
          let (token, rest) ← sign? cs
          add token rest

/-- The rest of a text in back-ticks, after the parts read so far. -/
def template? : Nat → List Char → List (String × List Token) → Option (Token × List Char)
  | 0, _, _ => none
  | fuel + 1, cs, parts => do
    let (s, code, rest) ← templateText? cs
    if code then
      let (ts, rest) ← tokens? fuel (some 0) false rest
      template? fuel rest (parts ++ [(String.ofList s, ts)])
    else return (template parts (String.ofList s), rest)

end

/-- The tokens of a text. -/
def scan? (s : String) : Option (List Token) :=
  let cs := s.toList
  (tokens? (2 * cs.length + 2) none false cs).map (·.1)

end Token

end HttpWorkflow.Script
