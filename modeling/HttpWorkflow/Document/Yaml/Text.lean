import HttpWorkflow.Document.Yaml.Cursor
import HttpWorkflow.Text.Percent

/-! The texts of scalars.

Plain and quoted texts may go on over line breaks: one break becomes a space, and of several the
first is dropped. Block texts keep their lines, or fold them where neither of two lines is
indented. Loops over a text take fuel for all its characters.
-/

set_option autoImplicit false

namespace HttpWorkflow.Document.Yaml

/-- White space between two parts of a text: blanks on one line, or the line breaks. -/
structure Spacing where
  blanks : List Char := []
  first : List Char := []
  later : List Char := []
  broken : Bool := false

namespace Spacing

/-- What is left of the white space in the text. -/
def folded (s : Spacing) : List Char :=
  if s.broken then
    if s.first = ['\n'] then if s.later.isEmpty then [' '] else s.later
    else s.first ++ s.later
  else s.blanks

/-- Read white space. On a further line a tab must not stand in place of indentation. -/
def read (indent : Int) : Nat → Spacing → Cursor → Option (Spacing × Cursor)
  | 0, _, _ => none
  | fuel + 1, s, c =>
    match c.peek with
    | none => some (s, c)
    | some x =>
      if isBlank x then
        if s.broken then
          if x = '\t' && c.column < indent then none else read indent fuel s c.skip
        else read indent fuel { s with blanks := s.blanks ++ [x] } c.skip
      else if isBreak x then
        let (kept, next) := c.takeBreak
        if s.broken then read indent fuel { s with later := s.later ++ kept } next
        else read indent fuel { s with blanks := [], first := kept, broken := true } next
      else some (s, c)

end Spacing

def fuelOf (c : Cursor) : Nat := c.rest.length + 2

/-- The characters of a plain text up to white space or a sign that ends it. Between brackets a
colon must not stand before a bracket or a comma. -/
def plainWord? (inFlow : Bool) : List Char → Option (List Char)
  | [] => some []
  | x :: rest =>
    let next := rest.head?
    if inFlow && x = ':' && (next.map fun n => ",?[]\x7b\x7d".toList.contains n) = some true then none
    else if isBlank x || isBreak x then some []
    else if x = ':' && isGap next then some []
    else if inFlow && ",[]\x7b\x7d".toList.contains x then some []
    else (plainWord? inFlow rest).map (x :: ·)

/-- A plain text: its characters, whether it ends after a line break, and the place after it. -/
def plainText (inFlow : Bool) (indent : Int) :
    Nat → Spacing → List Char → Cursor → Option (List Char × Bool × Cursor)
  | 0, _, _, _ => none
  | fuel + 1, s, text, c => do
    if c.atDocumentBound || c.peek = some '#' then return (text, s.broken, c)
    let word ← plainWord? inFlow c.rest
    if word.isEmpty then return (text, s.broken, c)
    let text := text ++ s.folded ++ word
    let c := c.advance word.length
    if c.peek.isNone || !c.atGap then return (text, false, c)
    let (s, c) ← Spacing.read indent (fuelOf c) {} c
    if !inFlow && c.column < indent then return (text, s.broken, c)
    plainText inFlow indent fuel s text c

/-- How many hexadecimal digits follow a letter after a backslash. -/
def codeLength? : Char → Option Nat
  | 'x' => some 2
  | 'u' => some 4
  | 'U' => some 8
  | _ => none

/-- The character that a sign after a backslash stands for. -/
def escaped? : Char → Option Char
  | '0' => some (Char.ofNat 0)
  | 'a' => some (Char.ofNat 7)
  | 'b' => some (Char.ofNat 8)
  | 't' | '\t' => some '\t'
  | 'n' => some '\n'
  | 'v' => some (Char.ofNat 11)
  | 'f' => some (Char.ofNat 12)
  | 'r' => some '\r'
  | 'e' => some (Char.ofNat 27)
  | ' ' => some ' '
  | '"' => some '"'
  | '/' => some '/'
  | '\\' => some '\\'
  | 'N' => some (Char.ofNat 0x85)
  | '_' => some (Char.ofNat 0xA0)
  | 'L' => some (Char.ofNat 0x2028)
  | 'P' => some (Char.ofNat 0x2029)
  | _ => none

/-- The character of a hexadecimal code. -/
def charOfCode? (digits : List Char) : Option Char := do
  let ds ← digits.mapM fun d => Percent.hexValue d.toNat
  let n := ds.foldl (fun n d => n * 16 + d) 0
  if h : n.isValidChar then return Char.ofNatAux n h else none

/-- The characters of a quoted text up to white space or its closing quote, and whether an escaped
line break ends them. -/
def quotedPart (isSingle : Bool) : Nat → List Char → Cursor → Option (List Char × Bool × Cursor)
  | 0, _, _ => none
  | fuel + 1, text, c =>
    if c.atGap then some (text, false, c)
    else match c.rest with
      | '\'' :: '\'' :: _ =>
        if isSingle then quotedPart isSingle fuel (text ++ ['\'']) (c.advance 2)
        else quotedPart isSingle fuel (text ++ ['\'']) c.skip
      | '\\' :: x :: rest =>
        if isSingle then quotedPart isSingle fuel (text ++ ['\\']) c.skip
        else if isBreak x then some (text, true, c.skip.skipBreak)
        else match codeLength? x with
          | some n => do
            guard (n ≤ rest.length)
            let e ← charOfCode? (rest.take n)
            quotedPart isSingle fuel (text ++ [e]) (c.advance (n + 2))
          | none => do quotedPart isSingle fuel (text ++ [← escaped? x]) (c.advance 2)
      | x :: _ =>
        if x = (if isSingle then '\'' else '"') then some (text, false, c)
        else quotedPart isSingle fuel (text ++ [x]) c.skip
      | [] => some (text, false, c)

/-- A quoted text after its opening quote. -/
def quotedText (isSingle : Bool) : Nat → List Char → Cursor → Option (List Char × Cursor)
  | 0, _, _ => none
  | fuel + 1, text, c => do
    if c.atDocumentBound || c.peek.isNone then none
    let (text, escapedBreak, c) ← quotedPart isSingle (fuelOf c) text c
    if c.peek = some (if isSingle then '\'' else '"') then return (text, c.skip)
    let (s, c) ← Spacing.read 0 (fuelOf c) { broken := escapedBreak } c
    quotedText isSingle fuel (text ++ s.folded) c

/-- What the end of a block text keeps of its line breaks. -/
inductive Chomping where
  | strip
  | clip
  | keep
  deriving DecidableEq

def chomping? : Char → Option Chomping
  | '+' => some .keep
  | '-' => some .strip
  | _ => none

/-- The signs after the one that begins a block text: chomping, and an indentation if given. -/
def blockHeader (c : Cursor) : Option (Chomping × Option Nat × Cursor) :=
  let digit (c : Cursor) : Option (Option Nat × Cursor) :=
    match c.peek with
    | some d =>
      if d = '0' then none
      else if d.isDigit then some (some (d.toNat - 48), c.skip)
      else some (none, c)
    | none => some (none, c)
  match c.peek.bind chomping? with
  | some k => do
    let (n, c) ← digit c.skip
    return (k, n, c)
  | none => do
    let (n, c) ← digit c
    match n, c.peek.bind chomping? with
    | some n, some k => return (k, some n, c.skip)
    | n, _ => return (.clip, n, c)

/-- Empty lines before a line of a block text. While the indentation is not known the deepest blank
line is noted. -/
def blockBreaks (indent : Option Nat) :
    Nat → Nat → List Char → Cursor → Option (Nat × List Char × Cursor)
  | 0, _, _, _ => none
  | fuel + 1, deepest, breaks, c =>
    let free : Nat := (c.rest.takeWhile (· = ' ')).length
    let c := match indent with
      | some n => c.advance (min free (n - c.column))
      | none => c.advance free
    let deepest := max deepest c.column
    let short := match indent with
      | some n => decide (c.column < n)
      | none => true
    if short && c.peek = some '\t' then none
    else if c.atBreak then
      let (kept, c) := c.takeBreak
      blockBreaks indent fuel deepest (breaks ++ kept) c
    else some (deepest, breaks, c)

/-- The lines of a block text. `lead` is the line break before the line at hand, and `breaks` are
the empty lines after it. -/
def blockLines (isLiteral : Bool) (indent : Nat) :
    Nat → List Char → List Char → List Char → Bool → Cursor →
      Option (List Char × List Char × List Char × Cursor)
  | 0, _, _, _, _, _ => none
  | fuel + 1, text, lead, breaks, wasIndented, c =>
    if c.column ≠ indent || c.peek.isNone then some (text, lead, breaks, c)
    else do
      let isIndented := c.atBlank
      let joint := if !isLiteral && lead = ['\n'] && !wasIndented && !isIndented then
          if breaks.isEmpty then [' '] else []
        else lead
      let line := c.rest.takeWhile (!isBreak ·)
      let (lead, next) := (c.advance line.length).takeBreak
      let (_, after, next) ← blockBreaks (some indent) (fuelOf next) 0 [] next
      blockLines isLiteral indent fuel (text ++ joint ++ breaks ++ line) lead after isIndented next

/-- A block text after the sign that begins it, inside a block of indentation `outer`. -/
def blockText (isLiteral : Bool) (outer : Int) (c : Cursor) : Option (List Char × Cursor) := do
  let (chomping, given, c) ← blockHeader c
  let c := (c.skipWhile isBlank).skipComment
  guard (c.peek.isNone || c.atBreak)
  let c := c.skipBreak
  let fixed := given.map fun n => if 0 ≤ outer then outer.toNat + n else n
  let (deepest, breaks, c) ← blockBreaks fixed (fuelOf c) 0 [] c
  let indent := fixed.getD (max deepest (max (outer + 1).toNat 1))
  let (text, lead, breaks, c) ← blockLines isLiteral indent (fuelOf c) [] [] breaks false c
  return (match chomping with
    | .strip => text
    | .clip => text ++ lead
    | .keep => text ++ lead ++ breaks, c)

end HttpWorkflow.Document.Yaml
