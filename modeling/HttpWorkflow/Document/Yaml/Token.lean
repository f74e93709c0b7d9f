import HttpWorkflow.Document.Yaml.Text
import HttpWorkflow.Text.Utf8

/-! Tokens of a document.

Indentation becomes tokens that open and close blocks. What comes before a colon turns out to be a
key only at the colon: the places where a key may begin are noted, one for each level of brackets,
and the token for the key goes there afterwards. Such a key stands on one line and within 1024
characters of its colon.
-/

set_option autoImplicit false

namespace HttpWorkflow.Document.Yaml

inductive Token where
  | version (major minor : Nat)
  | tagHandle (handle expansion : String)
  | documentStart
  | documentEnd
  | blockListStart
  | blockMapStart
  | blockEnd
  | listStart
  | listEnd
  | mapStart
  | mapEnd
  | item
  | comma
  | key
  | value
  | alias (name : String)
  | anchor (name : String)
  | tag (handle suffix : String)
  | scalar (text : String) (isPlain : Bool)
  deriving DecidableEq, Inhabited

/-- A place where a key may have begun: the number of its first token, and where that stands. -/
structure PossibleKey where
  token : Nat
  isRequired : Bool
  index : Nat
  line : Nat
  column : Nat

/-- What has been read: tokens with the last first, the indentation of the blocks around with the
innermost first, and for every level of brackets the place where a key may have begun. -/
structure Scanner where
  cursor : Cursor
  tokens : List Token
  count : Nat
  indent : Int
  outer : List Int
  keys : List (Option PossibleKey)
  keyAllowed : Bool

abbrev Scan := StateT Scanner Option

namespace Scan

def fail {α : Type} : Scan α := fun _ => none

def cursor : Scan Cursor := return (← get).cursor

def moveTo (c : Cursor) : Scan Unit := modify fun s => { s with cursor := c }

def skip (n : Nat) : Scan Unit := do moveTo ((← cursor).advance n)

def emit (t : Token) : Scan Unit :=
  modify fun s => { s with tokens := t :: s.tokens, count := s.count + 1 }

/-- Put a token before the one of this number. -/
def insert (number : Nat) (t : Token) : Scan Unit := modify fun s =>
  let after := s.count - number
  { s with tokens := s.tokens.take after ++ t :: s.tokens.drop after, count := s.count + 1 }

def allowKey (allowed : Bool) : Scan Unit := modify fun s => { s with keyAllowed := allowed }

def inFlow : Scan Bool := return 1 < (← get).keys.length

/-- Give up the possible key of this level; one that the indentation requires must not go. -/
def removeKey : Scan Unit := do
  match (← get).keys with
  | some k :: rest =>
    if k.isRequired then fail else modify fun s => { s with keys := none :: rest }
  | _ => return

/-- Note that a key may begin here. -/
def saveKey : Scan Unit := do
  let s ← get
  if s.keyAllowed then
    let isRequired := !(← inFlow) && s.indent = s.cursor.column
    removeKey
    modify fun s =>
      { s with keys := some ⟨s.count, isRequired, s.cursor.index, s.cursor.line, s.cursor.column⟩
          :: s.keys.drop 1 }

def isStale (c : Cursor) (k : PossibleKey) : Bool := k.line < c.line || k.index + 1024 < c.index

/-- Give up the possible keys that are too far behind. -/
def dropStaleKeys : Scan Unit := do
  let s ← get
  let stale (k : Option PossibleKey) : Bool := (k.map (isStale s.cursor)).getD false
  if s.keys.any fun k => stale k && (k.map (·.isRequired)).getD false then fail
  set { s with keys := s.keys.map fun k => if stale k then none else k }

/-- Open a block at a column that is deeper than the one around. -/
def openBlock (column : Nat) (number : Option Nat) (t : Token) : Scan Unit := do
  if ← inFlow then return
  let s ← get
  if s.indent < column then
    set { s with outer := s.indent :: s.outer, indent := column }
    match number with
    | some n => insert n t
    | none => emit t

/-- Close the blocks that are deeper than a column. -/
def closeBlocks (column : Int) : Scan Unit := do
  if ← inFlow then return
  let deeper := ((← get).indent :: (← get).outer).takeWhile (column < ·)
  deeper.forM fun _ => do
    emit .blockEnd
    modify fun s => { s with indent := s.outer.headD (-1), outer := s.outer.drop 1 }

/-- Move to the next token over white space, comments and line breaks. -/
def toNextToken : Nat → Scan Unit
  | 0 => fail
  | fuel + 1 => do
    let s ← get
    let c := if s.cursor.column = 0 && s.cursor.peek = some byteOrderMark then s.cursor.skip
      else s.cursor
    let tabs := (← inFlow) || !s.keyAllowed
    let c := c.skipWhile fun x => x = ' ' || (tabs && x = '\t')
    let c := c.skipComment
    if c.atBreak then
      moveTo c.skipBreak
      unless ← inFlow do allowKey true
      toNextToken fuel
    else moveTo c

/-- A directive on a line of its own; only those for the version and for tags are known. -/
def directive : Scan Unit := do
  closeBlocks (-1)
  removeKey
  allowKey false
  let c := (← cursor).skip
  let name := c.rest.takeWhile isNameChar
  let c := (c.advance name.length).skipWhile isBlank
  let number (c : Cursor) : Option (Nat × Cursor) :=
    let digits := c.rest.takeWhile Char.isDigit
    if digits.isEmpty || 9 < digits.length then none
    else some (digits.foldl (fun n d => n * 10 + (d.toNat - 48)) 0, c.advance digits.length)
  let c ←
    if name = "YAML".toList then
      match number c with
      | some (major, c) =>
        if c.peek = some '.' then
          match number c.skip with
          | some (minor, c) =>
            emit (.version major minor)
            pure c
          | none => fail
        else fail
      | none => fail
    else if name = "TAG".toList then
      let handle := c.rest.takeWhile fun x => !isGap (some x)
      let next := (c.advance handle.length).skipWhile isBlank
      let expansion := next.rest.takeWhile fun x => !isGap (some x)
      let isHandle := handle.head? = some '!' && handle.getLast? = some '!'
        && ((handle.drop 1).dropLast).all isNameChar
      if isHandle && !expansion.isEmpty then
        emit (.tagHandle (String.ofList handle) (String.ofList expansion))
        pure (next.advance expansion.length)
      else fail
    else fail
  let c := (c.skipWhile isBlank).skipComment
  if c.peek.isSome && !c.atBreak then fail
  moveTo (if c.peek.isSome then c.skipBreak else c)

def documentBound (t : Token) : Scan Unit := do
  closeBlocks (-1)
  removeKey
  allowKey false
  skip 3
  emit t

def openFlow (t : Token) : Scan Unit := do
  saveKey
  modify fun s => { s with keys := none :: s.keys, keyAllowed := true }
  skip 1
  emit t

def closeFlow (t : Token) : Scan Unit := do
  removeKey
  modify fun s =>
    { s with keys := if 1 < s.keys.length then s.keys.drop 1 else s.keys, keyAllowed := false }
  skip 1
  emit t

def flowComma : Scan Unit := do
  removeKey
  allowKey true
  skip 1
  emit .comma

def blockItem : Scan Unit := do
  let s ← get
  unless ← inFlow do
    unless s.keyAllowed do fail
    openBlock s.cursor.column none .blockListStart
  removeKey
  allowKey true
  skip 1
  emit .item

def explicitKey : Scan Unit := do
  let s ← get
  unless ← inFlow do
    unless s.keyAllowed do fail
    openBlock s.cursor.column none .blockMapStart
  removeKey
  allowKey !(← inFlow)
  skip 1
  emit .key

/-- A colon: the value of the possible key of this level, if there is one. -/
def valueSign : Scan Unit := do
  let s ← get
  match s.keys with
  | some k :: rest =>
    insert k.token .key
    openBlock k.column (some k.token) .blockMapStart
    modify fun s => { s with keys := none :: rest, keyAllowed := false }
  | _ =>
    unless ← inFlow do
      unless s.keyAllowed do fail
      openBlock s.cursor.column none .blockMapStart
    allowKey !(← inFlow)
  skip 1
  emit .value

/-- The name after the sign of an anchor or an alias. -/
def reference (token : String → Token) : Scan Unit := do
  saveKey
  allowKey false
  let c := (← cursor).skip
  let name := c.rest.takeWhile isNameChar
  let c := c.advance name.length
  let ended := match c.peek with
    | some x => isGap (some x) || "?:,]\x7d%@`".toList.contains x
    | none => true
  if name.isEmpty || !ended then fail
  moveTo c
  emit (token (String.ofList name))

def isTagChar (x : Char) : Bool := isNameChar x || ";/?:@&=+$.!~*'()%".toList.contains x

def isVerbatimTagChar (x : Char) : Bool := isTagChar x || x = ',' || x = '[' || x = ']'

/-- The text of a tag without its escapes. -/
def tagText? (cs : List Char) : Option String :=
  (Utf8.decode (Percent.decode (Utf8.encode cs))).map String.ofList

/-- A tag: verbatim between angle brackets, with the handle `!name!` or with the handle `!`. -/
def tag : Scan Unit := do
  saveKey
  allowKey false
  let c ← cursor
  let next ←
    if c.peekAt 1 = some '<' then
      let c := c.advance 2
      let suffix := c.rest.takeWhile isVerbatimTagChar
      let c := c.advance suffix.length
      match suffix.isEmpty, c.peek, tagText? suffix with
      | false, some '>', some s =>
        emit (.tag "" s)
        pure c.skip
      | _, _, _ => fail
    else
      let name := (c.rest.drop 1).takeWhile isNameChar
      if c.peekAt (name.length + 1) = some '!' then
        let c := c.advance (name.length + 2)
        let suffix := c.rest.takeWhile isTagChar
        match suffix.isEmpty, tagText? suffix with
        | false, some s =>
          emit (.tag (String.ofList ('!' :: name ++ ['!'])) s)
          pure (c.advance suffix.length)
        | _, _ => fail
      else
        let suffix := (c.rest.drop 1).takeWhile isTagChar
        match tagText? suffix with
        | some s =>
          emit (if suffix.isEmpty then .tag "" "!" else .tag "!" s)
          pure (c.advance (suffix.length + 1))
        | none => fail
  let closed := next.atGap || ((← inFlow) && next.peek = some ',')
  unless closed do fail
  moveTo next

def blockScalar (isLiteral : Bool) : Scan Unit := do
  removeKey
  allowKey true
  let s ← get
  match blockText isLiteral s.indent s.cursor.skip with
  | some (text, c) =>
    moveTo c
    emit (.scalar (String.ofList text) false)
  | none => fail

def quotedScalar (isSingle : Bool) : Scan Unit := do
  saveKey
  allowKey false
  let c := (← cursor).skip
  match quotedText isSingle (fuelOf c) [] c with
  | some (text, c) =>
    moveTo c
    emit (.scalar (String.ofList text) false)
  | none => fail

def plainScalar : Scan Unit := do
  saveKey
  allowKey false
  let s ← get
  match plainText (← inFlow) (s.indent + 1) (fuelOf s.cursor) {} [] s.cursor with
  | some (text, broken, c) =>
    moveTo c
    emit (.scalar (String.ofList text) true)
    if broken then allowKey true
  | none => fail

/-- Signs that do not begin a plain text, or only with something right after them. -/
def isIndicator (x : Char) : Bool := "-?:,[]\x7b\x7d#&*!|>'\"%@`".toList.contains x

/-- The token at the cursor. -/
def token (x : Char) : Scan Unit := do
  let c ← cursor
  let flow ← inFlow
  let spaced := isGap (c.peekAt 1)
  if c.column = 0 && x = '%' then directive
  else if c.atMark '-' then documentBound .documentStart
  else if c.atMark '.' then documentBound .documentEnd
  else if x = '[' then openFlow .listStart
  else if x = '{' then openFlow .mapStart
  else if x = ']' then closeFlow .listEnd
  else if x = '}' then closeFlow .mapEnd
  else if x = ',' then flowComma
  else if x = '-' && spaced then blockItem
  else if x = '?' && (flow || spaced) then explicitKey
  else if x = ':' && (flow || spaced) then valueSign
  else if x = '*' then reference .alias
  else if x = '&' then reference .anchor
  else if x = '!' then tag
  else if x = '|' && !flow then blockScalar true
  else if x = '>' && !flow then blockScalar false
  else if x = '\'' then quotedScalar true
  else if x = '"' then quotedScalar false
  else if !isIndicator x || (x = '-' && !spaced) || (!flow && (x = '?' || x = ':') && !spaced) then
    plainScalar
  else fail

def all : Nat → Scan Unit
  | 0 => fail
  | fuel + 1 => do
    toNextToken (fuelOf (← cursor))
    dropStaleKeys
    closeBlocks (← cursor).column
    match (← cursor).peek with
    | none =>
      closeBlocks (-1)
      removeKey
    | some x =>
      token x
      all fuel

end Scan

namespace Token

/-- The tokens of a text, if it is made of them. -/
def scan? (text : String) : Option (List Token) := do
  guard (text.toList.all isAllowed)
  let c := Cursor.start text
  let ((), s) ← (Scan.all (fuelOf c)).run ⟨c, [], 0, -1, [], [none], true⟩
  return s.tokens.reverse

end Token

end HttpWorkflow.Document.Yaml
