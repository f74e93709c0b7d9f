import HttpWorkflow.Document.Data
import HttpWorkflow.Document.Yaml.Token

/-! Nodes of a document.

An anchor gives a node a number, and an alias refers to the node that has the number of its name in
the end. Numbers count the names known so far, so that giving a name again may give the same number
to two nodes; the later one has it then.
-/

set_option autoImplicit false

namespace HttpWorkflow.Document.Yaml

inductive Node where
  | scalar (tag : Option String) (text : String) (isPlain : Bool)
  | list (tag : Option String) (items : List Node)
  | map (tag : Option String) (entries : List (Node × Node))
  | alias (number : Nat)
  deriving Inhabited

/-- The anchors of a document: numbers of names, the anchored node of a number as a count of all
anchored nodes, the nodes by that count, and how many there are. -/
structure Anchors where
  numbers : List (String × Nat) := []
  owners : List (Nat × Nat) := []
  nodes : List (Nat × Node) := []
  count : Nat := 0

namespace Anchors

def add (a : Anchors) (name : String) : Anchors :=
  let number := a.numbers.length
  { a with
    numbers := (name, number) :: a.numbers.filter (·.1 ≠ name)
    owners := (number, a.count) :: a.owners
    count := a.count + 1 }

/-- The node that an alias stands for. -/
def resolve (a : Anchors) : Node → Node
  | .alias number => ((a.owners.lookup number).bind fun slot => a.nodes.lookup slot).getD (.alias number)
  | other => other

end Anchors

structure Composer where
  tokens : List Token
  handles : List (String × String)
  anchors : Anchors

abbrev Compose := StateT Composer Option

namespace Compose

def fail {α : Type} : Compose α := fun _ => none

def peek : Compose (Option Token) := return (← get).tokens.head?

def advance : Compose Unit := modify fun s => { s with tokens := s.tokens.drop 1 }

def accept (t : Token) : Compose Bool := do
  if (← peek) = some t then
    advance
    return true
  return false

def nextIsOneOf (ts : List Token) : Compose Bool := do
  match ← peek with
  | some t => return ts.contains t
  | none => return false

/-- The node where nothing is written. -/
def nothing : Node := .scalar none "" true

def resolveTag (handle suffix : String) : Compose String := do
  if handle.isEmpty then return suffix
  match (← get).handles.lookup handle with
  | some expansion => return expansion ++ suffix
  | none => fail

/-- The anchor and the tag before a node, in either order. -/
def properties : Compose (Option String × Option String) := do
  let anchor : Compose (Option String) := do
    match ← peek with
    | some (.anchor name) => advance; return some name
    | _ => return none
  let tag : Compose (Option String) := do
    match ← peek with
    | some (.tag handle suffix) => advance; return some (← resolveTag handle suffix)
    | _ => return none
  match ← peek with
  | some (.anchor _) =>
    let a ← anchor
    return (a, ← tag)
  | _ =>
    let t ← tag
    return (← anchor, t)

mutual

/-- A node. Blocks are `allowed` outside brackets, and a list may go `unindented` in a map. -/
def node : Nat → Bool → Bool → Compose Node
  | 0, _, _ => fail
  | fuel + 1, allowed, unindented => do
    match ← peek with
    | some (.alias name) =>
      advance
      match (← get).anchors.numbers.lookup name with
      | some number => return .alias number
      | none => fail
    | _ =>
      let (anchor, tag) ← properties
      let slot := (← get).anchors.count
      anchor.forM fun name => modify fun s => { s with anchors := s.anchors.add name }
      let content ← content fuel allowed unindented (anchor.isSome || tag.isSome) tag
      if anchor.isSome then
        modify fun s => { s with anchors :=
          { s.anchors with nodes := (slot, content) :: s.anchors.nodes } }
      return content

def content : Nat → Bool → Bool → Bool → Option String → Compose Node
  | 0, _, _, _, _ => fail
  | fuel + 1, allowed, unindented, marked, tag => do
    match ← peek with
    | some (.scalar text isPlain) =>
      advance
      if tag = some "!" then return .scalar none text true
      return .scalar tag text isPlain
    | some .listStart => advance; return .list tag (← flowList fuel true)
    | some .mapStart => advance; return .map tag (← flowMap fuel true)
    | t =>
      if unindented && t = some .item then return .list tag (← unindentedList fuel)
      else if allowed && t = some .blockListStart then
        advance
        return .list tag (← blockList fuel)
      else if allowed && t = some .blockMapStart then
        advance
        return .map tag (← blockMap fuel)
      else if marked then return .scalar (if tag = some "!" then none else tag) "" true
      else fail

/-- A node, or nothing before one of some tokens. -/
def nodeUnless : Nat → List Token → Bool → Bool → Compose Node
  | 0, _, _, _ => fail
  | fuel + 1, ts, allowed, unindented => do
    if ← nextIsOneOf ts then return nothing else node fuel allowed unindented

def blockList : Nat → Compose (List Node)
  | 0 => fail
  | fuel + 1 => do
    if ← accept .item then
      let first ← nodeUnless fuel [.item, .blockEnd] true false
      return first :: (← blockList fuel)
    else if ← accept .blockEnd then return []
    else fail

def unindentedList : Nat → Compose (List Node)
  | 0 => fail
  | fuel + 1 => do
    if ← accept .item then
      let first ← nodeUnless fuel [.item, .key, .value, .blockEnd] true false
      return first :: (← unindentedList fuel)
    else return []

def blockMap : Nat → Compose (List (Node × Node))
  | 0 => fail
  | fuel + 1 => do
    let ends : List Token := [.key, .value, .blockEnd]
    if ← accept .key then
      let key ← nodeUnless fuel ends true true
      let value ← if ← accept .value then nodeUnless fuel ends true true else pure nothing
      return (key, value) :: (← blockMap fuel)
    else if ← accept .blockEnd then return []
    else fail

/-- The items after an opening bracket, or further ones after a comma. -/
def flowList : Nat → Bool → Compose (List Node)
  | 0, _ => fail
  | fuel + 1, isFirst => do
    if ← accept .listEnd then return []
    unless isFirst do
      unless ← accept .comma do fail
    if ← accept .key then
      let entry ← flowPair fuel
      return .map none [entry] :: (← flowList fuel false)
    else if ← accept .listEnd then return []
    else
      let first ← node fuel false false
      return first :: (← flowList fuel false)

/-- One entry of a map without braces inside a list. -/
def flowPair : Nat → Compose (Node × Node)
  | 0 => fail
  | fuel + 1 => do
    let key ← if ← nextIsOneOf [.value, .comma, .listEnd] then do
        advance
        pure nothing
      else node fuel false false
    if ← accept .value then
      return (key, ← nodeUnless fuel [.comma, .listEnd] false false)
    else return (key, nothing)

def flowMap : Nat → Bool → Compose (List (Node × Node))
  | 0, _ => fail
  | fuel + 1, isFirst => do
    if ← accept .mapEnd then return []
    unless isFirst do
      unless ← accept .comma do fail
    let ends : List Token := [.value, .comma, .mapEnd]
    if ← accept .key then
      let key ← nodeUnless fuel ends false false
      let value ← if ← accept .value then nodeUnless fuel [.comma, .mapEnd] false false
        else pure nothing
      return (key, value) :: (← flowMap fuel false)
    else if ← accept .mapEnd then return []
    else
      let key ← node fuel false false
      return (key, nothing) :: (← flowMap fuel false)

end

/-- The directives before a document: at most one version, which must be known, and handles for
tags. -/
def directives : Nat → Bool → Compose Bool
  | 0, _ => fail
  | fuel + 1, versionSeen => do
    match ← peek with
    | some (.version major minor) =>
      if versionSeen || major ≠ 1 || (minor ≠ 1 && minor ≠ 2) then fail
      advance
      let _ ← directives fuel true
      return true
    | some (.tagHandle handle expansion) =>
      if (← get).handles.any (·.1 == handle) then fail
      modify fun s => { s with handles := (handle, expansion) :: s.handles }
      advance
      let _ ← directives fuel versionSeen
      return true
    | _ => return false

/-- Handles for tags that need no directive, unless one redefines them. -/
def defaultHandles : List (String × String) := [("!", "!"), ("!!", "tag:yaml.org,2002:")]

/-- The one document of a text. An empty text is nothing; a second document is refused. -/
def document (fuel : Nat) : Compose Node := do
  if (← peek).isNone then return nothing
  let hasDirectives ← directives fuel false
  modify fun s => { s with handles := s.handles ++ defaultHandles }
  let isExplicit ← accept .documentStart
  if hasDirectives && !isExplicit then fail
  let root ←
    if isExplicit && ((← peek).isNone || (← nextIsOneOf [.documentStart, .documentEnd])) then
      pure nothing
    else node fuel true false
  dropEnds fuel
  if (← peek).isSome then fail
  return root
where
  dropEnds : Nat → Compose Unit
    | 0 => fail
    | fuel + 1 => do
      if ← accept .documentEnd then dropEnds fuel

end Compose

/-- The number of steps in a node: an alias or a scalar is one, brackets are two. -/
def Node.size : Node → Nat
  | .scalar .. | .alias _ => 1
  | .list _ items => 2 + sizeOfItems items
  | .map _ entries => 2 + sizeOfEntries entries
where
  sizeOfItems : List Node → Nat
    | [] => 0
    | item :: rest => item.size + sizeOfItems rest
  sizeOfEntries : List (Node × Node) → Nat
    | [] => 0
    | (k, v) :: rest => k.size + v.size + sizeOfEntries rest

def withTag (tag : Option String) (d : Data) : Data :=
  match tag with
  | some t => .tagged t d
  | none => d

/-- Maps and lists may nest so deep. -/
def depthLimit : Nat := 128

/-- The tree of a node with its aliases replaced. The state is how many more of them may be. -/
def expand (anchors : Anchors) : Nat → Node → StateM Nat Data
  | depth, n => do
    let isAlias := match n with
      | .alias _ => true
      | _ => false
    if isAlias && (← get) = 0 then return .unreadable
    if isAlias then modify (· - 1)
    match anchors.resolve n, depth with
    | .scalar tag text isPlain, _ =>
      return withTag tag (if isPlain then .plain text else .text text)
    | .list tag items, depth + 1 =>
      return withTag tag (.list (← items.mapM (expand anchors depth)))
    | .map tag entries, depth + 1 =>
      let entries ← entries.mapM fun (k, v) => do
        let key ← expand anchors depth k
        return (key, ← expand anchors depth v)
      return withTag tag (.map entries)
    | _, _ => return .unreadable

/-- The tree of a YAML document. -/
def read? (text : String) : Option Data := do
  let tokens ← Token.scan? text
  let (root, s) ← (Compose.document (4 * tokens.length + 8)).run ⟨tokens, [], {}⟩
  return ((expand s.anchors depthLimit root).run (100 * root.size)).1

end HttpWorkflow.Document.Yaml
