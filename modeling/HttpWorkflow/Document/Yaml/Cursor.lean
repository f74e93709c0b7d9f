/-! A place in the text of a document, and what characters mean to its structure. -/

set_option autoImplicit false

namespace HttpWorkflow.Document.Yaml

def isBlank (c : Char) : Bool := c = ' ' || c = '\t'

def isBreak (c : Char) : Bool :=
  c = '\n' || c = '\r' || c.toNat = 0x85 || c.toNat = 0x2028 || c.toNat = 0x2029

/-- Whether white space, a line break or the end of the text stands here. -/
def isGap : Option Char → Bool
  | some c => isBlank c || isBreak c
  | none => true

/-- Letters, digits and two signs make names. -/
def isNameChar (c : Char) : Bool := c.isAlphanum || c = '_' || c = '-'

def byteOrderMark : Char := '\uFEFF'

/-- Characters that a document may hold at all. -/
def isAllowed (c : Char) : Bool :=
  let n := c.toNat
  n = 9 || n = 10 || n = 13 || (0x20 ≤ n && n ≤ 0x7E) || n = 0x85 || (0xA0 ≤ n && n ≤ 0xFFFD)
    || 0x10000 ≤ n

structure Cursor where
  rest : List Char
  index : Nat
  line : Nat
  column : Nat
  deriving Inhabited

namespace Cursor

/-- The beginning of a text. A mark of the order of octets is no part of it. -/
def start (text : String) : Cursor :=
  let cs := text.toList
  ⟨if cs.head? = some byteOrderMark then cs.drop 1 else cs, 0, 0, 0⟩

def peek (c : Cursor) : Option Char := c.rest.head?

def peekAt (c : Cursor) (n : Nat) : Option Char := c.rest[n]?

/-- Move over characters of the same line. -/
def advance (c : Cursor) (n : Nat) : Cursor :=
  ⟨c.rest.drop n, c.index + n, c.line, c.column + n⟩

def skip (c : Cursor) : Cursor := c.advance 1

/-- Move to the next line. A return and a feed are one line break; the break is also given as it is
kept in a text. -/
def takeBreak (c : Cursor) : List Char × Cursor :=
  match c.rest with
  | '\r' :: '\n' :: rest => (['\n'], ⟨rest, c.index + 2, c.line + 1, 0⟩)
  | b :: rest =>
    (if b.toNat = 0x2028 || b.toNat = 0x2029 then [b] else ['\n'], ⟨rest, c.index + 1, c.line + 1, 0⟩)
  | [] => ([], c)

def skipBreak (c : Cursor) : Cursor := c.takeBreak.2

def atBreak (c : Cursor) : Bool :=
  match c.peek with
  | some b => isBreak b
  | none => false

def atBlank (c : Cursor) : Bool :=
  match c.peek with
  | some b => isBlank b
  | none => false

def atGap (c : Cursor) : Bool := isGap c.peek

/-- Whether three signs that mark the bounds of a document stand here. -/
def atMark (c : Cursor) (sign : Char) : Bool :=
  c.column = 0 && [0, 1, 2].all (fun n => c.peekAt n = some sign) && isGap (c.peekAt 3)

def atDocumentBound (c : Cursor) : Bool := c.atMark '-' || c.atMark '.'

/-- Move over the characters of this line that have a property. -/
def skipWhile (c : Cursor) (p : Char → Bool) : Cursor :=
  c.advance (c.rest.takeWhile fun x => p x && !isBreak x).length

/-- Move to the end of the line over a comment, if one stands here. -/
def skipComment (c : Cursor) : Cursor :=
  if c.peek = some '#' then c.skipWhile fun _ => true else c

end Cursor

end HttpWorkflow.Document.Yaml
