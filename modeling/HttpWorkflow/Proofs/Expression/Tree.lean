import HttpWorkflow.Text.Blank

/-! Expression trees and their texts.

A tree is a group of code or a conditional between two trees. One printer writes trees in the
dialect that it is given: as config authors write them, or as scripts. The parts of a conditional
are written without white space at their ends.
-/

set_option autoImplicit false

namespace HttpWorkflow.Expression

inductive Quote where
  | single
  | double
  | back
  deriving DecidableEq, Repr

def Quote.char : Quote → Char
  | single => '\''
  | double => '"'
  | back => '`'

/-- A character of a literal, or one with a backslash before it. -/
inductive Part (quote : Quote) where
  | plain (c : Char) (inside : c ≠ '\\' ∧ c ≠ quote.char)
  | escaped (c : Char)

def Part.text {quote : Quote} : Part quote → List Char
  | plain c _ => [c]
  | escaped c => ['\\', c]

/-- The same part between double quotes. -/
def Part.requote : Part .single → Part .double
  | plain c inside => if same : c = '"' then escaped '"' else plain c ⟨inside.1, same⟩
  | escaped c => if c = '\'' then plain '\'' (by decide) else escaped c

structure Literal where
  quote : Quote
  parts : List (Part quote)

namespace Literal

def text (l : Literal) : List Char :=
  l.quote.char :: (l.parts.flatMap Part.text ++ [l.quote.char])

/-- Scripts have no literals between single quotes. -/
def requote : Literal → Literal
  | ⟨.single, parts⟩ => ⟨.double, parts.map Part.requote⟩
  | l => l

theorem requote_quote (l : Literal) : l.requote.quote ≠ .single := by
  obtain ⟨quote, parts⟩ := l
  cases quote <;> nofun

end Literal

inductive Operator where
  | assign
  | equal
  | unequal
  | atMost
  | atLeast
  | not
  | same
  | different
  deriving DecidableEq, Repr

namespace Operator

def sign : Operator → List Char
  | assign => ['=']
  | equal => ['=', '=']
  | unequal => ['!', '=']
  | atMost => ['<', '=']
  | atLeast => ['>', '=']
  | not => ['!']
  | same => ['=', '=', '=']
  | different => ['!', '=', '=']

/-- Scripts know one kind of equality. -/
def loose : Operator → Operator
  | same => equal
  | different => unequal
  | op => op

end Operator

/-- Characters of code that are no sign of the language. -/
def isCode (c : Char) : Bool :=
  c ∉ ['?', ':', ',', '\'', '"', '`', '(', ')', '[', ']', '\x7b', '\x7d', '=', '!']

inductive Bracket where
  | round
  | square
  deriving DecidableEq, Repr

namespace Bracket

def opening : Bracket → Char
  | round => '('
  | square => '['

def closing : Bracket → Char
  | round => ')'
  | square => ']'

end Bracket

mutual

inductive Tree where
  | group (items : List Item)
  | conditional (condition : List Item) (yes no : Tree)

inductive Item where
  | code (c : Char) (plain : isCode c)
  | operator (op : Operator)
  | literal (l : Literal)
  | list (bracket : Bracket) (trees : List Tree)

end

/-- How trees are written. -/
structure Dialect where
  operator : Operator → Operator
  literal : Literal → Literal
  conditional : List Char → List Char → List Char → List Char

namespace Dialect

/-- Conditionals with a question mark and a colon. -/
def questioned (condition yes no : List Char) : List Char :=
  condition ++ " ? ".toList ++ yes ++ " : ".toList ++ no

/-- Conditionals with blocks. -/
def branching (condition yes no : List Char) : List Char :=
  "if (".toList ++ condition ++ ") \x7b ".toList ++ yes ++ " \x7d else \x7b ".toList ++ no
    ++ " \x7d".toList

/-- What config authors write. -/
def web : Dialect := ⟨id, id, questioned⟩

/-- The signs and literals of scripts, but the conditionals of config authors. -/
def normal : Dialect := ⟨Operator.loose, Literal.requote, questioned⟩

def script : Dialect := ⟨Operator.loose, Literal.requote, branching⟩

end Dialect

mutual

def Tree.print (d : Dialect) : Tree → List Char
  | .group items => printItems d items
  | .conditional condition yes no =>
    d.conditional (Text.trim (printItems d condition)) (Text.trim (yes.print d))
      (Text.trim (no.print d))

def Item.print (d : Dialect) : Item → List Char
  | .code c _ => [c]
  | .operator op => ' ' :: ((d.operator op).sign ++ [' '])
  | .literal l => (d.literal l).text
  | .list bracket trees => bracket.opening :: (printTrees d trees ++ [bracket.closing])

def printItems (d : Dialect) : List Item → List Char
  | [] => []
  | item :: rest => item.print d ++ printItems d rest

def printTrees (d : Dialect) : List Tree → List Char
  | [] => []
  | [tree] => tree.print d
  | tree :: rest => tree.print d ++ ',' :: printTrees d rest

end

theorem printTrees_cons (d : Dialect) (tree next : Tree) (rest : List Tree) :
    printTrees d (tree :: next :: rest) = tree.print d ++ ',' :: printTrees d (next :: rest) := by
  rw [printTrees]
  simp

end HttpWorkflow.Expression
