/-! Dotted paths such as `api.login.items[0].id`.

A path is a list of segments. A dot and an opening bracket end the segment before them; a bracket
holds its segment up to the next closing bracket, less the quotes around it.
-/

set_option autoImplicit false

namespace HttpWorkflow.Path

def isQuote (c : Char) : Bool := c = '"' || c = '\''

/-- Without the quotes at either end. -/
def trimQuotes (cs : List Char) : List Char :=
  ((cs.dropWhile isQuote).reverse.dropWhile isQuote).reverse

/-- The pending segment, unless it is empty. -/
def flush (pending : List Char) : List (List Char) :=
  if pending.isEmpty then [] else [pending]

/-- The text before the first closing bracket, and the text after it. -/
def bracket : List Char → List Char × List Char
  | [] => ([], [])
  | ']' :: rest => ([], rest)
  | c :: rest => let (inner, after) := bracket rest; (c :: inner, after)

theorem length_bracket_le (cs : List Char) : (bracket cs).2.length ≤ cs.length := by
  fun_induction bracket cs with
  | case1 => simp
  | case2 => simp
  | case3 c rest _ inner after h ih => simp only [h] at ih; simp; omega

def segmentsFrom (pending : List Char) : List Char → List (List Char)
  | [] => flush pending
  | '.' :: rest => flush pending ++ segmentsFrom [] rest
  | '[' :: rest =>
    let inside := bracket rest
    flush pending ++ trimQuotes inside.1 :: segmentsFrom [] inside.2
  | c :: rest => segmentsFrom (pending ++ [c]) rest
termination_by cs => cs.length
decreasing_by
  all_goals simp only [List.length_cons]
  · omega
  · have := length_bracket_le rest; omega
  · omega

def segments (path : String) : List String :=
  (segmentsFrom [] path.toList).map String.ofList

end HttpWorkflow.Path
