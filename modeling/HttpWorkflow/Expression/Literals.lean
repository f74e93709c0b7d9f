/-! Quotes and equality signs as config authors write them.

Single-quoted literals become double-quoted ones, and `===`, `!==` become `==`, `!=`. All other
characters stay, those inside double quotes and back-ticks included.
-/

set_option autoImplicit false

namespace HttpWorkflow.Expression

/-- What the next character belongs to: code, or a literal that ends at a quote. -/
inductive Quoting where
  | code
  | single
  | other (quote : Char)
  deriving DecidableEq, Repr

def normalize : Quoting → List Char → List Char
  | _, [] => []
  | .single, '\\' :: '\'' :: rest => '\'' :: normalize .single rest
  | .single, '\\' :: c :: rest => '\\' :: c :: normalize .single rest
  | .single, '"' :: rest => '\\' :: '"' :: normalize .single rest
  | .single, '\'' :: rest => '"' :: normalize .code rest
  | .single, c :: rest => c :: normalize .single rest
  | .other q, '\\' :: c :: rest => '\\' :: c :: normalize (.other q) rest
  | .other q, c :: rest => c :: normalize (if c = q then .code else .other q) rest
  | .code, '\'' :: rest => '"' :: normalize .single rest
  | .code, '"' :: rest => '"' :: normalize (.other '"') rest
  | .code, '`' :: rest => '`' :: normalize (.other '`') rest
  | .code, '=' :: '=' :: '=' :: rest => '=' :: '=' :: normalize .code rest
  | .code, '!' :: '=' :: '=' :: rest => '!' :: '=' :: normalize .code rest
  | .code, c :: rest => c :: normalize .code rest

theorem normalize_char {c : Char} (ordinary : c ∉ ['\'', '"', '`', '=', '!']) (rest : List Char) :
    normalize .code (c :: rest) = c :: normalize .code rest := by
  rw [normalize]
  all_goals simp_all

end HttpWorkflow.Expression
