/-! White space, the characters with the Unicode property of that name. -/

set_option autoImplicit false

namespace HttpWorkflow.Text

def isBlank (c : Char) : Bool :=
  let n := c.toNat
  (9 ≤ n && n ≤ 13) || n = 0x20 || n = 0x85 || n = 0xA0 || n = 0x1680
    || (0x2000 ≤ n && n ≤ 0x200A) || n = 0x2028 || n = 0x2029 || n = 0x202F || n = 0x205F
    || n = 0x3000

/-- Without the white space at either end. -/
def trim (cs : List Char) : List Char :=
  ((cs.dropWhile isBlank).reverse.dropWhile isBlank).reverse

theorem length_trim_le (cs : List Char) : (trim cs).length ≤ cs.length := by
  have drop (l : List Char) : (l.dropWhile isBlank).length ≤ l.length :=
    (List.dropWhile_sublist _).length_le
  have := drop (cs.dropWhile isBlank).reverse
  have := drop cs
  simp only [trim, List.length_reverse] at *
  omega

end HttpWorkflow.Text
