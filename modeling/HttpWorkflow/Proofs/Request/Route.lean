import HttpWorkflow.Proofs.Expression.Braces
import HttpWorkflow.Proofs.Expression.Verbatim
import HttpWorkflow.Proofs.Request.Encoding
import HttpWorkflow.Proofs.Template.Continuation
import HttpWorkflow.Run

/-! URLs that are sent as they are written.

A slash begins neither JSON nor an expression. So a URL of a slash and small letters is the same
after rendering, evaluation and encoding.
-/

set_option autoImplicit false

namespace HttpWorkflow

/-- A slash and then small letters, one at least. -/
def isRoute (text : String) : Bool :=
  match text.toList with
  | '/' :: name => !name.isEmpty && name.all Char.isLower
  | _ => false

theorem isRoute_iff {text : String} :
    isRoute text = true ↔
      ∃ c cs, text.toList = '/' :: c :: cs ∧ ∀ d ∈ c :: cs, d.isLower = true := by
  unfold isRoute
  split
  · next name written =>
    cases name with
    | nil => simp [written]
    | cons c cs => simp [written]
  · next other =>
    constructor
    · intro absurd
      cases absurd
    · rintro ⟨c, cs, written, _⟩
      exact absurd written (other _)

theorem ne_of_isLower {c d : Char} (letter : c.isLower = true) (other : d.isLower = false) :
    c ≠ d := by
  rintro rfl
  rw [letter] at other
  cases other

namespace Script

section Slash

variable {c : Char} {cs : List Char}

theorem sign?_slash (letter : c.isLower = true) :
    Token.sign? ('/' :: c :: cs) = some (.symbol "/", c :: cs) := by
  have other : '=' ≠ c := (ne_of_isLower letter (by decide)).symm
  simp [Token.sign?, Token.signs, Token.reservedSigns, List.isPrefixOf, other]
  rfl

theorem tokens?_slash {fuel : Nat} {rest : List Char} {ts : List Token} (letter : c.isLower = true)
    (scanned : Token.tokens? fuel none false ('/' :: c :: cs) = some (ts, rest)) :
    ∃ more, ts = .symbol "/" :: more := by
  have line : c ≠ '/' := ne_of_isLower letter (by decide)
  have block : c ≠ '*' := ne_of_isLower letter (by decide)
  cases fuel with
  | zero => simp [Token.tokens?] at scanned
  | succ fuel =>
    -- No comment begins here, so the slash is a sign of its own.
    simp [Token.tokens?, Token.isSpace, Token.isNameStart, Token.notIn?, sign?_slash letter, line,
      block] at scanned
    obtain ⟨⟨later, _⟩, _, scanned⟩ := Option.bind_eq_some_iff.mp scanned
    simp only [Option.some.injEq, Prod.mk.injEq] at scanned
    exact ⟨later, scanned.1.symm⟩

theorem primary_slash {fuel : Nat} {place : Parser.Place} {s : Parser.State} {rest : List Token}
    (head : s.tokens = .symbol "/" :: rest) : (Parser.primary fuel place).run s = none := by
  cases fuel with
  | zero => rfl
  | succ fuel => simp [Parser.primary, StateT.run_bind, head]

theorem compileExpression?_slash {text : String} (letter : c.isLower = true)
    (written : text.toList = '/' :: c :: cs) : Program.compileExpression? text = none := by
  unfold Program.compileExpression?
  cases scanned : Token.scan? text with
  | none => rfl
  | some ts =>
    obtain ⟨⟨_, rest⟩, read, rfl⟩ := Option.map_eq_some_iff.mp scanned
    rw [written] at read
    obtain ⟨more, rfl⟩ := tokens?_slash letter read
    -- The first sign is enough: what comes after it is never looked at.
    have fails : (Parser.expression (Parser.fuelFor text)
        ⟨0, Parser.expressionLimit, true, false⟩).run
          (Parser.start text (.symbol "/" :: more) "e") = none :=
      Parser.expression_of_primary rfl rfl (by simp) fun _ _ _ => primary_slash rfl
    simp only [Option.bind_eq_bind, Option.bind_some, fails, Option.bind_none]

end Slash

end Script

namespace Expression

theorem normalize_letters {cs : List Char} (letters : ∀ c ∈ cs, c.isLower = true) :
    normalize .code cs = cs := by
  induction cs with
  | nil => rfl
  | cons c rest ih =>
    obtain ⟨letter, letters⟩ := List.forall_mem_cons.mp letters
    have ordinary : c ∉ ['\'', '"', '`', '=', '!'] := by
      intro sign
      simp only [List.mem_cons, List.not_mem_nil, or_false] at sign
      rcases sign with rfl | rfl | rfl | rfl | rfl <;> cases letter
    rw [normalize_char ordinary, ih letters]

theorem toScript_route {c : Char} {cs : List Char} (letters : ∀ d ∈ c :: cs, d.isLower = true) :
    toScript (String.ofList ('/' :: c :: cs)) = String.ofList ('/' :: c :: cs) := by
  have plain : Unconditional ('/' :: c :: cs) := by
    intro before after split _
    have listed : '?' ∈ '/' :: c :: cs := by
      rw [split]
      simp
    rcases List.mem_cons.mp listed with sign | letter
    · cases sign
    · have mark := letters _ letter
      cases mark
  have slash : '/' ∉ ['\'', '"', '`', '=', '!'] := by decide
  rw [toScript, String.toList_ofList, normalize_char slash, normalize_letters letters,
    expand_of_unconditional _ plain]

end Expression

theorem parse?_slash (cs : List Char) : Json.parse? (String.ofList ('/' :: cs)) = none := by
  have read (fuel depth : Nat) : Json.readValue (fuel + 1) depth ('/' :: cs) = none := by
    simp [Json.readValue, Json.skipBlanks, Json.isBlank, Json.readNumber, Json.readSign]
  simp [Json.parse?, Json.tree?, read]

section Route

variable {text : String} (route : isRoute text = true)
include route

theorem isFalsy_route : Json.isFalsy (.string text) = false := by
  obtain ⟨c, cs, written, _⟩ := isRoute_iff.mp route
  have filled : text ≠ "" := by
    rintro rfl
    cases written
  exact Bool.eq_false_iff.mpr fun empty => filled (String.isEmpty_iff.mp empty)

theorem neutral_route : ∀ d ∈ text.toList, Template.isNeutral d = true := by
  obtain ⟨c, cs, written, letters⟩ := isRoute_iff.mp route
  rw [written]
  refine List.forall_mem_cons.mpr ⟨by decide, fun d listed => ?_⟩
  have brackets : d ≠ '[' ∧ d ≠ '{' ∧ d ≠ ']' ∧ d ≠ '}' := by
    refine ⟨?_, ?_, ?_, ?_⟩ <;> exact ne_of_isLower (letters d listed) (by decide)
  simp [Template.isNeutral, Template.isOpening, Template.isClosing, brackets]

theorem renderValue_route (scope : Scope) : Template.renderValue (.string text) scope = text := by
  have neutral := neutral_route route
  obtain ⟨unopened, unclosed⟩ := Template.neutral_free neutral
  have whole : Template.fragments text.toList = [text.toList] :=
    Template.fragments_of_free fun c listed same => unopened (same ▸ listed)
  have kept : Template.resolve? scope text.toList = none :=
    Template.resolve?_of_open fun c listed same => unclosed (same ▸ listed)
  have same : Template.substitute scope text.toList = text.toList := by
    simp only [Template.substitute, whole, kept, Option.getD_none, List.flatMap_nil,
      List.append_nil]
  rw [Template.renderValue, isFalsy_route route, if_neg Bool.false_ne_true, Json.stringify,
    Template.render, same, Template.unquote_of_neutral neutral, String.ofList_toList]

theorem evaluate_route (e : Evaluator) : e.evaluate text = .string text := by
  obtain ⟨c, cs, written, letters⟩ := isRoute_iff.mp route
  obtain rfl : text = String.ofList ('/' :: c :: cs) := by rw [← written, String.ofList_toList]
  have noValue : Expression.value? e.library e.constants e.maxOperations
      (String.ofList ('/' :: c :: cs)) = none := by
    rw [Expression.value?, Expression.toScript_route letters,
      Script.compileExpression?_slash (letters c (by simp)) written]
    rfl
  simp only [Evaluator.evaluate, Expression.evaluate, parse?_slash, noValue]

theorem execute_route (e : Evaluator) (scope : Scope) :
    e.execute (.string text) scope = .string text := by
  rw [Evaluator.execute, isFalsy_route route, if_neg Bool.false_ne_true,
    renderValue_route route, evaluate_route route]

theorem encodeUri_route : Request.encodeUri text = text := by
  obtain ⟨c, cs, written, letters⟩ := isRoute_iff.mp route
  have kept (ds : List Char) (letters : ∀ d ∈ ds, d.isLower = true) :
      Percent.encodeUri ds = ds := by
    induction ds with
    | nil => rfl
    | cons d ds ih =>
      obtain ⟨letter, letters⟩ := List.forall_mem_cons.mp letters
      have allowed : Percent.isUriChar d = true := by
        simp [Percent.isUriChar, Char.isAlphanum, Char.isAlpha, letter]
      rw [Percent.encodeUri_of_kept (Percent.isKept_iff.mpr (.inl allowed)), ih letters]
  rw [Request.encodeUri, written, Percent.encodeUri_of_kept (by rfl), kept _ letters, ← written,
    String.ofList_toList]

end Route

/-- A step that has a route and nothing else asks for this route. -/
theorem Step.toRequest_route {s : Step} (route : isRoute s.url = true) (headers : s.headers = none)
    (request : s.request = none) (method : Method) (scope : Scope) (e : Evaluator) :
    s.toRequest method scope e = .ok ⟨method, s.url, [], none, s.options⟩ := by
  have shown : Request.urlText (.string s.url) = s.url := by
    rw [Request.urlText, isFalsy_route route]
    rfl
  have unsaid : Request.headersOf .null = .ok [] := rfl
  rw [toRequest, execute_route route, headers, request]
  simp only [slot, Request.build, unsaid, shown, encodeUri_route route]
  rfl

end HttpWorkflow
