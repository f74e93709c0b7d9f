import HttpWorkflow.Proofs.Template.Continuation

/-! Templates that are arrays or objects.

A template is written as JSON, cut at its braces whatever they stand for, and put together again
with values in it. `renderValue_fills` says when the outcome is JSON text of the template with those
values in their places: arrays and objects in the slots that they fill, other values inside the
texts that mention them.
-/

set_option autoImplicit false

namespace HttpWorkflow

namespace Json

def isScalar : Json → Bool
  | null | bool _ | int _ | float _ => true
  | _ => false

end Json

namespace Template

/-- A text without brackets. -/
def isBare (s : String) : Bool := s.toList.all isNeutral

/-- A value without brackets in its keys and strings. -/
inductive Unbracketed : Json → Prop where
  | scalar {v : Json} (scalar : v.isScalar) : Unbracketed v
  | string {s : String} (bare : isBare s) : Unbracketed (.string s)
  | array {items : List Json} (each : ∀ v ∈ items, Unbracketed v) : Unbracketed (.array items)
  | object {members : Members} (names : ∀ m ∈ members, isBare m.1)
      (each : ∀ m ∈ members, Unbracketed m.2) : Unbracketed (.object members)

/-- A part of a text: as it is, or a placeholder with the value that it stands for. -/
inductive Part where
  | text (s : String)
  | slot (path : String) (value : Json)

namespace Part

def source : Part → String
  | text s => s
  | slot path _ => placeholder path

def filled : Part → String
  | text s => s
  | slot _ value => value.stringify

end Part

/-- A path without braces that JSON writes as it is. -/
def IsPath (path : String) : Prop := ∀ c ∈ path.toList, Json.isPlain c ∧ c ≠ '{' ∧ c ≠ '}'

instance (path : String) : Decidable (IsPath path) :=
  decidable_of_iff (path.toList.all fun c => Json.isPlain c && c ≠ '{' && c ≠ '}')
    (by simp [IsPath, and_assoc])

/-- A value that is put into a text: a scalar, or a string that JSON writes as it is. -/
def Inline (value : Json) : Prop :=
  value.isScalar ∨ ∃ s, value = .string s ∧ ∀ c ∈ s.toList, Payload.isInert c

def Part.Fits (scope : Scope) : Part → Prop
  | .text s => isBare s
  | .slot path value => IsPath path ∧ scope.lookup path = some value ∧ Inline value

/-- A template, and the same with a value for each of its placeholders. -/
inductive Fills (scope : Scope) : Json → Json → Prop where
  | scalar {v : Json} (scalar : v.isScalar) : Fills scope v v
  | string (parts : List Part) (fits : ∀ part ∈ parts, part.Fits scope) :
      Fills scope (.string (.join (parts.map Part.source)))
        (.string (.join (parts.map Part.filled)))
  | whole {path : String} {value : Json} (plain : IsPath path)
      (found : scope.lookup path = some value) (container : value.isContainer)
      (clear : Unbracketed value) : Fills scope (.string (placeholder path)) value
  | array (pairs : List (Json × Json)) (each : ∀ pair ∈ pairs, Fills scope pair.1 pair.2) :
      Fills scope (.array (pairs.map fun pair => pair.1)) (.array (pairs.map fun pair => pair.2))
  | object (triples : List (String × Json × Json))
      (names : ∀ triple ∈ triples, isBare triple.1)
      (each : ∀ triple ∈ triples, Fills scope triple.2.1 triple.2.2) :
      Fills scope (.object (triples.map fun triple => (triple.1, triple.2.1)))
        (.object (triples.map fun triple => (triple.1, triple.2.2)))

section Values

open Json (writeItems writeMembers)

variable {scope : Scope}

theorem isInert_of_isNumeric {c : Char} (numeric : Json.isNumeric c) : Payload.isInert c := by
  have apart {d : Char} (other : Json.isNumeric d = false) : c ≠ d :=
    Json.ne_of_isNumeric numeric other
  have high : 32 ≤ c.toNat := by
    simp only [Json.isNumeric, Bool.or_eq_true, decide_eq_true_eq] at numeric
    rcases numeric with ((((digit | rfl) | rfl) | rfl) | rfl) | rfl
    · have bounds : '0'.toNat ≤ c.toNat ∧ c.toNat ≤ '9'.toNat := by
        simpa [Char.isDigit, UInt32.le_iff_toNat_le] using digit
      exact le_trans (by decide) bounds.1
    all_goals decide
  simp [Payload.isInert, Json.isPlain, isOpening, isClosing, high, @apart '"' rfl, @apart '\\' rfl,
    @apart '[' rfl, @apart '{' rfl, @apart ']' rfl, @apart '}' rfl]

theorem neutral_escape {s : String} (bare : isBare s) :
    ∀ c ∈ s.toList.flatMap Json.escapeChar, isNeutral c :=
  Json.forall_mem_escape (List.all_eq_true.mp rfl) (List.all_eq_true.mp bare)

theorem neutral_quote {s : String} (bare : isBare s) : ∀ c ∈ Json.quote s, isNeutral c := by
  refine List.forall_mem_append.mpr ⟨List.forall_mem_cons.mpr ⟨rfl, neutral_escape bare⟩, ?_⟩
  exact List.forall_mem_singleton.mpr rfl

/-- The text of a scalar is neither changed in a string nor read as anything else. -/
theorem inert_write {v : Json} (scalar : v.isScalar) : ∀ c ∈ v.write, Payload.isInert c := by
  cases v with
  | null => exact List.all_eq_true.mp rfl
  | bool b =>
    cases b with
    | false => exact List.all_eq_true.mp rfl
    | true => exact List.all_eq_true.mp rfl
  | int n => exact fun c member => isInert_of_isNumeric ((Json.numeric_toString n).2 c member)
  | float x =>
    rcases Json.floatText_cases x with null | numeric
    · rw [Json.write, null]
      exact List.all_eq_true.mp rfl
    · exact fun c member => isInert_of_isNumeric (numeric.2 c member)
  | _ => cases scalar

theorem isNeutral_of_isInert {c : Char} (inert : Payload.isInert c) : isNeutral c := by
  obtain ⟨_, notOpening, notClosing⟩ := Payload.isInert_iff.mp inert
  rw [isNeutral, notOpening, notClosing]
  rfl

theorem turns_scalar {v : Json} (scalar : v.isScalar) : Turns scope v.write v.write :=
  turns_neutral fun c member => isNeutral_of_isInert (inert_write scalar c member)

theorem finish_items {pairs : List (Json × Json)}
    (each : ∀ pair ∈ pairs, Turns scope pair.1.write pair.2.write) (rest : List Char) :
    finish scope (writeItems (pairs.map fun pair => pair.1) ++ ']' :: rest) =
      writeItems (pairs.map fun pair => pair.2) ++ finish scope (']' :: rest) := by
  induction pairs with
  | nil => rfl
  | cons pair others ih =>
    obtain ⟨first, each⟩ := List.forall_mem_cons.mp each
    cases others with
    | nil => exact first _ (follows_cons ⟨rfl, rfl⟩ rest)
    | cons second others =>
      have later := ih each
      simp only [List.map_cons] at later
      simp only [List.map_cons, writeItems, List.append_assoc, List.cons_append]
      rw [first _ (follows_cons ⟨rfl, rfl⟩ _), finish_sign rfl rfl, later]

theorem finish_members {triples : List (String × Json × Json)}
    (names : ∀ triple ∈ triples, isBare triple.1)
    (each : ∀ triple ∈ triples, Turns scope triple.2.1.write triple.2.2.write) (rest : List Char) :
    finish scope
        (writeMembers (triples.map fun triple => (triple.1, triple.2.1)) ++ '}' :: rest) =
      writeMembers (triples.map fun triple => (triple.1, triple.2.2)) ++
        finish scope ('}' :: rest) := by
  induction triples with
  | nil => rfl
  | cons triple others ih =>
    obtain ⟨first, each⟩ := List.forall_mem_cons.mp each
    obtain ⟨name, names⟩ := List.forall_mem_cons.mp names
    have named := @turns_neutral scope _ (neutral_quote name)
    cases others with
    | nil =>
      simp only [List.map_cons, List.map_nil, writeMembers, List.append_assoc, List.cons_append]
      rw [named _ (follows_cons ⟨rfl, rfl⟩ _), finish_sign rfl rfl,
        first _ (follows_cons ⟨rfl, rfl⟩ _)]
    | cons second others =>
      have later := ih names each
      simp only [List.map_cons] at later
      simp only [List.map_cons, writeMembers, List.append_assoc, List.cons_append]
      rw [named _ (follows_cons ⟨rfl, rfl⟩ _), finish_sign rfl rfl,
        first _ (follows_cons ⟨rfl, rfl⟩ _), finish_sign rfl rfl, later]

theorem turns_array {pairs : List (Json × Json)}
    (each : ∀ pair ∈ pairs, Turns scope pair.1.write pair.2.write) :
    Turns scope (Json.array (pairs.map fun pair => pair.1)).write
      (Json.array (pairs.map fun pair => pair.2)).write := by
  intro rest follows
  simp only [Json.write, List.cons_append, List.append_assoc, List.nil_append]
  rw [finish_bracket, finish_items each, finish_closing rfl follows]

theorem turns_object (unquoted : Unquoted scope) {triples : List (String × Json × Json)}
    (names : ∀ triple ∈ triples, isBare triple.1)
    (each : ∀ triple ∈ triples, Turns scope triple.2.1.write triple.2.2.write) :
    Turns scope (Json.object (triples.map fun triple => (triple.1, triple.2.1))).write
      (Json.object (triples.map fun triple => (triple.1, triple.2.2))).write := by
  intro rest follows
  simp only [Json.write, List.cons_append, List.append_assoc, List.nil_append]
  have inner := finish_members names each rest
  rw [finish_closing rfl follows] at inner
  rw [← inner]
  -- The brace of the object itself opens a fragment, and its first character makes it no path.
  cases triples with
  | nil => exact finish_brace (by decide) resolve?_brace
  | cons triple others =>
    rw [List.map_cons, Json.writeMembers_cons, List.append_assoc, Json.quote_append]
    exact finish_brace (by decide) unquoted.resolve?_quote

theorem inert_stringify {value : Json} (inline : Inline value) :
    ∀ c ∈ value.stringify.toList, Payload.isInert c := by
  rcases inline with scalar | ⟨s, rfl, inert⟩
  · have noString : ∀ s, value ≠ .string s := by
      rintro s rfl
      cases scalar
    rw [Json.toList_stringify noString]
    exact inert_write scalar
  · exact inert

/-- The text that JSON has for a placeholder. -/
theorem escape_placeholder {path : String} (plain : IsPath path) :
    (placeholder path).toList.flatMap Json.escapeChar = '{' :: (path.toList ++ ['}']) := by
  have opening : Json.escapeChar '{' = ['{'] := rfl
  have closing : Json.escapeChar '}' = ['}'] := rfl
  simp [placeholder, opening, closing, Json.escape_of_plain fun c member => (plain c member).1]

theorem substituteRest_placeholder {path : String} {value : Json} (plain : IsPath path)
    (found : scope.lookup path = some value) (rest : List Char) :
    substituteRest scope ((placeholder path).toList.flatMap Json.escapeChar ++ rest) =
      value.stringify.toList ++ substituteRest scope rest := by
  have free : '{' ∉ path.toList := fun member => (plain _ member).2.1 rfl
  have open_ : '}' ∉ path.toList := fun member => (plain _ member).2.2 rfl
  rw [escape_placeholder plain, List.cons_append, List.append_assoc, List.singleton_append,
    substituteRest_brace, substituteAfter_slot free open_ found]

/-- Placeholders in a text become the values, in the text that JSON has for them. -/
theorem substituteRest_parts {parts : List Part} (fits : ∀ part ∈ parts, part.Fits scope)
    (rest : List Char) :
    substituteRest scope
        ((String.join (parts.map Part.source)).toList.flatMap Json.escapeChar ++ rest) =
      (String.join (parts.map Part.filled)).toList.flatMap Json.escapeChar ++
        substituteRest scope rest := by
  induction parts with
  | nil => rfl
  | cons part others ih =>
    obtain ⟨fit, later⟩ := List.forall_mem_cons.mp fits
    simp only [List.map_cons, String.join_cons, String.toList_append, List.flatMap_append,
      List.append_assoc]
    cases part with
    | text s =>
      rw [Part.source, Part.filled, substituteRest_append (neutral_free (neutral_escape fit)).1,
        ih later]
    | slot path value =>
      obtain ⟨plain, found, inline⟩ := fit
      have shown : value.stringify.toList.flatMap Json.escapeChar = value.stringify.toList :=
        Payload.escape_of_inert (inert_stringify inline)
      rw [Part.source, Part.filled, shown, substituteRest_placeholder plain found, ih later]

theorem isBare_parts {parts : List Part} (fits : ∀ part ∈ parts, part.Fits scope) :
    isBare (.join (parts.map Part.filled)) := by
  rw [isBare, String.toList_join, List.flatMap_map, List.all_eq_true]
  intro c member
  obtain ⟨part, inside, member⟩ := List.mem_flatMap.mp member
  have fit := fits part inside
  cases part with
  | text s => exact List.all_eq_true.mp fit c member
  | slot path value => exact isNeutral_of_isInert (inert_stringify fit.2.2 c member)

theorem turns_string {parts : List Part} (fits : ∀ part ∈ parts, part.Fits scope) :
    Turns scope (Json.string (String.join (parts.map Part.source))).write
      (Json.string (String.join (parts.map Part.filled))).write := by
  intro rest follows
  have filled : substituteRest scope
      ((Json.string (String.join (parts.map Part.source))).write ++ rest) =
      (Json.string (String.join (parts.map Part.filled))).write ++ substituteRest scope rest := by
    rw [Json.write, Json.quote_append, Json.write, Json.quote_append,
      substituteRest_cons (by decide), substituteRest_parts fits, substituteRest_cons (by decide)]
  rw [finish, filled]
  exact unquote_neutral_append (neutral_quote (isBare_parts fits)) follows

/-- A value without brackets in its texts is no template. -/
theorem Unbracketed.turns (unquoted : Unquoted scope) {v : Json} (clear : Unbracketed v) :
    Turns scope v.write v.write := by
  induction clear with
  | scalar scalar => exact turns_scalar scalar
  | string bare => exact turns_neutral (neutral_quote bare)
  | @array items each ih =>
    have same := @turns_array scope (items.map fun v => (v, v)) (List.forall_mem_map.mpr ih)
    simpa [Function.comp_def] using same
  | @object members names each ih =>
    have same := @turns_object scope unquoted (members.map fun m => (m.1, m.2, m.2))
      (List.forall_mem_map.mpr names) (List.forall_mem_map.mpr ih)
    simpa [Function.comp_def] using same

theorem write_of_isContainer {v : Json} (container : v.isContainer) :
    ∃ opening inner closing, v.write = opening :: (inner ++ [closing]) ∧
      isOpening opening ∧ isClosing closing := by
  cases v with
  | array items => exact ⟨'[', _, ']', rfl, rfl, rfl⟩
  | object members => exact ⟨'{', _, '}', rfl, rfl, rfl⟩
  | _ => cases container

/-- In the JSON text of a value without brackets in its texts, no quote touches a bracket. -/
theorem Unbracketed.apart {v : Json} (clear : Unbracketed v) : Apart v.write := by
  -- Where nothing is known, all that rendering can do is to drop quotes, and it drops none.
  have turned := clear.turns unquoted_empty [] follows_nil
  rw [List.append_nil, finish, substituteRest_empty] at turned
  refine apart_of_length ?_
  rw [turned]
  simp

/-- The quotes of a slot that an array or object fills are dropped, and no others. -/
theorem unquote_quoted {v : Json} (container : v.isContainer) (clear : Unbracketed v)
    (rest : List Char) :
    unquote ('"' :: (v.write ++ '"' :: rest)) = v.write ++ unquote rest := by
  obtain ⟨opening, inner, closing, text, opens, closes⟩ := write_of_isContainer container
  have apart := clear.apart
  rw [text] at apart ⊢
  -- The opening bracket takes the quote in front of it, the closing one the quote behind it.
  have inside : unquote inner = inner :=
    unquote_of_apart (List.isChain_append.mp (List.isChain_cons.mp apart).2).1
  have boundary : ∀ a ∈ inner.getLast?, ∀ b ∈ (closing :: '"' :: rest).head?,
      touches a b = false := by
    intro a _ b head
    obtain rfl := Option.some.inj head
    simp [touches, not_isOpening_of_isClosing closes, not_isQuoteMark_of_isClosing closes]
  rw [List.cons_append, unquote_before rfl opens, List.append_assoc, List.singleton_append,
    unquote_append boundary, inside, unquote_after closes rfl]
  simp

theorem turns_whole {path : String} {value : Json} (plain : IsPath path)
    (found : scope.lookup path = some value) (container : value.isContainer)
    (clear : Unbracketed value) :
    Turns scope (Json.string (placeholder path)).write value.write := by
  intro rest follows
  rw [finish, Json.write, Json.quote_append, substituteRest_cons (by decide),
    substituteRest_placeholder plain found, Json.toList_stringify_of_isContainer container,
    substituteRest_cons (by decide), unquote_quoted container clear]
  rfl

end Values

section Opening

open Json (writeItems)

variable {scope : Scope}

/-- A value whose text leaves it open whether the first brace is an opening one. -/
def KeepsOpen (v : Json) : Prop := ∀ rest, Opens rest → Opens (v.write ++ rest)

theorem Opens.neutral {cs rest : List Char} (opens : Opens rest) (neutral : ∀ c ∈ cs, isNeutral c) :
    Opens (cs ++ rest) :=
  opens.append (neutral_free neutral).1 (neutral_free neutral).2

theorem opens_parts {parts : List Part} (fits : ∀ part ∈ parts, part.Fits scope)
    {rest : List Char} (opens : Opens rest) :
    Opens ((String.join (parts.map Part.source)).toList.flatMap Json.escapeChar ++ rest) := by
  induction parts with
  | nil => exact opens
  | cons part others ih =>
    obtain ⟨fit, later⟩ := List.forall_mem_cons.mp fits
    rw [List.map_cons, String.join_cons, String.toList_append, List.flatMap_append,
      List.append_assoc]
    cases part with
    | text s => exact (ih later).neutral (neutral_escape fit)
    | slot path value =>
      rw [Part.source, escape_placeholder fit.1]
      exact opens_brace _

theorem opens_items {items : List Json} (each : ∀ v ∈ items, KeepsOpen v) {rest : List Char}
    (opens : Opens rest) : Opens (writeItems items ++ rest) := by
  induction items with
  | nil => exact opens
  | cons first others ih =>
    obtain ⟨head, later⟩ := List.forall_mem_cons.mp each
    cases others with
    | nil => exact head rest opens
    | cons second others =>
      have behind : Opens (',' :: (writeItems (second :: others) ++ rest)) :=
        (ih later).cons (by decide) (by decide)
      rw [Json.writeItems_cons, List.append_assoc]
      exact head _ behind

theorem Fills.keepsOpen {template value : Json} (fills : Fills scope template value) :
    KeepsOpen template := by
  induction fills with
  | scalar scalar =>
    intro rest opens
    exact opens.neutral fun c member => isNeutral_of_isInert (inert_write scalar c member)
  | string parts fits =>
    intro rest opens
    rw [Json.write, Json.quote_append]
    have quoted : Opens ('"' :: rest) := opens.cons (by decide) (by decide)
    exact (opens_parts fits quoted).cons (by decide) (by decide)
  | whole plain found container clear =>
    intro rest opens
    rw [Json.write, Json.quote_append, escape_placeholder plain]
    exact (opens_brace _).cons (by decide) (by decide)
  | array pairs each ih =>
    intro rest opens
    have closed : Opens (']' :: rest) := opens.cons (by decide) (by decide)
    have inner := opens_items (List.forall_mem_map.mpr ih) closed
    rw [Json.write, List.append_assoc, List.singleton_append, List.cons_append]
    exact inner.cons (by decide) (by decide)
  | object triples names each ih =>
    intro rest opens
    rw [Json.write, List.cons_append]
    exact opens_brace _

end Opening

theorem Fills.turns {scope : Scope} {template value : Json} (unquoted : Unquoted scope)
    (fills : Fills scope template value) : Turns scope template.write value.write := by
  induction fills with
  | scalar scalar => exact turns_scalar scalar
  | string parts fits => exact turns_string fits
  | whole plain found container clear => exact turns_whole plain found container clear
  | array pairs each ih => exact turns_array ih
  | object triples names each ih => exact turns_object unquoted names ih

/-- An array or object renders as JSON of itself with its placeholders filled. -/
theorem renderValue_fills {scope : Scope} {template value : Json} (unquoted : Unquoted scope)
    (fills : Fills scope template value) (container : template.isContainer) :
    renderValue template scope = value.compress := by
  have opens := fills.keepsOpen [] opens_nil
  have turned := fills.turns unquoted [] follows_nil
  rw [List.append_nil] at opens turned
  rw [renderValue_of_isContainer container, opens.substitute_eq, Json.compress]
  exact congrArg String.ofList (turned.trans (List.append_nil _))

section Order

def order : Json :=
  .object [("buyer", .string "\x7buser\x7d"),
    ("note", .string "id \x7buser.id\x7d of \"\x7buser['name']\x7d\""),
    ("tags", .array [.string "\x7btags\x7d", .int 2, .object []])]

def user : Json := .object [("id", .int 7), ("name", .string "Ada")]

def tags : Json := .array [.string "\"new\"", .null]

def orderScope : Scope := ⟨[("user", user), ("tags", tags)]⟩

def placedOrder : Json :=
  .object [("buyer", user), ("note", .string "id 7 of \"Ada\""),
    ("tags", .array [tags, .int 2, .object []])]

def noteParts : List Part :=
  [.text "id ", .slot "user.id" (.int 7), .text " of \"", .slot "user['name']" (.string "Ada"),
    .text "\""]

theorem unbracketed_user : Unbracketed user := by
  refine .object (by decide) (List.forall_mem_cons.mpr ⟨.scalar rfl,
    List.forall_mem_singleton.mpr (.string rfl)⟩)

theorem unbracketed_tags : Unbracketed tags :=
  .array (List.forall_mem_cons.mpr ⟨.string rfl, List.forall_mem_singleton.mpr (.scalar rfl)⟩)

theorem noteParts_fit : ∀ part ∈ noteParts, part.Fits orderScope := by
  have id : Part.Fits orderScope (.slot "user.id" (.int 7)) := ⟨by decide, by cbv, .inl rfl⟩
  have name : Part.Fits orderScope (.slot "user['name']" (.string "Ada")) :=
    ⟨by decide, by cbv, .inr ⟨"Ada", rfl, List.all_eq_true.mp rfl⟩⟩
  simp only [noteParts, List.forall_mem_cons, List.not_mem_nil, false_implies, implies_true,
    and_true]
  exact ⟨rfl, id, rfl, name, rfl⟩

theorem order_fills : Fills orderScope order placedOrder := by
  have buyer : Fills orderScope (.string (placeholder "user")) user :=
    .whole (by decide) (by cbv) rfl unbracketed_user
  have note := Fills.string noteParts noteParts_fit
  have whole : Fills orderScope (.string (placeholder "tags")) tags :=
    .whole (by decide) (by cbv) rfl unbracketed_tags
  have listed := @Fills.array orderScope
    [(.string (placeholder "tags"), tags), (.int 2, .int 2), (.object [], .object [])]
    (by simpa using ⟨whole, .scalar rfl, .object [] (by simp) (by simp)⟩)
  have filled := Fills.object [("buyer", _, _), ("note", _, _), ("tags", _, _)] (by decide)
    (List.forall_mem_cons.mpr ⟨buyer,
      List.forall_mem_cons.mpr ⟨note, List.forall_mem_singleton.mpr listed⟩⟩)
  exact filled

theorem order_placed :
    Unquoted orderScope ∧ Fills orderScope order placedOrder ∧ order.isContainer ∧
      renderValue order orderScope = placedOrder.compress := by
  have unquoted : Unquoted orderScope := by decide
  exact ⟨unquoted, order_fills, rfl, renderValue_fills unquoted order_fills rfl⟩

end Order

end Template

end HttpWorkflow
