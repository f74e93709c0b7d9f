import HttpWorkflow.Proofs.Expression.Braces
import HttpWorkflow.Proofs.Payload.Rendering
import HttpWorkflow.Run

/-! Which payloads arrive as they were meant.

A payload of placeholders is rendered, read as JSON, and written again. `toRequest_carries_iff` says
when the body of the request holds the values that the placeholders lead to.
-/

set_option autoImplicit false

namespace HttpWorkflow

namespace Expression

theorem integral_eq_string {v : Json} {s : String} : integral v = .string s ↔ v = .string s := by
  cases v with
  | float x =>
    simp only [integral, integralFloat]
    split <;> simp
  | _ => simp [integral]

theorem integralMembers_eq_map (members : Members) :
    integralMembers members = members.map fun m => (m.1, integral m.2) := by
  induction members with
  | nil => rfl
  | cons m rest ih => rw [integralMembers, ih, List.map_cons]

@[simp] theorem keys_integralMembers (members : Members) :
    keys (integralMembers members) = keys members := by
  simp [integralMembers_eq_map, keys, Function.comp_def]

/-- A value becomes an object of strings only from that object. -/
theorem eq_of_integralMembers {members : Members}
    (strings : Json.AllStrings (integralMembers members)) : integralMembers members = members := by
  rw [integralMembers_eq_map] at strings ⊢
  exact Json.map_eq_strings (fun _ _ => integral_eq_string.mp) strings

theorem integralMembers_of_strings {members : Members} (strings : Json.AllStrings members) :
    integralMembers members = members := by
  rw [integralMembers_eq_map, Json.map_of_strings (fun _ => rfl) strings]

end Expression

namespace Payload

variable {scope : Scope} {slots : List Slot}

theorem allStrings_members (slots : List Slot) : Json.AllStrings (members slots) :=
  List.forall_mem_map.mpr fun t _ => ⟨t.value, rfl⟩

theorem keys_members (slots : List Slot) : keys (members slots) = slots.map Slot.name := by
  simp [keys, members]

/-- The text that is evaluated. -/
def text (slots : List Slot) : String := String.ofList (Template.unquote (rendered slots))

theorem renderValue_template (fits : Fits scope slots) :
    Template.renderValue (template slots) scope = text slots := by
  have present : (template slots).isFalsy = false := rfl
  have compact : (template slots).stringify.toList = (template slots).write := String.toList_ofList
  rw [Template.renderValue, present, Template.render, compact, substitute_template fits]
  rfl

theorem text_brace (slots : List Slot) : ∃ cs, (text slots).toList = '\x7b' :: cs := by
  have kept (b : Char) (rest : List Char) :
      Template.unquote ('\x7b' :: b :: rest) = '\x7b' :: Template.unquote (b :: rest) := by
    simp [Template.unquote, Template.isQuoteMark, Template.isClosing]
  rw [text, String.toList_ofList]
  cases slots with
  | nil => exact ⟨_, kept _ _⟩
  | cons t rest => exact ⟨_, kept _ _⟩

/-- The text is no longer than a payload of its values has to be. So when it is read as that
payload, nothing in it was dropped or escaped. -/
theorem spliceable_of_tree {v : Json} (names : ∀ t ∈ slots, ∀ c ∈ t.name.toList, isInert c)
    (read : Json.tree? (text slots) = some v)
    (same : v.collapse = .object (members slots)) : ∀ t ∈ slots, Spliceable t.value := by
  obtain ⟨cs, head⟩ := text_brace slots
  obtain ⟨⟨w, rest⟩, inside, read⟩ := Option.bind_eq_some_iff.mp read
  obtain ⟨_, _, read⟩ := Option.bind_eq_some_iff.mp read
  obtain rfl := Option.some.inj read
  rw [head] at inside
  obtain ⟨ms, rfl, ⟨_, rfl⟩ | ⟨_, inside⟩⟩ := Json.readValue_braces inside
  · have empty : members slots = [] := (Json.object.inj same).symm
    rw [List.map_eq_nil_iff.mp empty]
    simp
  · have kept : insertMembers [] (Json.collapseMembers ms) = members slots := Json.object.inj same
    have lighter : Json.membersWeight (members slots) ≤ Json.membersWeight ms := by
      have := Json.membersWeight_insertMembers [] (Json.collapseMembers ms)
      rw [kept, Json.membersWeight_collapseMembers] at this
      simpa using this
    have consumed := Json.length_readMembers inside
    have skipped := Json.length_skipBlanks_le cs
    have size : (Template.unquote (rendered slots)).length = cs.length + 1 := by
      rw [← String.toList_ofList (l := Template.unquote (rendered slots)), ← List.length_cons,
        ← head]
      rfl
    -- Dropped quotes would make the text too short, and escapes would make it too long.
    intro t member
    have filled : slots ≠ [] := List.ne_nil_of_mem member
    have whole := length_rendered filled
    have shorter := Template.length_unquote_le (rendered slots)
    have apart := (apart_rendered names).mp (Template.apart_of_length (by omega)) t member
    have read : (t.name, .string t.value) ∈ Json.collapseMembers ms := by
      have member : (t.name, .string t.value) ∈ members slots := List.mem_map_of_mem member
      rw [← kept] at member
      exact (mem_insertMembers member).resolve_left List.not_mem_nil
    rw [Json.collapseMembers_eq_map] at read
    obtain ⟨m, member, same⟩ := List.mem_map.mp read
    have value : m.2 = .string t.value := Json.collapse_eq_string.mp (Prod.mk.inj same).2
    exact ⟨Json.isPlain_of_readMembers inside (by omega) m member t.value value, apart⟩

theorem text_of_spliceable (names : ∀ t ∈ slots, ∀ c ∈ t.name.toList, isInert c)
    (spliceable : ∀ t ∈ slots, Spliceable t.value) :
    text slots = (Json.object (members slots)).compress := by
  have apart := (apart_rendered names).mpr fun t member => (spliceable t member).2
  have plain : ∀ t ∈ slots, ∀ c ∈ t.name.toList, Json.isPlain c :=
    fun t member c inside => (isInert_iff.mp (names t member c inside)).1
  rw [text, Template.unquote_of_apart apart, Json.compress,
    write_members plain fun t member => (spliceable t member).1]

theorem parse?_text {slots : List Slot} {v : Json} (parsed : Json.parse? (text slots) = some v) :
    ∃ ms, v = .object ms ∧ (keys ms).Nodup := by
  obtain ⟨w, read, rfl⟩ := Option.map_eq_some_iff.mp parsed
  obtain ⟨cs, head⟩ := text_brace slots
  obtain ⟨⟨u, rest⟩, inside, read⟩ := Option.bind_eq_some_iff.mp read
  obtain ⟨_, _, read⟩ := Option.bind_eq_some_iff.mp read
  obtain rfl := Option.some.inj read
  rw [head] at inside
  obtain ⟨ms, rfl, _⟩ := Json.readValue_braces inside
  have none : (keys ([] : Members)).Nodup := List.nodup_nil
  exact ⟨_, rfl, nodup_keys_insertMembers none _⟩

variable {s : Step} {evaluator : Evaluator}

theorem slot_template (fits : Fits scope slots) (request : s.request = some (template slots)) :
    Step.slot s.request scope evaluator =
      match Json.parse? (text slots) with
      | some literal => Expression.integral literal
      | none => .string (text slots) := by
  obtain ⟨cs, head⟩ := text_brace slots
  have present : (template slots).isFalsy = false := rfl
  rw [request, Step.slot, Evaluator.execute, present, renderValue_template fits]
  exact Expression.evaluate_brace head ..

theorem slot_template_present (fits : Fits scope slots)
    (request : s.request = some (template slots)) :
    (Step.slot s.request scope evaluator).isFalsy = false := by
  rw [slot_template fits request]
  cases parsed : Json.parse? (text slots) with
  | some v =>
    obtain ⟨ms, rfl, _⟩ := parse?_text parsed
    rfl
  | none =>
    obtain ⟨cs, head⟩ := text_brace slots
    have filled : text slots ≠ "" := by
      intro empty
      simp [empty] at head
    simp [Json.isFalsy, filled]

end Payload

theorem Request.build_body {method : Method} {url headers payload : Json} {options : Members}
    {request : Request} (carries : method.carriesBody = true) (present : payload.isFalsy = false)
    (made : Request.build method url headers payload options = .ok request) :
    request.body = some payload.stringify := by
  unfold Request.build at made
  cases parsed : headersOf headers with
  | error e =>
    rw [parsed] at made
    cases made
  | ok headers =>
    simp only [parsed, present, carries] at made
    cases made
    rfl

namespace Payload

/-- The body of a request is the payload that its template means exactly when each of the values
can be put between quotes as it is. -/
theorem toRequest_carries_iff {scope : Scope} {slots : List Slot} (fits : Fits scope slots)
    {s : Step} (template : s.request = some (template slots)) {method : Method}
    (carries : method.carriesBody = true) {evaluator : Evaluator} {request : Request}
    (made : s.toRequest method scope evaluator = .ok request) :
    (∃ body, request.body = some body ∧
        Json.parse? body = some (.object (slots.map fun t => (t.name, .string t.value)))) ↔
      ∀ t ∈ slots, Spliceable t.value := by
  have body := Request.build_body carries (slot_template_present fits template) made
  have distinct : (keys (members slots)).Nodup := keys_members slots ▸ fits.distinct
  have strings := allStrings_members slots
  rw [slot_template fits template] at body
  constructor
  · rintro ⟨sent, same, parsed⟩
    obtain rfl := Option.some.inj (same.symm.trans body)
    cases read : Json.parse? (text slots) with
    | none =>
      simp only [read, Json.stringify] at parsed
      cases parsed
    | some v =>
      obtain ⟨ms, rfl, once⟩ := parse?_text read
      obtain ⟨w, tree, collapsed⟩ := Option.map_eq_some_iff.mp read
      simp only [read, Expression.integral, Json.stringify] at parsed
      have meant := Json.eq_of_parse?_compress (by simpa using once) strings parsed
      have same : ms = members slots :=
        (Expression.eq_of_integralMembers (meant ▸ strings)).symm.trans meant
      exact spliceable_of_tree fits.names tree (collapsed.trans (congrArg Json.object same))
  · intro spliceable
    have read := Json.parse?_compress_strings strings distinct
    refine ⟨_, body, ?_⟩
    rw [text_of_spliceable fits.names spliceable, read]
    simp only [Expression.integral, Expression.integralMembers_of_strings strings, Json.stringify]
    exact read

section Login

def login (user : String) : List Slot := [⟨"user", "user", user⟩]

def loginScope (user : String) : Scope := ⟨[("user", .string user)]⟩

def loginStep (user : String) : Step :=
  { url := "", method := "POST", request := some (template (login user)) }

def loginRequest (body : String) : Request := ⟨.post, "", [], some body, []⟩

theorem login_fits (user : String) : Fits (loginScope user) (login user) :=
  have inert : ∀ c ∈ "user".toList, isInert c := List.all_eq_true.mp rfl
  { names := List.forall_mem_singleton.mpr inert
    paths := List.forall_mem_singleton.mpr inert
    distinct := List.pairwise_singleton _ "user"
    found := List.forall_mem_singleton.mpr (by cbv) }

theorem login_ada :
    (loginStep "ada").toRequest .post (loginScope "ada") (.bare 0) =
      .ok (loginRequest "\x7b\"user\":\"ada\"\x7d") := by
  cbv

theorem login_ada_carries :
    ∃ body, (loginRequest "\x7b\"user\":\"ada\"\x7d").body = some body ∧
      Json.parse? body = some (.object [("user", .string "ada")]) :=
  (toRequest_carries_iff (login_fits "ada") rfl rfl login_ada).mpr
    (List.forall_mem_singleton.mpr (by decide))

/-- A quote in a name ends the text that it is put into, and the body is no JSON. -/
theorem login_quote_loses :
    Fits (loginScope "a\"b") (login "a\"b") ∧
      ∃ request, (loginStep "a\"b").toRequest .post (loginScope "a\"b") (.bare 0) = .ok request ∧
        ¬∃ body, request.body = some body ∧
          Json.parse? body = some (.object [("user", .string "a\"b")]) := by
  have broken : Json.parse? "\x7b\"user\":\"a\"b\"\x7d" = none := by cbv
  refine ⟨login_fits _, loginRequest "\x7b\"user\":\"a\"b\"\x7d", by cbv, ?_⟩
  rintro ⟨body, sent, parsed⟩
  obtain rfl := Option.some.inj sent
  cases broken.symm.trans parsed

end Login

end Payload

end HttpWorkflow
