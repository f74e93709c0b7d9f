import HttpWorkflow.Document.Decode
import HttpWorkflow.Proofs.Json.Collapse

/-! Values in documents.

A proper value repeats no key and has finite numbers only. What a document holds as a value is
proper, and a proper value that is put into a document is read from it unchanged.
-/

set_option autoImplicit false

namespace HttpWorkflow

namespace Json

mutual

/-- A value as maps and numbers are: its objects have distinct keys, and its numbers are finite. -/
def Proper : Json → Prop
  | float x => x.isFinite = true
  | array items => ProperItems items
  | object members => (keys members).Nodup ∧ ProperMembers members
  | _ => True

def ProperItems : List Json → Prop
  | [] => True
  | item :: rest => Proper item ∧ ProperItems rest

def ProperMembers : List (String × Json) → Prop
  | [] => True
  | (_, v) :: rest => Proper v ∧ ProperMembers rest

end

theorem properMembers_iff {members : Members} :
    ProperMembers members ↔ ∀ m ∈ members, m.2.Proper := by
  induction members with
  | nil => simp [ProperMembers]
  | cons first rest ih => simp [ProperMembers, ih]

theorem properMembers_insertMembers {members : Members} (proper : ProperMembers members) :
    ProperMembers (insertMembers [] members) := by
  rw [properMembers_iff] at proper ⊢
  intro m member
  rcases mem_insertMembers member with old | new
  · cases old
  · exact proper m new

end Json

namespace Document.Data

open Json (Proper ProperItems ProperMembers)

theorem ofMembers_eq_map (members : Members) :
    ofMembers members = members.map fun m => (text m.1, ofJson m.2) := by
  induction members with
  | nil => rfl
  | cons m rest ih =>
    obtain ⟨k, v⟩ := m
    rw [ofMembers, ih, List.map_cons]

theorem toMembers?_cons (strict : Bool) (k d : Data) (rest : List (Data × Data)) :
    toMembers? strict ((k, d) :: rest) =
      (if strict then k.strictText? else k.text?).bind fun key =>
        (d.toJson? strict).bind fun v =>
          (toMembers? strict rest).bind fun ms => some ((key, v) :: ms) := by
  rw [toMembers?]
  cases strict <;> rfl

section Written

variable (strict : Bool)

mutual

/-- The value that is put into a document is read from it. -/
theorem toJson?_ofJson : ∀ v : Json, v.Proper → (ofJson v).toJson? strict = some v
  | .null, _ => rfl
  | .bool _, _ => rfl
  | .int _, _ => rfl
  | .float x, finite => by
    have kept : x.isFinite = true := finite
    simp [ofJson, toJson?, scalar?, Scalar.toJson?, kept]
  | .string _, _ => rfl
  | .array items, proper => by
    rw [ofJson, toJson?, toItems?_ofItems items proper]
    rfl
  | .object members, ⟨distinct, proper⟩ => by
    -- The members are put into a map, which only changes them when a key is repeated.
    have kept : insertMembers [] members = members := insertMembers_of_nodup distinct
    rw [ofJson, toJson?, toMembers?_ofMembers members proper, Option.map_some, kept]

theorem toItems?_ofItems : ∀ items : List Json, ProperItems items →
    toItems? strict (ofItems items) = some items
  | [], _ => rfl
  | item :: rest, ⟨proper, others⟩ => by
    rw [ofItems, toItems?, toJson?_ofJson item proper, toItems?_ofItems rest others]
    rfl

theorem toMembers?_ofMembers : ∀ members : Members, ProperMembers members →
    toMembers? strict (ofMembers members) = some members
  | [], _ => rfl
  | (key, v) :: rest, ⟨proper, others⟩ => by
    rw [ofMembers, toMembers?_cons, toJson?_ofJson v proper, toMembers?_ofMembers rest others]
    cases strict <;> rfl

end

end Written

theorem proper_of_scalar (d : Data) {v : Json} (read : d.scalar?.bind Scalar.toJson? = some v) :
    v.Proper := by
  obtain ⟨s, _, value⟩ := Option.bind_eq_some_iff.mp read
  cases s with
  | float x =>
    obtain rfl := Option.some.inj value
    split
    · next finite => exact finite
    · exact True.intro
  | wide => cases value
  | null | flag | int | text =>
    obtain rfl := Option.some.inj value
    exact True.intro

theorem proper_of_list {items : Option (List Json)} {v : Json}
    (proper : ∀ vs, items = some vs → ProperItems vs) (read : items.map Json.array = some v) :
    v.Proper := by
  obtain ⟨vs, values, rfl⟩ := Option.map_eq_some_iff.mp read
  exact proper vs values

theorem proper_of_map {members : Option Members} {v : Json}
    (proper : ∀ ms, members = some ms → ProperMembers ms)
    (read : members.map (fun ms => Json.object (insertMembers [] ms)) = some v) : v.Proper := by
  obtain ⟨ms, values, rfl⟩ := Option.map_eq_some_iff.mp read
  exact ⟨nodup_keys_insertMembers (show (keys []).Nodup from List.nodup_nil) ms,
    Json.properMembers_insertMembers (proper ms values)⟩

section Read

variable (strict : Bool)

mutual

/-- What a document holds as a value is proper. -/
theorem proper_of_toJson? : ∀ (d : Data) (v : Json), d.toJson? strict = some v → v.Proper
  | .list items, _, read => proper_of_list (properItems_of_toItems? items) read
  | .map entries, _, read => proper_of_map (properMembers_of_toMembers? entries) read
  | .tagged tag content, v, read => by
    cases content with
    | list items =>
      rw [toJson?, Option.ite_none_left_eq_some] at read
      exact proper_of_list (properItems_of_toItems? items) read.2
    | map entries =>
      rw [toJson?, Option.ite_none_left_eq_some] at read
      exact proper_of_map (properMembers_of_toMembers? entries) read.2
    | _ =>
      simp only [toJson?] at read
      exact proper_of_scalar _ read
  | .null, _, read | .flag _, _, read | .int _, _, read | .float _, _, read | .text _, _, read
  | .plain _, _, read | .unreadable, _, read => by
    simp only [toJson?] at read
    exact proper_of_scalar _ read

theorem properItems_of_toItems? : ∀ (items : List Data) (vs : List Json),
    toItems? strict items = some vs → ProperItems vs
  | [], _, read => by
    obtain rfl := Option.some.inj read
    exact True.intro
  | item :: rest, _, read => by
    obtain ⟨v, value, others⟩ := Option.bind_eq_some_iff.mp read
    obtain ⟨vs, values, made⟩ := Option.bind_eq_some_iff.mp others
    obtain rfl := Option.some.inj made
    exact ⟨proper_of_toJson? item v value, properItems_of_toItems? rest vs values⟩

theorem properMembers_of_toMembers? : ∀ (entries : List (Data × Data)) (ms : Members),
    toMembers? strict entries = some ms → ProperMembers ms
  | [], _, read => by
    obtain rfl := Option.some.inj read
    exact True.intro
  | (k, d) :: rest, _, read => by
    rw [toMembers?_cons] at read
    obtain ⟨key, _, values⟩ := Option.bind_eq_some_iff.mp read
    obtain ⟨v, value, others⟩ := Option.bind_eq_some_iff.mp values
    obtain ⟨ms, members, made⟩ := Option.bind_eq_some_iff.mp others
    obtain rfl := Option.some.inj made
    exact ⟨proper_of_toJson? d v value, properMembers_of_toMembers? rest ms members⟩

end

end Read

end Document.Data

end HttpWorkflow
