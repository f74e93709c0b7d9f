import HttpWorkflow.Proofs.Scope
import Mathlib

/-! What a scope shows after a response.

Two things are written into the scope: the body under `api`, and the fields of the body at the top.
The fields come second. A body of which one is called `api` hides all collected bodies, itself
included, and any other body leaves them in place.
-/

set_option autoImplicit false

namespace HttpWorkflow.Scope

/-- The value that a body has of its own under a name: a member of an object, or an item of an array
under its index. -/
inductive Own : Json → String → Json → Prop
  | member {members : Members} {name : String} {value : Json}
    (found : members.lookup name = some value) : Own (.object members) name value
  | item {items : List Json} {index : Nat} {value : Json} (found : items[index]? = some value) :
    Own (.array items) (toString index) value

/-- The bodies stay in reach: the new one is under the name of its step, and the others are where
they were. Every other field is the body's own, if it has one of that name, or else unchanged. -/
structure Records (before after : Scope) (step : String) (body : Json) : Prop where
  bodies : ∃ held members, before.get? "api" = some (.object held) ∧
    after.get? "api" = some (.object members) ∧ members.lookup step = some body ∧
    ∀ other, other ≠ step → members.lookup other = held.lookup other
  own : ∀ name, name ≠ "api" → ∀ value, Own body name value → after.get? name = some value
  others : ∀ name, name ≠ "api" → (∀ value, ¬Own body name value) →
    after.get? name = before.get? name

section Lifted

variable {body : Json}

theorem keys_lifted_array (items : List Json) :
    keys (lifted (.array items)) = (List.range' 0 items.length).map toString := by
  rw [lifted, keys, List.map_map, ← List.zipIdx_map_snd 0 items, List.map_map]
  rfl

theorem nodup_keys_lifted (distinct : ∀ members, body = .object members → (keys members).Nodup) :
    (keys (lifted body)).Nodup := by
  cases body with
  | object members => exact distinct members rfl
  | array items =>
    rw [keys_lifted_array]
    exact List.Nodup.map (fun _ _ => Nat.repr_inj.mp) List.nodup_range'
  | _ => exact List.nodup_nil

theorem lookup_lifted_iff {name : String} {value : Json} :
    (lifted body).lookup name = some value ↔ Own body name value := by
  cases body with
  | object members =>
    constructor
    · exact .member
    · rintro ⟨found⟩
      exact found
  | array items =>
    have distinct : (keys (lifted (.array items))).Nodup :=
      nodup_keys_lifted fun _ other => nomatch other
    rw [lookup_eq_some_iff_mem distinct]
    constructor
    · intro listed
      obtain ⟨⟨item, index⟩, indexed, same⟩ := List.mem_map.mp listed
      obtain ⟨rfl, rfl⟩ := Prod.mk.inj same
      exact .item (List.mem_zipIdx_iff_getElem?.mp indexed)
    · rintro (_ | ⟨found⟩)
      exact List.mem_map.mpr ⟨(_, _), List.mem_zipIdx_iff_getElem?.mpr found, rfl⟩
  | _ =>
    constructor
    · intro found
      cases found
    · intro own
      cases own

theorem lookup_lifted_eq_none_iff {name : String} :
    (lifted body).lookup name = none ↔ ∀ value, ¬Own body name value := by
  rw [Option.eq_none_iff_forall_ne_some]
  exact forall_congr' fun value => not_congr lookup_lifted_iff

/-- What a body has of its own hides what was there, and also the collected bodies. -/
theorem get?_withResponse (distinct : ∀ members, body = .object members → (keys members).Nodup)
    {s : Scope} {held : Members} (collected : s.get? "api" = some (.object held))
    (step name : String) :
    (s.withResponse step body).get? name = ((lifted body).lookup name).or
      (if name = "api" then some (.object (insertMember held step body)) else s.get? name) := by
  have recorded := get?_set s "api" name (.object (insertMember held step body))
  unfold withResponse
  -- The body is in place before its fields are, so a field of the same name wins.
  simp only [collected]
  rw [← recorded]
  exact lookup_insertMembers (nodup_keys_lifted distinct) _ name

end Lifted

theorem sizeOf_lt_of_lookup {members : Members} {name : String} {value : Json}
    (found : members.lookup name = some value) : sizeOf value < sizeOf (Json.object members) := by
  obtain ⟨earlier, later, rfl, -⟩ := List.lookup_eq_some_iff.mp found
  have listed := List.sizeOf_lt_of_mem
    (List.mem_append_right earlier (List.mem_cons_self (a := (name, value)) (l := later)))
  simp only [Prod.mk.sizeOf_spec, Json.object.sizeOf_spec] at listed ⊢
  omega

/-- After a response the collected bodies can be looked up exactly when the body has no field `api`
of its own. -/
theorem withResponse_records_iff {body : Json}
    (distinct : ∀ members, body = .object members → (keys members).Nodup) (s : Scope)
    (api : Members) (step : String) :
    Records (s.withBodies api) ((s.withBodies api).withResponse step body) step body ↔
      ∀ value, ¬Own body "api" value := by
  have collected : (s.withBodies api).get? "api" = some (.object api) := by
    rw [withBodies, get?_set, if_pos rfl]
  have shown := get?_withResponse distinct collected step
  constructor
  · intro records value own
    obtain ⟨_, members, _, after, here, _⟩ := records.bodies
    -- The field holds the body, and as a part of the body it is smaller.
    rw [shown, lookup_lifted_iff.mpr own, Option.some_or, Option.some.injEq] at after
    subst after
    have inside := sizeOf_lt_of_lookup here
    generalize named : "api" = name at own
    cases own with
    | member found =>
      have around := sizeOf_lt_of_lookup found
      omega
    | item =>
      have other : 'a' ∈ "api".toList := List.mem_cons_self
      exact ne_toString other rfl _ named
  · intro free
    refine ⟨⟨api, insertMember api step body, collected, ?_, ?_, ?_⟩, ?_, ?_⟩
    · rw [shown, lookup_lifted_eq_none_iff.mpr free, Option.none_or, if_pos rfl]
    · rw [lookup_insertMember, if_pos rfl]
    · intro other apart
      rw [lookup_insertMember, if_neg apart]
    · intro name _ value own
      rw [shown, lookup_lifted_iff.mpr own, Option.some_or]
    · intro name apart absent
      rw [shown, lookup_lifted_eq_none_iff.mpr absent, Option.none_or, if_neg apart]

/-- The scope of a second step, with the body of the first. -/
def afterFirst : Scope :=
  (ofInput [("code", .string "caller")] []).withBodies [("first", .object [("ok", .bool true)])]

/-- A body that replaces a field of the input and the query. -/
def fault : Json := .object [("code", .string "E01"), ("qs", .null)]

theorem fault_recorded :
    (∀ members, fault = .object members → (keys members).Nodup) ∧
      Records afterFirst (afterFirst.withResponse "second" fault) "second" fault := by
  have distinct : ∀ members, fault = .object members → (keys members).Nodup := by
    intro members same
    obtain rfl := Json.object.inj same
    decide
  have free : ∀ value, ¬Own fault "api" value := lookup_lifted_eq_none_iff.mp rfl
  exact ⟨distinct, (withResponse_records_iff distinct _ _ "second").mpr free⟩

/-- A body that says which version of the interface has answered. -/
def versioned : Json := .object [("code", .string "E01"), ("api", .string "v2")]

/-- The version stands where the bodies were, and neither of them is found. -/
theorem version_hides_bodies :
    let after := afterFirst.withResponse "second" versioned
    after.get? "api" = some (.string "v2") ∧ after.lookup "api.second.code" = none ∧
      after.lookup "api.first.ok" = none ∧ ¬Records afterFirst after "second" versioned := by
  have version : (afterFirst.withResponse "second" versioned).get? "api" = some (.string "v2") :=
    rfl
  refine ⟨version, by cbv, by cbv, ?_⟩
  intro records
  obtain ⟨_, _, _, bodies, _⟩ := records.bodies
  rw [version] at bodies
  cases bodies

end HttpWorkflow.Scope
