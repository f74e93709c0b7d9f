import HttpWorkflow.Step.Map

/-! Members looked up by their keys.

A member that is put in is found under its key and hides no other. Of a list with distinct keys,
each member is found, and the order of the list does not matter.
-/

set_option autoImplicit false

namespace HttpWorkflow

variable {α : Type}

/-- A name with another character than digits is no decimal number. -/
theorem ne_toString {name : String} {c : Char} (listed : c ∈ name.toList)
    (other : c.isDigit = false) (n : Nat) : name ≠ toString n := by
  rintro rfl
  have digits : (toString n).toList = Nat.toDigits 10 n := Nat.toList_repr
  rw [digits] at listed
  rw [Nat.isDigit_of_mem_toDigits (by decide) (by decide) listed] at other
  cases other

theorem nodup_keys_cons {first : String × α} {rest : List (String × α)} :
    (keys (first :: rest)).Nodup ↔ first.1 ∉ keys rest ∧ (keys rest).Nodup :=
  List.nodup_cons

theorem lookup_cons (key name : String) (value : α) (rest : List (String × α)) :
    ((key, value) :: rest).lookup name = if name = key then some value else rest.lookup name := by
  rw [List.lookup_cons]
  by_cases same : name = key
  · rw [if_pos same, beq_iff_eq.mpr same]
  · rw [if_neg same, beq_false_of_ne same]

theorem keys_map_values {β : Type} (change : String → α → β) (members : List (String × α)) :
    keys (members.map fun m => (m.1, change m.1 m.2)) = keys members := by
  simp only [keys, List.map_map, Function.comp_def]

theorem lookup_map_values {β : Type} (change : α → β) (members : List (String × α))
    (name : String) :
    (members.map fun m => (m.1, change m.2)).lookup name = (members.lookup name).map change := by
  induction members with
  | nil => rfl
  | cons first rest ih =>
    rw [List.map_cons, lookup_cons, lookup_cons, ih, apply_ite (Option.map change), Option.map_some]

theorem lookup_insertMember (members : List (String × α)) (key name : String) (value : α) :
    (insertMember members key value).lookup name =
      if name = key then some value else members.lookup name := by
  induction members with
  | nil => exact lookup_cons key name value []
  | cons first rest ih =>
    obtain ⟨k, v⟩ := first
    by_cases put : k = key
    · subst put
      by_cases same : name = k <;> simp [insertMember, lookup_cons, same]
    · by_cases same : name = k
      · subst same
        simp [insertMember, put]
      · simp only [insertMember, if_neg put, lookup_cons, if_neg same, ih]

theorem lookup_insertMembers_congr {left right : List (String × α)}
    (same : ∀ name, left.lookup name = right.lookup name) (added : List (String × α))
    (name : String) : (insertMembers left added).lookup name =
      (insertMembers right added).lookup name := by
  induction added generalizing left right with
  | nil => exact same name
  | cons first rest ih =>
    apply ih
    intro other
    rw [lookup_insertMember, lookup_insertMember, same]

theorem lookup_isSome_iff {name : String} {members : List (String × α)} :
    (members.lookup name).isSome = true ↔ name ∈ keys members := by
  rw [List.lookup_isSome_iff, keys, List.mem_map]
  constructor
  · rintro ⟨member, listed, same⟩
    exact ⟨member, listed, (beq_iff_eq.mp same).symm⟩
  · rintro ⟨member, listed, rfl⟩
    exact ⟨member, listed, beq_self_eq_true _⟩

theorem lookup_eq_none_of_not_mem {members : List (String × α)} {name : String}
    (absent : name ∉ keys members) : members.lookup name = none := by
  rw [← Option.not_isSome_iff_eq_none, lookup_isSome_iff]
  exact absent

/-- Members that are added hide those that were there. -/
theorem lookup_insertMembers {added : List (String × α)} (distinct : (keys added).Nodup)
    (members : List (String × α)) (name : String) :
    (insertMembers members added).lookup name = (added.lookup name).or (members.lookup name) := by
  induction added generalizing members with
  | nil => rfl
  | cons first rest ih =>
    obtain ⟨key, value⟩ := first
    obtain ⟨fresh, distinct⟩ := nodup_keys_cons.mp distinct
    -- The head goes in first, and nothing that goes in later has its name.
    change (insertMembers (insertMember members key value) rest).lookup name = _
    rw [ih distinct, lookup_insertMember, lookup_cons]
    by_cases same : name = key
    · subst same
      rw [if_pos rfl, if_pos rfl, lookup_eq_none_of_not_mem fresh, Option.none_or, Option.some_or]
    · rw [if_neg same, if_neg same]

theorem lookup_eq_some_iff_mem {members : List (String × α)} (distinct : (keys members).Nodup)
    {name : String} {value : α} :
    members.lookup name = some value ↔ (name, value) ∈ members := by
  induction members with
  | nil => simp
  | cons first rest ih =>
    obtain ⟨key, given⟩ := first
    obtain ⟨fresh, distinct⟩ := nodup_keys_cons.mp distinct
    rw [lookup_cons, List.mem_cons, Prod.mk.injEq]
    by_cases same : name = key
    · subst same
      have absent : (name, value) ∉ rest := fun listed => fresh (List.mem_map.mpr ⟨_, listed, rfl⟩)
      rw [if_pos rfl, Option.some.injEq]
      simp only [absent, or_false, true_and, eq_comm]
    · rw [if_neg same, ih distinct]
      simp only [same, false_and, false_or]

/-- In a list with distinct keys the order does not matter. -/
theorem lookup_perm {left right : List (String × α)} (distinct : (keys left).Nodup)
    (perm : left.Perm right) (name : String) : left.lookup name = right.lookup name := by
  have distinct' : (keys right).Nodup := (perm.map Prod.fst).nodup_iff.mp distinct
  ext value
  rw [lookup_eq_some_iff_mem distinct, lookup_eq_some_iff_mem distinct', perm.mem_iff]

theorem lookup_filter_ne {hidden name : String} (other : name ≠ hidden)
    (members : List (String × α)) :
    (members.filter (·.1 ≠ hidden)).lookup name = members.lookup name := by
  induction members with
  | nil => rfl
  | cons first rest ih =>
    obtain ⟨key, value⟩ := first
    by_cases dropped : key = hidden
    · have apart : name ≠ key := dropped ▸ other
      rw [List.filter_cons_of_neg (by simpa using dropped), lookup_cons, if_neg apart, ih]
    · rw [List.filter_cons_of_pos (by simpa using dropped), lookup_cons, lookup_cons, ih]

end HttpWorkflow
