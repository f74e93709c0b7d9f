import HttpWorkflow.Proofs.Members
import Mathlib.Data.List.Induction

/-! Lists of members that name a key more than once.

Members that go into a map one after another leave each name where it came up first, with the value
that it was given last. Names and values determine the map, so this says all that there is to say
about it.
-/

set_option autoImplicit false

namespace HttpWorkflow

section Names

theorem eraseDups_concat (names : List String) (name : String) :
    (names ++ [name]).eraseDups =
      if name ∈ names then names.eraseDups else names.eraseDups ++ [name] := by
  rw [List.eraseDups_append]
  by_cases known : name ∈ names <;> simp [List.removeAll, List.eraseDups_cons, known]

theorem nodup_eraseDups (names : List String) : names.eraseDups.Nodup := by
  -- The last name is split off: it is the one that is dropped if it repeats an earlier name.
  induction names using List.reverseRecOn with
  | nil => exact .nil
  | append_singleton names name ih =>
    rw [eraseDups_concat]
    split
    · exact ih
    · next fresh =>
      refine List.nodup_append.mpr ⟨ih, by simp, ?_⟩
      rintro known listed _ single rfl
      rw [List.mem_singleton.mp single] at listed
      exact fresh (List.mem_eraseDups.mp listed)

end Names

variable {α : Type}

theorem keys_concat (members : List (String × α)) (m : String × α) :
    keys (members ++ [m]) = keys members ++ [m.1] := List.map_append

theorem keys_insertMember_of_mem {members : List (String × α)} {key : String}
    (listed : key ∈ keys members) (value : α) :
    keys (insertMember members key value) = keys members := by
  induction members with
  | nil => cases listed
  | cons first rest ih =>
    by_cases here : first.1 = key
    · rw [insertMember, if_pos here, keys, keys, List.map_cons, List.map_cons, here]
    · have later : key ∈ keys rest := (List.mem_cons.mp listed).resolve_left (Ne.symm here)
      rw [insertMember, if_neg here]
      exact congrArg (first.1 :: ·) (ih later)

/-- A member that goes into a map keeps the names in the order in which they come up first. -/
theorem keys_insertMember_of_eraseDups {map : List (String × α)} {names : List String}
    (same : keys map = names.eraseDups) (key : String) (value : α) :
    keys (insertMember map key value) = (names ++ [key]).eraseDups := by
  rw [eraseDups_concat, ← same]
  by_cases known : key ∈ names
  · have listed : key ∈ keys map := same ▸ List.mem_eraseDups.mpr known
    rw [if_pos known, keys_insertMember_of_mem listed]
  · have fresh : key ∉ keys map := by
      rw [same, List.mem_eraseDups]
      exact known
    rw [if_neg known, insertMember_of_not_mem fresh, keys_concat]

theorem insertMembers_concat (members added : List (String × α)) (m : String × α) :
    insertMembers members (added ++ [m]) = insertMember (insertMembers members added) m.1 m.2 := by
  rw [insertMembers, List.foldl_append]
  rfl

/-- The value that a name is given last. -/
def latest? (members : List (String × α)) (name : String) : Option α :=
  (members.filter (·.1 = name)).getLast?.map (·.2)

theorem latest?_concat (members : List (String × α)) (m : String × α) (name : String) :
    latest? (members ++ [m]) name = if name = m.1 then some m.2 else latest? members name := by
  by_cases same : m.1 = name
  · simp [latest?, List.filter_append, same]
  · simp [latest?, List.filter_append, same, Ne.symm same]

theorem latest?_eq_none_iff {members : List (String × α)} {name : String} :
    latest? members name = none ↔ name ∉ keys members := by
  simp only [latest?, Option.map_eq_none_iff, List.getLast?_eq_none_iff, List.filter_eq_nil_iff,
    decide_eq_true_eq, keys, List.mem_map, not_exists, not_and]

theorem mem_of_latest? {members : List (String × α)} {name : String} {value : α}
    (found : latest? members name = some value) : (name, value) ∈ members := by
  obtain ⟨m, last, rfl⟩ := Option.map_eq_some_iff.mp found
  obtain ⟨listed, same⟩ := List.mem_filter.mp (List.mem_of_getLast? last)
  exact of_decide_eq_true same ▸ listed

/-- The map that a list of members makes: the distinct names in the order in which they come up
first, each with the value that it is given last. -/
structure LastWins (members map : List (String × α)) : Prop where
  names : keys map = (keys members).eraseDups
  values : ∀ name, map.lookup name = latest? members name

theorem lastWins_insertMembers (members : List (String × α)) :
    LastWins members (insertMembers [] members) := by
  -- From the other end: the member that goes in last finds the map of those before it.
  induction members using List.reverseRecOn with
  | nil => exact ⟨rfl, fun _ => rfl⟩
  | append_singleton members m ih =>
    rw [insertMembers_concat]
    constructor
    · rw [keys_concat]
      exact keys_insertMember_of_eraseDups ih.names m.1 m.2
    · intro name
      rw [lookup_insertMember, latest?_concat, ih.values]

theorem eq_of_keys_of_lookup {left right : List (String × α)} (distinct : (keys left).Nodup)
    (names : keys left = keys right) (values : ∀ name, left.lookup name = right.lookup name) :
    left = right := by
  induction left generalizing right with
  | nil => exact (List.map_eq_nil_iff.mp names.symm).symm
  | cons first rest ih =>
    obtain ⟨name, value⟩ := first
    cases right with
    | nil => cases names
    | cons other later =>
      obtain ⟨name', value'⟩ := other
      obtain ⟨rfl, tails⟩ := List.cons.inj (show name :: keys rest = name' :: keys later from names)
      obtain ⟨fresh, distinct⟩ := nodup_keys_cons.mp distinct
      have heads := values name
      rw [lookup_cons, lookup_cons, if_pos rfl, if_pos rfl] at heads
      obtain rfl := Option.some.inj heads
      have same : rest = later := by
        refine ih distinct tails fun n => ?_
        by_cases here : n = name
        · rw [here, lookup_eq_none_of_not_mem fresh, lookup_eq_none_of_not_mem (tails ▸ fresh)]
        · have shifted := values n
          rwa [lookup_cons, lookup_cons, if_neg here, if_neg here] at shifted
      rw [same]

end HttpWorkflow
