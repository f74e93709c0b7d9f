import HttpWorkflow.Proofs.Json.Reading
import HttpWorkflow.Step.Map

/-! Members with repeated keys.

Collapsing keeps the keys distinct, adds no member that was not there and no weight, and leaves
members alone that have distinct keys.
-/

set_option autoImplicit false

namespace HttpWorkflow

section Insert

variable {α : Type}

theorem mem_insertMember {members : List (String × α)} {key : String} {value : α}
    {m : String × α} (member : m ∈ insertMember members key value) :
    m = (key, value) ∨ m ∈ members := by
  induction members with
  | nil => exact Or.inl (List.mem_singleton.mp member)
  | cons first rest ih =>
    unfold insertMember at member
    split at member
    · next same =>
      subst same
      rcases List.mem_cons.mp member with rfl | old
      · exact Or.inl rfl
      · exact Or.inr (List.mem_cons_of_mem _ old)
    · rcases List.mem_cons.mp member with rfl | later
      · exact Or.inr List.mem_cons_self
      · rcases ih later with new | old
        · exact Or.inl new
        · exact Or.inr (List.mem_cons_of_mem _ old)

theorem mem_insertMembers {members added : List (String × α)} {m : String × α}
    (member : m ∈ insertMembers members added) : m ∈ members ∨ m ∈ added := by
  induction added generalizing members with
  | nil => exact Or.inl member
  | cons first rest ih =>
    rcases ih member with early | late
    · rcases mem_insertMember early with rfl | old
      · exact Or.inr List.mem_cons_self
      · exact Or.inl old
    · exact Or.inr (List.mem_cons_of_mem _ late)

theorem nodup_keys_insertMembers {members : List (String × α)} (distinct : (keys members).Nodup)
    (added : List (String × α)) : (keys (insertMembers members added)).Nodup := by
  induction added generalizing members with
  | nil => exact distinct
  | cons first rest ih => exact ih (nodup_keys_insertMember distinct first.1 first.2)

theorem insertMembers_of_nodup {members added : List (String × α)}
    (distinct : (keys (members ++ added)).Nodup) :
    insertMembers members added = members ++ added := by
  induction added generalizing members with
  | nil => exact (List.append_nil members).symm
  | cons first rest ih =>
    have fresh : first.1 ∉ keys members := by
      intro known
      rw [keys, List.map_append] at distinct
      exact (List.nodup_append.mp distinct).2.2 _ known first.1 (by simp) rfl
    have grown : insertMembers members (first :: rest) =
        insertMembers (members ++ [(first.1, first.2)]) rest := by
      rw [← insertMember_of_not_mem fresh]
      rfl
    rw [grown, ih (by simpa using distinct), List.append_assoc]
    rfl

end Insert

namespace Json

theorem collapseMembers_eq_map (members : Members) :
    collapseMembers members = members.map fun m => (m.1, m.2.collapse) := by
  induction members with
  | nil => rfl
  | cons m rest ih =>
    obtain ⟨k, v⟩ := m
    rw [collapseMembers, ih, List.map_cons]

@[simp] theorem keys_collapseMembers (members : Members) :
    keys (collapseMembers members) = keys members := by
  simp [collapseMembers_eq_map, keys, Function.comp_def]

section Strings

def AllStrings (members : Members) : Prop := ∀ m ∈ members, ∃ s, m.2 = string s

variable {f : Json → Json} {members : Members}

theorem map_of_strings (fixed : ∀ s, f (string s) = string s) (strings : AllStrings members) :
    members.map (fun m => (m.1, f m.2)) = members := by
  have same : ∀ m ∈ members, (m.1, f m.2) = m := by
    intro m member
    obtain ⟨key, value⟩ := m
    obtain ⟨s, rfl⟩ := strings _ member
    rw [fixed]
  rw [List.map_congr_left same, List.map_id']

theorem map_eq_strings (reflected : ∀ v s, f v = string s → v = string s)
    (strings : AllStrings (members.map fun m => (m.1, f m.2))) :
    members.map (fun m => (m.1, f m.2)) = members := by
  have same : ∀ m ∈ members, (m.1, f m.2) = m := by
    intro m member
    obtain ⟨s, text⟩ := strings _ (List.mem_map_of_mem member)
    have unchanged : f m.2 = m.2 := text.trans (reflected m.2 s text).symm
    rw [unchanged]
  rw [List.map_congr_left same, List.map_id']

end Strings

theorem collapse_eq_string {v : Json} {s : String} : v.collapse = string s ↔ v = string s := by
  cases v <;> simp [collapse]

theorem weight_collapse (v : Json) : weight v.collapse = weight v := by
  cases v <;> simp [collapse, weight]

theorem membersWeight_collapseMembers (members : Members) :
    membersWeight (collapseMembers members) = membersWeight members := by
  have same (m : String × Json) : memberWeight (m.1, m.2.collapse) = memberWeight m := by
    simp only [memberWeight, weight_collapse]
  simp only [collapseMembers_eq_map, membersWeight, List.map_map, Function.comp_def, same]

theorem membersWeight_insertMember (members : Members) (key : String) (value : Json) :
    membersWeight (insertMember members key value) ≤
      membersWeight members + memberWeight (key, value) := by
  induction members with
  | nil => simp [insertMember]
  | cons first rest ih =>
    obtain ⟨k, v⟩ := first
    unfold insertMember
    split
    · next same =>
      simp only [membersWeight_cons, memberWeight, same]
      omega
    · simp only [membersWeight_cons]
      omega

theorem membersWeight_insertMembers (members added : Members) :
    membersWeight (insertMembers members added) ≤ membersWeight members + membersWeight added := by
  induction added generalizing members with
  | nil => exact Nat.le_refl _
  | cons first rest ih =>
    obtain ⟨k, v⟩ := first
    calc
      _ ≤ membersWeight (insertMember members k v) + membersWeight rest := ih _
      _ ≤ membersWeight members + memberWeight (k, v) + membersWeight rest :=
        Nat.add_le_add_right (membersWeight_insertMember members k v) _
      _ = membersWeight members + membersWeight ((k, v) :: rest) := by
        rw [membersWeight_cons, Nat.add_assoc]

end Json

end HttpWorkflow
