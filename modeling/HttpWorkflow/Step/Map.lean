import HttpWorkflow.Step.Basic

/-! Named steps in the order of their execution. Every name occurs once. -/

set_option autoImplicit false

namespace HttpWorkflow

section Keys

variable {α : Type}

/-- The keys of an association list. -/
def keys (members : List (String × α)) : List String := members.map (·.1)

@[simp] theorem mem_keys_insertMember (members : List (String × α)) (key name : String) (value : α) :
    name ∈ keys (insertMember members key value) ↔ name = key ∨ name ∈ keys members := by
  induction members with
  | nil => simp [insertMember, keys]
  | cons first rest ih =>
    simp only [keys] at ih
    by_cases same : first.1 = key <;> grind [insertMember, keys]

theorem nodup_keys_insertMember {members : List (String × α)} (distinct : (keys members).Nodup)
    (key : String) (value : α) : (keys (insertMember members key value)).Nodup := by
  induction members with
  | nil => simp [insertMember, keys]
  | cons first rest ih =>
    have parts := List.nodup_cons.1 (show (first.1 :: keys rest).Nodup from distinct)
    by_cases same : first.1 = key
    · have : keys (insertMember (first :: rest) key value) = keys (first :: rest) := by
        simp [insertMember, keys, same]
      rw [this]
      exact distinct
    · have : keys (insertMember (first :: rest) key value)
          = first.1 :: keys (insertMember rest key value) := by
        simp [insertMember, keys, same]
      rw [this, List.nodup_cons]
      exact ⟨by simp [same, parts.1], ih parts.2⟩

theorem insertMember_of_not_mem {members : List (String × α)} {key : String}
    (fresh : key ∉ keys members) (value : α) :
    insertMember members key value = members ++ [(key, value)] := by
  induction members with
  | nil => rfl
  | cons first rest ih =>
    simp only [keys, List.map_cons, List.mem_cons, not_or] at fresh
    rw [insertMember, if_neg (Ne.symm fresh.1), ih fresh.2, List.cons_append]

end Keys

section IndexMap

variable {α : Type}

/-- Put a value in the place of its key, or at the end when the key is new. -/
def putAt (entries : List (String × α)) (key : String) (value : α) : List (String × α) :=
  match entries.findIdx? fun e => e.1 == key with
  | some i => entries.set i (key, value)
  | none => entries ++ [(key, value)]

theorem putAt_eq_insertMember (entries : List (String × α)) (key : String) (value : α) :
    putAt entries key value = insertMember entries key value := by
  induction entries with
  | nil => rfl
  | cons first rest ih =>
    rw [insertMember, ← ih, putAt, putAt, List.findIdx?_cons]
    by_cases same : first.1 = key
    · simp [same]
    · cases rest.findIdx? fun e => e.1 == key <;> simp [same]

/-- Values in the order in which their keys came up first. -/
structure IndexMap (α : Type) where
  entries : List (String × α)
  distinct : (keys entries).Nodup

namespace IndexMap

def empty : IndexMap α := ⟨[], by simp [keys]⟩

def insert (m : IndexMap α) (key : String) (value : α) : IndexMap α where
  entries := putAt m.entries key value
  distinct := by
    rw [putAt_eq_insertMember]
    exact nodup_keys_insertMember m.distinct key value

def ofList (entries : List (String × α)) : IndexMap α :=
  entries.foldl (fun m e => m.insert e.1 e.2) empty

end IndexMap

end IndexMap

structure StepMap where
  steps : List (String × Step)
  distinct : (keys steps).Nodup

namespace StepMap

def empty : StepMap := ⟨[], by simp [keys]⟩

instance : Inhabited StepMap := ⟨empty⟩

/-- Append a step, or replace the one of this name in its place. -/
def insert (m : StepMap) (name : String) (step : Step) : StepMap :=
  ⟨insertMember m.steps name step, nodup_keys_insertMember m.distinct name step⟩

/-- The steps of a list; a repeated name keeps its first position and its last step. -/
def ofList (steps : List (String × Step)) : StepMap :=
  steps.foldl (fun m s => m.insert s.1 s.2) empty

/-- The steps of a map that has been read. -/
def ofIndexMap (m : IndexMap Step) : StepMap := ⟨m.entries, m.distinct⟩

def get? (m : StepMap) (name : String) : Option Step := m.steps.lookup name

def names (m : StepMap) : List String := keys m.steps

def size (m : StepMap) : Nat := m.steps.length

def isEmpty (m : StepMap) : Bool := m.steps.isEmpty

def toJson (m : StepMap) : Json := .object (m.steps.map fun (name, s) => (name, s.toJson))

end StepMap

end HttpWorkflow
