import HttpWorkflow.Proofs.Document.Values
import HttpWorkflow.Proofs.Members
import Mathlib.Data.List.Forall2

/-! Fields of documents, written and read.

An object is written from slots, of which those without a value are left out. When no key is
written twice, a reader finds under each name what was put in the slot.
-/

set_option autoImplicit false

namespace HttpWorkflow

open Document (Data fields? once? optionalJson?)

/-- The steps of a reader, from the first to the last. -/
theorem do_eq_some_iff {α β : Type} {x : Option α} {f : α → Option β} {b : β} :
    (x >>= f) = some b ↔ ∃ a, x = some a ∧ f a = some b :=
  Option.bind_eq_some_iff

section Named

variable {α β : Type}

/-- Read the values of named entries one by one. -/
def readNamed (f : β → Option α) (entries : List (String × β)) : Option (List (String × α)) :=
  entries.mapM fun (name, v) => return (name, ← f v)

theorem readNamed_map {γ : Type} (f : β → Option α) (g : γ → β) (entries : List (String × γ)) :
    readNamed f (entries.map fun m => (m.1, g m.2)) = readNamed (fun v => f (g v)) entries :=
  List.mapM_map

theorem readNamed_cons (f : β → Option α) (first : String × β) (rest : List (String × β)) :
    readNamed f (first :: rest) =
      (f first.2).bind fun v => (readNamed f rest).map ((first.1, v) :: ·) := by
  simp only [readNamed, List.mapM_cons, Option.bind_eq_bind]
  cases f first.2 with
  | none => rfl
  | some v => exact Option.map_eq_bind.symm

theorem readNamed_eq_some_iff {f : β → Option α} {entries : List (String × β)}
    {read : List (String × α)} :
    readNamed f entries = some read ↔
      List.Forall₂ (fun e r => e.1 = r.1 ∧ f e.2 = some r.2) entries read := by
  induction entries generalizing read with
  | nil =>
    rw [List.forall₂_nil_left_iff]
    exact Option.some_inj.trans eq_comm
  | cons first rest ih =>
    rw [readNamed_cons, List.forall₂_cons_left_iff, Option.bind_eq_some_iff]
    constructor
    · rintro ⟨v, value, made⟩
      obtain ⟨values, others, rfl⟩ := Option.map_eq_some_iff.mp made
      exact ⟨(first.1, v), values, ⟨rfl, value⟩, ih.mp others, rfl⟩
    · rintro ⟨⟨name, v⟩, values, ⟨rfl, value⟩, others, rfl⟩
      exact ⟨v, value, Option.map_eq_some_iff.mpr ⟨values, ih.mpr others, rfl⟩⟩

theorem keys_of_readNamed {f : β → Option α} {entries : List (String × β)}
    {read : List (String × α)} (found : readNamed f entries = some read) :
    keys read = keys entries := by
  induction entries generalizing read with
  | nil =>
    obtain rfl := Option.some.inj found
    rfl
  | cons first rest ih =>
    rw [readNamed_cons] at found
    obtain ⟨v, _, made⟩ := Option.bind_eq_some_iff.mp found
    obtain ⟨values, others, rfl⟩ := Option.map_eq_some_iff.mp made
    exact congrArg (first.1 :: ·) (ih others)

theorem exists_of_mem_readNamed {f : β → Option α} {entries : List (String × β)}
    {read : List (String × α)} (found : readNamed f entries = some read) {m : String × α}
    (listed : m ∈ read) : ∃ v, f v = some m.2 := by
  induction entries generalizing read with
  | nil =>
    obtain rfl := Option.some.inj found
    cases listed
  | cons first rest ih =>
    rw [readNamed_cons] at found
    obtain ⟨v, value, made⟩ := Option.bind_eq_some_iff.mp found
    obtain ⟨values, others, rfl⟩ := Option.map_eq_some_iff.mp made
    rcases List.mem_cons.mp listed with rfl | later
    · exact ⟨first.2, value⟩
    · exact ih others later

theorem readNamed_eq_self_iff {f : α → Option α} {entries : List (String × α)} :
    readNamed f entries = some entries ↔ ∀ m ∈ entries, f m.2 = some m.2 := by
  induction entries with
  | nil => simp [readNamed]
  | cons first rest ih =>
    obtain ⟨name, own⟩ := first
    rw [readNamed_cons, List.forall_mem_cons, ← ih, Option.bind_eq_some_iff]
    constructor
    · rintro ⟨v, value, made⟩
      obtain ⟨values, others, same⟩ := Option.map_eq_some_iff.mp made
      obtain ⟨rfl, rfl⟩ : v = own ∧ values = rest := by simpa using same
      exact ⟨value, others⟩
    · rintro ⟨value, others⟩
      exact ⟨own, value, Option.map_eq_some_iff.mpr ⟨rest, others, rfl⟩⟩

/-- Entries with distinct names come back from a map when each value does. -/
theorem insertMembers_readNamed_iff {f : α → Option α} {entries : List (String × α)}
    (distinct : (keys entries).Nodup) :
    (readNamed f entries).map (insertMembers []) = some entries ↔
      ∀ m ∈ entries, f m.2 = some m.2 := by
  rw [← readNamed_eq_self_iff, Option.map_eq_some_iff]
  constructor
  · rintro ⟨read, found, made⟩
    -- Reading keeps the names, so the map has no name twice to leave out.
    have kept : insertMembers [] read = read :=
      insertMembers_of_nodup (show (keys read).Nodup from keys_of_readNamed found ▸ distinct)
    rw [found, ← made, kept]
  · intro found
    exact ⟨entries, found, insertMembers_of_nodup distinct⟩

end Named

namespace Document

/-- The members of a written object as a reader finds them. -/
def written (members : Members) : List (String × Data) := members.map fun m => (m.1, .ofJson m.2)

theorem fields?_ofJson (members : Members) :
    fields? (.ofJson (.object members)) = some (written members) := by
  have entries : (Data.ofJson (.object members)).entries? = some (Data.ofMembers members) := rfl
  simp only [fields?, entries, Option.bind_eq_bind, Option.bind_some, Data.ofMembers_eq_map,
    List.mapM_map]
  exact List.mapM_pure

theorem once?_of_nodup {fields : List (String × Data)} (distinct : (keys fields).Nodup)
    (name : String) : once? fields name = some (fields.lookup name) := by
  induction fields with
  | nil => rfl
  | cons first rest ih =>
    obtain ⟨key, value⟩ := first
    obtain ⟨fresh, distinct⟩ := nodup_keys_cons.mp distinct
    rw [lookup_cons]
    by_cases same : name = key
    · subst same
      have single : rest.filter (·.1 == name) = [] := by
        rw [List.filter_eq_nil_iff]
        intro m listed known
        exact fresh (List.mem_map.mpr ⟨m, listed, beq_iff_eq.mp known⟩)
      simp [once?, single]
    · simp [once?, ← ih distinct, same, Ne.symm same]

theorem lookup_written (members : Members) (name : String) :
    (written members).lookup name = (members.lookup name).map Data.ofJson := by
  induction members with
  | nil => rfl
  | cons first rest ih =>
    obtain ⟨key, value⟩ := first
    change ((key, Data.ofJson value) :: written rest).lookup name = _
    rw [lookup_cons, lookup_cons, ih]
    split <;> rfl

theorem once?_written {members : Members} (distinct : (keys members).Nodup) (name : String) :
    once? (written members) name = some ((members.lookup name).map Data.ofJson) := by
  have distinct' : (keys (written members)).Nodup := by
    rwa [keys, written, List.map_map]
  rw [once?_of_nodup distinct', lookup_written]

theorem Data.optional?_ofJson {v : Json} (present : v ≠ .null) :
    (ofJson v).optional? = some (some (ofJson v)) := by
  cases v with
  | null => exact absurd rfl present
  | _ => rfl

/-- A value that may be left out is kept, unless it is null. -/
theorem optionalJson?_written_iff {v : Option Json} (proper : ∀ j ∈ v, j.Proper) :
    optionalJson? (v.map Data.ofJson) = some v ↔ v ≠ some .null := by
  cases v with
  | none => simp [optionalJson?]
  | some j =>
    by_cases null : j = .null
    · subst null
      simp [optionalJson?, Data.ofJson, Data.optional?]
    · have read := Data.toJson?_ofJson false j (proper j rfl)
      simp [optionalJson?, Data.optional?_ofJson null, read, null]

theorem optional_field_iff {fields : List (String × Data)} {name : String} {v : Option Json}
    (found : once? fields name = some (v.map Data.ofJson)) (proper : ∀ j ∈ v, j.Proper) :
    (∃ d, once? fields name = some d ∧ optionalJson? d = some v) ↔ v ≠ some .null := by
  rw [← optionalJson?_written_iff proper, found]
  simp only [Option.some.injEq, exists_eq_left']

end Document

section Slots

/-- The members of the fields that are there, of all that an object may have. -/
def presentMembers (slots : List (String × Option Json)) : Members :=
  slots.flatMap fun slot => optionalMember slot.1 slot.2

variable {slots : List (String × Option Json)}

theorem sublist_keys_presentMembers : (keys (presentMembers slots)).Sublist (keys slots) := by
  induction slots with
  | nil => exact List.Sublist.refl _
  | cons first rest ih =>
    obtain ⟨name, v⟩ := first
    cases v with
    | none => exact ih.cons name
    | some value => exact ih.cons_cons name

theorem lookup_presentMembers (distinct : (keys slots).Nodup) {name : String} {v : Option Json}
    (slot : (name, v) ∈ slots) : (presentMembers slots).lookup name = v := by
  induction slots with
  | nil => cases slot
  | cons first rest ih =>
    obtain ⟨key, value⟩ := first
    obtain ⟨fresh, distinct⟩ := nodup_keys_cons.mp distinct
    have split : (presentMembers ((key, value) :: rest)).lookup name =
        ((optionalMember key value).lookup name).or ((presentMembers rest).lookup name) :=
      List.lookup_append
    rw [split]
    rcases List.mem_cons.mp slot with here | later
    · obtain ⟨rfl, rfl⟩ := Prod.mk.inj here
      have absent : name ∉ keys (presentMembers rest) := fun known =>
        fresh (sublist_keys_presentMembers.subset known)
      rw [lookup_eq_none_of_not_mem absent]
      cases v <;> simp [optionalMember]
    · have other : name ≠ key := by
        rintro rfl
        exact fresh (List.mem_map.mpr ⟨_, later, rfl⟩)
      have passed : (optionalMember key value).lookup name = none := by
        cases value <;> simp [optionalMember, lookup_cons, other]
      rw [passed, Option.none_or, ih distinct later]

end Slots

end HttpWorkflow
