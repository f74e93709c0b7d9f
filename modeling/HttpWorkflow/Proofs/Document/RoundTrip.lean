import HttpWorkflow.Proofs.Document.Reading

/-! Workflows that are written and read again.

A reader finds a field where the writer has put it, unless a member of the same name is in the way:
an option with the name of a field, or an entry of a table where the key template is due. A field
that holds null is read as one that is left out. Nothing else is lost, neither a value nor the
order of steps, options and entries.
-/

set_option autoImplicit false

namespace HttpWorkflow

open Document (Data Format fields? once? optionalJson? optionalText? flagField? requiredText?)

namespace ConditionEntry

/-- Neither text of an entry is there as null. -/
structure Storable (e : ConditionEntry) : Prop where
  redirect : e.redirect ≠ some .null
  message : e.message ≠ some .null

/-- The flag of an entry, which is left out when it is off. -/
def mark (e : ConditionEntry) : Option Json := if e.proceeds then some (.bool true) else none

theorem flagField?_mark (e : ConditionEntry) :
    flagField? (e.mark.map Data.ofJson) = some e.proceeds := by
  cases going : e.proceeds <;> simp only [mark, going] <;> rfl

def slots (e : ConditionEntry) : List (String × Option Json) :=
  [("redirect", e.redirect), ("message", e.message), ("continue", e.mark)]

theorem toJson_eq (e : ConditionEntry) : e.toJson = .object (presentMembers e.slots) := by
  cases going : e.proceeds <;> simp [toJson, presentMembers, slots, mark, going, optionalMember]

theorem once?_slot {e : ConditionEntry} {name : String} {v : Option Json}
    (slot : (name, v) ∈ e.slots) :
    once? (Document.written (presentMembers e.slots)) name = some (v.map Data.ofJson) := by
  have distinct : (keys e.slots).Nodup := by
    change ["redirect", "message", "continue"].Nodup
    decide
  rw [Document.once?_written (distinct.sublist sublist_keys_presentMembers),
    lookup_presentMembers distinct slot]

/-- What the reader of an entry finds in an object. -/
theorem ofData?_toJson (format : Format) (e : ConditionEntry) :
    ofData? format (.ofJson e.toJson) = ofFields? (e.redirect.map Data.ofJson)
      (e.message.map Data.ofJson) (e.mark.map Data.ofJson) := by
  have fields := Document.fields?_ofJson (presentMembers e.slots)
  rw [← toJson_eq] at fields
  have redirect := once?_slot (e := e) (.head _)
  have message := once?_slot (e := e) (.tail _ (.head _))
  have mark := once?_slot (e := e) (.tail _ (.tail _ (.head _)))
  rw [ofData?]
  · simp only [fields, redirect, message, mark, Option.bind_eq_bind, Option.bind_some]
  · intro items _ list
    rw [toJson_eq] at list
    cases list

theorem ofData?_toJson_iff {e : ConditionEntry} (proper : e.Proper) (format : Format) :
    ofData? format (.ofJson e.toJson) = some e ↔ e.Storable := by
  rw [ofData?_toJson, ofFields?_eq_some_iff, Document.optionalJson?_written_iff proper.redirect,
    Document.optionalJson?_written_iff proper.message]
  constructor
  · rintro ⟨redirect, message, _⟩
    exact ⟨redirect, message⟩
  · intro stored
    exact ⟨stored.redirect, stored.message, e.flagField?_mark⟩

end ConditionEntry

namespace ConditionTable

/-- No entry stands where the key template does. -/
structure Storable (t : ConditionTable) : Prop where
  unkeyed : "key" ∉ keys t.entries
  entries : ∀ m ∈ t.entries, m.2.Storable

section Entries

variable {format : Format} {entries : List (String × ConditionEntry)} {t : ConditionTable}

theorem add?_text {key : String} (other : key ≠ "key") (d : Data) :
    add? format t (.text key, d) = (ConditionEntry.ofData? format d).map (t.insert key) := by
  have text : keyText? (.text key) = some key := rfl
  simp only [add?, text, Option.bind_eq_bind, Option.bind_some, beq_iff_eq, if_neg other]
  cases ConditionEntry.ofData? format d <;> rfl

/-- An entry is no text, so it cannot be read as the key template. -/
theorem add?_key (e : ConditionEntry) :
    add? format t (.text "key", .ofJson e.toJson) = none := rfl

/-- Read the entries of a written table into `t`. -/
def addWritten? (format : Format) (t : ConditionTable)
    (entries : List (String × ConditionEntry)) : Option ConditionTable :=
  entries.foldlM (fun t m => add? format t (.text m.1, .ofJson m.2.toJson)) t

theorem addWritten?_of_unkeyed (unkeyed : "key" ∉ keys entries) :
    addWritten? format t entries =
      (readNamed (fun e => ConditionEntry.ofData? format (.ofJson e.toJson)) entries).map
        fun read => { t with entries := insertMembers t.entries read } := by
  induction entries generalizing t with
  | nil => rfl
  | cons first rest ih =>
    obtain ⟨other, unkeyed⟩ : "key" ≠ first.1 ∧ "key" ∉ keys rest :=
      not_or.mp (mt List.mem_cons.mpr unkeyed)
    have step : addWritten? format t (first :: rest) =
        ((ConditionEntry.ofData? format (.ofJson first.2.toJson)).map (t.insert first.1)).bind
          (addWritten? format · rest) := by
      rw [← add?_text (Ne.symm other)]
      rfl
    rw [step, readNamed_cons]
    cases ConditionEntry.ofData? format (.ofJson first.2.toJson) with
    | none => rfl
    | some e =>
      simp only [Option.map_some, Option.bind_some, ih unkeyed, Option.map_map]
      rfl

theorem addWritten?_of_keyed (keyed : "key" ∈ keys entries) :
    addWritten? format t entries = none := by
  induction entries generalizing t with
  | nil => cases keyed
  | cons first rest ih =>
    by_cases here : first.1 = "key"
    · have stopped : add? format t (.text first.1, .ofJson first.2.toJson) = none := by
        rw [here]
        exact add?_key first.2
      simp only [addWritten?, List.foldlM_cons, stopped]
      rfl
    · have later : "key" ∈ keys rest := (List.mem_cons.mp keyed).resolve_left (Ne.symm here)
      simp only [addWritten?, List.foldlM_cons]
      cases add? format t (.text first.1, .ofJson first.2.toJson) with
      | none => rfl
      | some t => exact ih later

end Entries

theorem ofData?_toJson (format : Format) (t : ConditionTable) :
    ofData? format (.ofJson t.toJson) = addWritten? format { key := t.key } t.entries := by
  have written : (Data.ofJson t.toJson).entries? =
      some ((optionalMember "key" (t.key.map .string) ++
        t.entries.map fun m => (m.1, m.2.toJson)).map fun m => (.text m.1, .ofJson m.2)) :=
    congrArg some (Data.ofMembers_eq_map _)
  simp only [ofData?, written, Option.bind_eq_bind, Option.bind_some, List.map_append,
    List.foldlM_append, List.map_map, List.foldlM_map]
  -- The template is read before all entries, so they go into a table that has it.
  cases t.key with
  | none => rfl
  | some key => rfl

/-- A table comes back when each of its entries does, and none is named like the key template. -/
theorem ofData?_toJson_iff {t : ConditionTable} (proper : t.Proper) (format : Format) :
    ofData? format (.ofJson t.toJson) = some t ↔ t.Storable := by
  rw [ofData?_toJson]
  by_cases keyed : "key" ∈ keys t.entries
  · rw [addWritten?_of_keyed keyed]
    constructor
    · intro absurd
      cases absurd
    · intro stored
      exact absurd keyed stored.unkeyed
  · rw [addWritten?_of_unkeyed keyed]
    have whole (read : Option (List (String × ConditionEntry))) :
        read.map (fun entries => ({ key := t.key, entries := entries } : ConditionTable)) = some t ↔
          read = some t.entries := by
      obtain ⟨key, entries⟩ := t
      simp [Option.map_eq_some_iff]
    have split := whole ((readNamed (fun e => ConditionEntry.ofData? format (.ofJson e.toJson))
      t.entries).map (insertMembers []))
    rw [Option.map_map] at split
    have each := forall₂_congr fun m listed =>
      ConditionEntry.ofData?_toJson_iff (proper.entries m listed) format
    refine split.trans ((insertMembers_readNamed_iff proper.distinct).trans (each.trans ?_))
    constructor
    · intro stored
      exact ⟨keyed, stored⟩
    · intro stored
      exact stored.entries

end ConditionTable

namespace Step

/-- No field is there as null, and no option has the name of a field. -/
structure Storable (s : Step) : Prop where
  headers : s.headers ≠ some .null
  request : s.request ≠ some .null
  beforeFetch : s.beforeFetch ≠ some .null
  condition : s.condition.Storable
  options : ∀ name ∈ keys s.options, name ∉ fieldNames

def slots (s : Step) : List (String × Option Json) :=
  [("url", some (.string s.url)), ("method", some (.string s.method)), ("headers", s.headers),
    ("request", s.request), ("beforeFetch", s.beforeFetch), ("condition", some s.condition.toJson),
    ("shouldHideError", some (.bool s.hidesError)),
    ("shouldContinueNextApiOnError", some (.bool s.continuesOnError))]

/-- The members of a written step. -/
def members (s : Step) : Members := presentMembers s.slots ++ s.options

theorem toJson_eq (s : Step) : s.toJson = .object s.members := by
  simp [toJson, members, presentMembers, slots, optionalMember]

theorem keys_slots (s : Step) : keys s.slots = fieldNames := rfl

section Fields

variable {s : Step}

/-- The options that a reader tells from the fields. -/
def apartOptions (s : Step) : Members := s.options.filter fun m => !fieldNames.contains m.1

theorem apartOptions_eq_iff :
    s.apartOptions = s.options ↔ ∀ name ∈ keys s.options, name ∉ fieldNames := by
  rw [apartOptions, List.filter_eq_self, keys, List.forall_mem_map]
  refine forall₂_congr fun m _ => ?_
  rw [Bool.not_eq_true', ← Bool.not_eq_true, List.contains_iff_mem]

theorem options?_members (proper : s.Proper) :
    options? (Document.written s.members) = some s.apartOptions := by
  -- A field is never taken for an option, but an option with its name is dropped like a field.
  have known : unknown (presentMembers s.slots) = [] := by
    rw [List.eq_nil_iff_forall_not_mem]
    intro m listed
    obtain ⟨present, other⟩ := mem_unknown_iff.mp listed
    exact other (sublist_keys_presentMembers.subset (List.mem_map.mpr ⟨m, present, rfl⟩))
  have kept : unknown s.members = s.apartOptions := by
    rw [members, unknown, List.filter_append]
    exact congrArg (· ++ s.apartOptions) known
  have values : ∀ m ∈ unknown s.members, m.2.Proper := by
    rw [kept]
    exact fun m listed => proper.options m (List.mem_filter.mp listed).1
  have distinct : (keys s.apartOptions).Nodup :=
    proper.distinct.sublist (List.filter_sublist.map _)
  have whole : insertMembers [] s.apartOptions = s.apartOptions := insertMembers_of_nodup distinct
  refine options?_eq_some_iff.mpr ⟨s.apartOptions, ?_, whole.symm⟩
  rw [readNamed_unknown values, kept]

theorem once?_slot (distinct : (keys s.options).Nodup)
    (free : ∀ name ∈ keys s.options, name ∉ fieldNames) {name : String} {v : Option Json}
    (slot : (name, v) ∈ s.slots) :
    once? (Document.written s.members) name = some (v.map Data.ofJson) := by
  have single : (keys s.slots).Nodup := by
    rw [keys_slots]
    decide
  have apart : (keys s.members).Nodup := by
    rw [members, keys, List.map_append]
    refine List.nodup_append.mpr ⟨single.sublist sublist_keys_presentMembers, distinct, ?_⟩
    rintro a known b given rfl
    exact free a given (sublist_keys_presentMembers.subset known)
  have named : name ∈ keys s.slots := List.mem_map.mpr ⟨_, slot, rfl⟩
  have unhidden : s.options.lookup name = none :=
    lookup_eq_none_of_not_mem fun given => free name given named
  rw [Document.once?_written apart, members, List.lookup_append, unhidden, Option.or_none,
    lookup_presentMembers single slot]

/-- The fields of a written step, when none of its options is in the way. -/
theorem readFrom_members_iff (proper : s.Proper)
    (free : ∀ name ∈ keys s.options, name ∉ fieldNames) (format : Format) :
    ReadFrom format (Document.written s.members) s ↔ s.Storable := by
  have found {name : String} {v : Option Json} (slot : (name, v) ∈ s.slots) :
      once? (Document.written s.members) name = some (v.map Data.ofJson) :=
    once?_slot proper.distinct free slot
  have optional {name : String} {v : Option Json} (slot : (name, v) ∈ s.slots)
      (values : ∀ j ∈ v, j.Proper) :
      (∃ d, once? (Document.written s.members) name = some d ∧ optionalJson? d = some v) ↔
        v ≠ some .null :=
    Document.optional_field_iff (found slot) values
  have table := found (show ("condition", some s.condition.toJson) ∈ s.slots by simp [slots])
  constructor
  · intro read
    obtain ⟨d, given, entries⟩ := read.condition
    obtain rfl : d = .ofJson s.condition.toJson :=
      Option.some.inj (Option.some.inj (given.symm.trans table))
    rw [ConditionTable.ofData?_toJson_iff proper.condition] at entries
    exact ⟨(optional (by simp [slots]) proper.headers).mp read.headers,
      (optional (by simp [slots]) proper.request).mp read.request,
      (optional (by simp [slots]) proper.beforeFetch).mp read.beforeFetch, entries, free⟩
  · intro stored
    have text {name value : String} (slot : (name, some (.string value)) ∈ s.slots) :
        requiredText? (Document.written s.members) name = some value := by
      rw [requiredText?, found slot]
      rfl
    have flag {name : String} {value : Bool} (slot : (name, some (.bool value)) ∈ s.slots) :
        ∃ d, once? (Document.written s.members) name = some d ∧ flagField? d = some value :=
      ⟨_, found slot, rfl⟩
    exact {
      url := text (by simp [slots])
      method := text (by simp [slots])
      headers := (optional (by simp [slots]) proper.headers).mpr stored.headers
      request := (optional (by simp [slots]) proper.request).mpr stored.request
      beforeFetch := (optional (by simp [slots]) proper.beforeFetch).mpr stored.beforeFetch
      condition := ⟨_, table,
        (ConditionTable.ofData?_toJson_iff proper.condition format).mpr stored.condition⟩
      hidesError := flag (by simp [slots])
      continuesOnError := flag (by simp [slots])
      options := (options?_members proper).trans (congrArg some (apartOptions_eq_iff.mpr free)) }

theorem ofData?_toJson_iff (proper : s.Proper) (format : Format) :
    ofData? format (.ofJson s.toJson) = some s ↔ s.Storable := by
  have fields := Document.fields?_ofJson s.members
  rw [← toJson_eq] at fields
  rw [ofData?_eq_some_iff]
  constructor
  · -- The options that are read are all that were written, so none has the name of a field, and
    -- only then does each name stand for one field.
    rintro ⟨_, found, read⟩
    obtain rfl := Option.some.inj (fields.symm.trans found)
    have free := apartOptions_eq_iff.mp
      (Option.some.inj ((options?_members proper).symm.trans read.options))
    exact (readFrom_members_iff proper free format).mp read
  · intro stored
    exact ⟨_, fields, (readFrom_members_iff proper stored.options format).mpr stored⟩

end Fields

end Step

namespace StepMap

theorem ofData?_toJson (format : Format) (m : StepMap) :
    ofData? format (.ofJson m.toJson) =
      (readNamed (fun s => Step.ofData? format (.ofJson s.toJson)) m.steps).map ofList := by
  have fields : fields? (.ofJson m.toJson) =
      some (Document.written (m.steps.map fun entry => (entry.1, entry.2.toJson))) :=
    Document.fields?_ofJson _
  have read : readNamed (Step.ofData? format)
      (Document.written (m.steps.map fun entry => (entry.1, entry.2.toJson))) =
        readNamed (fun s => Step.ofData? format (.ofJson s.toJson)) m.steps := by
    rw [Document.written, List.map_map]
    exact readNamed_map (Step.ofData? format) (fun s => .ofJson s.toJson) m.steps
  simp only [ofData?, fields, Option.bind_eq_bind, Option.bind_some, ofIndexMap_ofList]
  rw [← read, Option.map_eq_bind]
  rfl

theorem ofData?_toJson_iff {m : StepMap} (proper : ∀ entry ∈ m.steps, entry.2.Proper)
    (format : Format) :
    ofData? format (.ofJson m.toJson) = some m ↔ ∀ entry ∈ m.steps, entry.2.Storable := by
  have whole (read : Option (List (String × Step))) :
      read.map ofList = some m ↔ read.map (insertMembers []) = some m.steps := by
    cases read with
    | none => simp
    | some steps =>
      rw [Option.map_some, Option.map_some, Option.some.injEq, Option.some.injEq, ← steps_ofList]
      constructor
      · intro same
        rw [same]
      · intro same
        cases made : ofList steps
        cases m
        simp_all
  rw [ofData?_toJson, whole, insertMembers_readNamed_iff m.distinct]
  exact forall₂_congr fun entry listed => Step.ofData?_toJson_iff (proper entry listed) format

end StepMap

namespace Workflow

/-- Every part of the workflow is found where it is written. -/
def Storable (w : Workflow) : Prop := ∀ entry ∈ w.steps.steps, entry.2.Storable

def notes (w : Workflow) : Json :=
  match w.description with
  | some text => .string text
  | none => .null

def members (w : Workflow) : Members :=
  [("name", .string w.name), ("description", w.notes), ("steps", w.steps.toJson)]

theorem ofData?_toJson (format : Format) (w : Workflow) :
    ofData? format (.ofJson w.toJson) =
      (StepMap.ofData? format (.ofJson w.steps.toJson)).map fun m => { w with steps := m } := by
  have fields : fields? (.ofJson w.toJson) = some (Document.written w.members) :=
    Document.fields?_ofJson _
  have distinct : (keys w.members).Nodup := by
    change ["name", "description", "steps"].Nodup
    decide
  have found (name : String) := Document.once?_written distinct name
  have name : once? (Document.written w.members) "name" = some (some (.text w.name)) := found "name"
  have description : once? (Document.written w.members) "description" =
      some (some (.ofJson w.notes)) := found "description"
  have steps : once? (Document.written w.members) "steps" =
      some (some (.ofJson w.steps.toJson)) := found "steps"
  have text : (Data.text w.name).text? = some w.name := rfl
  have notes : optionalText? (some (.ofJson w.notes)) = some w.description := by
    cases given : w.description <;> simp only [Workflow.notes, given] <;> rfl
  simp only [ofData?, fields, name, description, steps, text, notes, Option.bind_eq_bind,
    Option.bind_some]
  rw [Option.map_eq_bind]
  rfl

/-- A workflow that is written is read again, with its steps, options and entries in order, exactly
when no field of it is there as null, no option has the name of a field of a step, and no entry of
a table stands where the key template does. -/
theorem restored_iff_storable {w : Workflow} (proper : w.Proper) (format : Format) :
    ofData? format (.ofJson w.toJson) = some w ↔ w.Storable := by
  rw [ofData?_toJson]
  refine Iff.trans ?_ (StepMap.ofData?_toJson_iff proper format)
  obtain ⟨name, description, steps⟩ := w
  simp [Option.map_eq_some_iff]

end Workflow

/-- A call with a field of every kind. -/
def creation : Step where
  url := "/users"
  method := "POST"
  headers := some (.object [("Accept", .string "*/*")])
  request := some (.array [.int 1, .null, .bool true])
  condition := {
    key := some "code"
    entries := [("E01", { message := some (.string "taken") }), ("default", { proceeds := true })] }
  continuesOnError := true
  options := [("timeout", .int 500), ("proxy", .null)]

/-- The call with one more option, which has the name of a field. -/
def shadowed : Step := creation.option "url" .null

def signUp (step : Step) : Workflow where
  name := "sign-up"
  steps := StepMap.empty.insert "create" step

theorem creation_proper : creation.Proper where
  headers := by simp [creation, Json.Proper, Json.ProperMembers, keys]
  request := by simp [creation, Json.Proper, Json.ProperItems]
  beforeFetch := by simp [creation]
  condition := by
    refine ⟨by decide, fun m listed => ?_⟩
    rcases List.mem_cons.mp listed with rfl | last
    · exact ⟨by simp, by simp [Json.Proper]⟩
    · obtain rfl := List.mem_singleton.mp last
      exact ⟨by simp, by simp⟩
  distinct := by decide
  options := by simp [creation, Json.Proper]

theorem creation_storable : creation.Storable where
  headers := by simp [creation]
  request := by simp [creation]
  beforeFetch := by simp [creation]
  condition := by
    refine ⟨by decide, fun m listed => ?_⟩
    rcases List.mem_cons.mp listed with rfl | last
    · exact ⟨by simp, by simp⟩
    · obtain rfl := List.mem_singleton.mp last
      exact ⟨by simp, by simp⟩
  options := by decide

theorem signUp_restored :
    Workflow.ofData? .json (.ofJson (signUp creation).toJson) = some (signUp creation) ∧
      Workflow.ofData? .json (.ofJson (signUp shadowed).toJson) ≠ some (signUp shadowed) := by
  constructor
  · have proper : (signUp creation).Proper := by
      intro entry listed
      obtain rfl := List.mem_singleton.mp listed
      exact creation_proper
    rw [Workflow.restored_iff_storable proper]
    intro entry listed
    obtain rfl := List.mem_singleton.mp listed
    exact creation_storable
  · have proper : (signUp shadowed).Proper := by
      intro entry listed
      obtain rfl := List.mem_singleton.mp listed
      exact { creation_proper with
        distinct := by decide
        options := by simp [shadowed, creation, Step.option, insertMember, Json.Proper] }
    rw [ne_eq, Workflow.restored_iff_storable proper]
    intro stored
    exact (stored _ (.head _)).options "url" (by decide) (by decide)

end HttpWorkflow
