import HttpWorkflow.Proofs.Document.Checking
import HttpWorkflow.Proofs.Document.Fields

/-! What is read from documents.

A reader of several fields succeeds when every field can be read. Whatever the document, the values
that it gives are proper and the maps have distinct keys: a repeated key replaces a value and adds
no second one.
-/

set_option autoImplicit false

namespace HttpWorkflow

open Document (Data Format fields? once? optionalJson? flagField? requiredText?)

theorem Document.proper_of_optionalJson? {d : Option Data} {v : Option Json}
    (read : optionalJson? d = some v) : ∀ j ∈ v, j.Proper := by
  cases d with
  | none =>
    obtain rfl := Option.some.inj read
    intro j absent
    cases absent
  | some d =>
    obtain ⟨content, _, made⟩ := do_eq_some_iff.mp read
    cases content with
    | none =>
      obtain rfl := Option.some.inj made
      intro j absent
      cases absent
    | some d =>
      obtain ⟨value, found, kept⟩ := do_eq_some_iff.mp made
      obtain rfl := Option.some.inj kept
      intro j same
      obtain rfl := Option.some.inj same
      exact Data.proper_of_toJson? false d _ found

namespace ConditionEntry

/-- The values of an entry are values of JSON. -/
structure Proper (e : ConditionEntry) : Prop where
  redirect : ∀ v ∈ e.redirect, v.Proper
  message : ∀ v ∈ e.message, v.Proper

theorem ofFields?_eq_some_iff {redirect message proceeds : Option Data} {e : ConditionEntry} :
    ofFields? redirect message proceeds = some e ↔
      optionalJson? redirect = some e.redirect ∧ optionalJson? message = some e.message ∧
        flagField? proceeds = some e.proceeds := by
  simp only [ofFields?, Option.bind_eq_bind, Option.bind_eq_some_iff, Option.pure_def,
    Option.some.injEq]
  constructor
  · rintro ⟨r, first, m, second, p, third, rfl⟩
    exact ⟨first, second, third⟩
  · rintro ⟨first, second, third⟩
    exact ⟨_, first, _, second, _, third, rfl⟩

theorem proper_of_ofData? {format : Format} {d : Data} {e : ConditionEntry}
    (read : ofData? format d = some e) : e.Proper := by
  -- By position or by name, the fields are read in one way.
  obtain ⟨redirect, message, proceeds, given⟩ : ∃ redirect message proceeds,
      ofFields? redirect message proceeds = some e := by
    unfold ofData? at read
    split at read
    · obtain ⟨_, _, given⟩ := do_eq_some_iff.mp read
      exact ⟨_, _, _, given⟩
    · obtain ⟨fields, _, named⟩ := do_eq_some_iff.mp read
      obtain ⟨redirect, _, named⟩ := do_eq_some_iff.mp named
      obtain ⟨message, _, named⟩ := do_eq_some_iff.mp named
      obtain ⟨proceeds, _, given⟩ := do_eq_some_iff.mp named
      exact ⟨redirect, message, proceeds, given⟩
  obtain ⟨first, second, _⟩ := ofFields?_eq_some_iff.mp given
  exact ⟨Document.proper_of_optionalJson? first, Document.proper_of_optionalJson? second⟩

end ConditionEntry

namespace ConditionTable

/-- The entries of a table have distinct keys and proper values. -/
structure Proper (t : ConditionTable) : Prop where
  distinct : (keys t.entries).Nodup
  entries : ∀ m ∈ t.entries, m.2.Proper

variable {format : Format} {t t' : ConditionTable}

theorem Proper.add? (proper : t.Proper) {entry : Data × Data}
    (added : add? format t entry = some t') : t'.Proper := by
  obtain ⟨key, _, added⟩ := do_eq_some_iff.mp added
  split at added
  · obtain ⟨template, _, made⟩ := do_eq_some_iff.mp added
    obtain rfl := Option.some.inj made
    exact ⟨proper.distinct, proper.entries⟩
  · obtain ⟨e, read, made⟩ := do_eq_some_iff.mp added
    obtain rfl := Option.some.inj made
    refine ⟨nodup_keys_insertMember proper.distinct key e, fun m listed => ?_⟩
    rcases mem_insertMember listed with rfl | old
    · exact ConditionEntry.proper_of_ofData? read
    · exact proper.entries m old

theorem Proper.foldlM_add? (proper : t.Proper) {entries : List (Data × Data)}
    (added : entries.foldlM (ConditionTable.add? format) t = some t') : t'.Proper := by
  induction entries generalizing t with
  | nil =>
    obtain rfl := Option.some.inj added
    exact proper
  | cons first rest ih =>
    obtain ⟨next, step, later⟩ := do_eq_some_iff.mp added
    exact ih (proper.add? step) later

theorem proper_of_ofData? {d : Data} (read : ofData? format d = some t) : t.Proper := by
  obtain ⟨entries, _, added⟩ := do_eq_some_iff.mp read
  have empty : ({} : ConditionTable).Proper := ⟨List.nodup_nil, fun m absent => nomatch absent⟩
  exact empty.foldlM_add? added

end ConditionTable

namespace Step

/-- The values of a step are values of JSON, and its maps have distinct keys. -/
structure Proper (s : Step) : Prop where
  headers : ∀ v ∈ s.headers, v.Proper
  request : ∀ v ∈ s.request, v.Proper
  beforeFetch : ∀ v ∈ s.beforeFetch, v.Proper
  condition : s.condition.Proper
  distinct : (keys s.options).Nodup
  options : ∀ m ∈ s.options, m.2.Proper

/-- What the fields of a document give for a step. -/
structure ReadFrom (format : Format) (fields : List (String × Data)) (s : Step) : Prop where
  url : requiredText? fields "url" = some s.url
  method : requiredText? fields "method" = some s.method
  headers : ∃ d, once? fields "headers" = some d ∧ optionalJson? d = some s.headers
  request : ∃ d, once? fields "request" = some d ∧ optionalJson? d = some s.request
  beforeFetch : ∃ d, once? fields "beforeFetch" = some d ∧ optionalJson? d = some s.beforeFetch
  condition : ∃ d, once? fields "condition" = some (some d) ∧
    ConditionTable.ofData? format d = some s.condition
  hidesError : ∃ d, once? fields "shouldHideError" = some d ∧ flagField? d = some s.hidesError
  continuesOnError : ∃ d, once? fields "shouldContinueNextApiOnError" = some d ∧
    flagField? d = some s.continuesOnError
  options : options? fields = some s.options

variable {s : Step}

theorem ofData?_eq_some_iff {format : Format} {d : Data} :
    ofData? format d = some s ↔ ∃ fields, fields? d = some fields ∧ ReadFrom format fields s := by
  simp only [ofData?, ↓do_eq_some_iff, Option.pure_def, Option.some.injEq]
  constructor
  · rintro ⟨fields, found, url, isUrl, method, isMethod, h, oneH, headers, isHeaders, r, oneR,
      request, isRequest, b, oneB, before, isBefore, c, oneC, c', rfl, condition, isCondition,
      e, oneE, hides, isHides, n, oneN, continues, isContinues, options, areOptions, rfl⟩
    exact ⟨fields, found, isUrl, isMethod, ⟨h, oneH, isHeaders⟩, ⟨r, oneR, isRequest⟩,
      ⟨b, oneB, isBefore⟩, ⟨c', oneC, isCondition⟩, ⟨e, oneE, isHides⟩, ⟨n, oneN, isContinues⟩,
      areOptions⟩
  · rintro ⟨fields, found, url, method, ⟨h, oneH, headers⟩, ⟨r, oneR, request⟩,
      ⟨b, oneB, before⟩, ⟨c, oneC, condition⟩, ⟨e, oneE, hides⟩, ⟨n, oneN, continues⟩, options⟩
    exact ⟨fields, found, _, url, _, method, h, oneH, _, headers, r, oneR, _, request, b, oneB, _,
      before, _, oneC, c, rfl, _, condition, e, oneE, _, hides, n, oneN, _, continues, _, options,
      rfl⟩

/-- The members that are no fields of a step. -/
def unknown {α : Type} (members : List (String × α)) : List (String × α) :=
  members.filter fun m => !fieldNames.contains m.1

theorem mem_unknown_iff {α : Type} {members : List (String × α)} {m : String × α} :
    m ∈ unknown members ↔ m ∈ members ∧ m.1 ∉ fieldNames := by
  simp [unknown]

theorem options?_eq_some_iff {fields : List (String × Data)} {options : Members} :
    options? fields = some options ↔
      ∃ given, readNamed (Data.toJson? true) (unknown fields) = some given ∧
        options = insertMembers [] given := by
  rw [options?, do_eq_some_iff]
  simp only [Option.pure_def, Option.some.injEq, eq_comm (a := options)]
  rfl

theorem readNamed_unknown {members : Members} (proper : ∀ m ∈ unknown members, m.2.Proper) :
    readNamed (Data.toJson? true) (unknown (Document.written members)) = some (unknown members) := by
  have apart : unknown (Document.written members) = Document.written (unknown members) :=
    List.filter_map
  rw [apart, Document.written, readNamed_map, readNamed_eq_self_iff]
  exact fun m listed => Data.toJson?_ofJson true m.2 (proper m listed)

theorem properMembers_of_options? {fields : List (String × Data)} {options : Members}
    (read : options? fields = some options) :
    (keys options).Nodup ∧ ∀ m ∈ options, m.2.Proper := by
  obtain ⟨given, found, rfl⟩ := options?_eq_some_iff.mp read
  refine ⟨nodup_keys_insertMembers (show (keys []).Nodup from List.nodup_nil) given, ?_⟩
  intro m listed
  rcases mem_insertMembers listed with absent | new
  · cases absent
  · obtain ⟨d, value⟩ := exists_of_mem_readNamed found new
    exact Data.proper_of_toJson? true d m.2 value

theorem proper_of_ofData? {format : Format} {d : Data} (read : ofData? format d = some s) :
    s.Proper := by
  obtain ⟨fields, _, given⟩ := ofData?_eq_some_iff.mp read
  obtain ⟨_, _, headers⟩ := given.headers
  obtain ⟨_, _, request⟩ := given.request
  obtain ⟨_, _, beforeFetch⟩ := given.beforeFetch
  obtain ⟨_, _, condition⟩ := given.condition
  obtain ⟨distinct, options⟩ := properMembers_of_options? given.options
  exact {
    headers := Document.proper_of_optionalJson? headers
    request := Document.proper_of_optionalJson? request
    beforeFetch := Document.proper_of_optionalJson? beforeFetch
    condition := ConditionTable.proper_of_ofData? condition
    distinct := distinct
    options := options }

end Step

namespace StepMap

theorem steps_ofList (steps : List (String × Step)) :
    (ofList steps).steps = insertMembers [] steps := by
  have grow (m : StepMap) : (steps.foldl (fun m s => m.insert s.1 s.2) m).steps =
      insertMembers m.steps steps := by
    induction steps generalizing m with
    | nil => rfl
    | cons first rest ih => exact ih (m.insert first.1 first.2)
  exact grow empty

theorem ofIndexMap_insert (m : IndexMap Step) (name : String) (s : Step) :
    ofIndexMap (m.insert name s) = (ofIndexMap m).insert name s := by
  simp only [ofIndexMap, IndexMap.insert, insert, putAt_eq_insertMember]

/-- Both maps keep a repeated name where it is. -/
theorem ofIndexMap_ofList (steps : List (String × Step)) :
    ofIndexMap (.ofList steps) = ofList steps := by
  have grow (m : IndexMap Step) : ofIndexMap (steps.foldl (fun m e => m.insert e.1 e.2) m) =
      steps.foldl (fun m s => m.insert s.1 s.2) (ofIndexMap m) := by
    induction steps generalizing m with
    | nil => rfl
    | cons first rest ih =>
      rw [List.foldl_cons, List.foldl_cons, ← ofIndexMap_insert]
      exact ih (m.insert first.1 first.2)
  exact grow .empty

theorem proper_of_ofData? {format : Format} {d : Data} {m : StepMap}
    (read : ofData? format d = some m) : ∀ entry ∈ m.steps, entry.2.Proper := by
  obtain ⟨fields, _, read⟩ := do_eq_some_iff.mp read
  obtain ⟨steps, found, made⟩ := do_eq_some_iff.mp read
  obtain rfl := Option.some.inj made
  intro entry listed
  rw [ofIndexMap_ofList, steps_ofList] at listed
  rcases mem_insertMembers listed with absent | new
  · cases absent
  · obtain ⟨d, value⟩ := exists_of_mem_readNamed found new
    exact Step.proper_of_ofData? value

end StepMap

namespace Workflow

/-- All values of a workflow are values of JSON, and its maps have distinct keys. -/
def Proper (w : Workflow) : Prop := ∀ entry ∈ w.steps.steps, entry.2.Proper

/-- Whatever a document holds, the workflow that is read from it is proper. -/
theorem proper_of_ofData? {format : Format} {d : Data} {w : Workflow}
    (read : ofData? format d = some w) : w.Proper := by
  obtain ⟨fields, _, read⟩ := do_eq_some_iff.mp read
  obtain ⟨named, _, read⟩ := do_eq_some_iff.mp read
  -- A name that is left out is read like one that is given.
  cases named with
  | none | some =>
    obtain ⟨name, _, read⟩ := do_eq_some_iff.mp read
    obtain ⟨_, _, read⟩ := do_eq_some_iff.mp read
    obtain ⟨description, _, read⟩ := do_eq_some_iff.mp read
    obtain ⟨_, _, read⟩ := do_eq_some_iff.mp read
    obtain ⟨d, _, read⟩ := do_eq_some_iff.mp read
    obtain ⟨steps, found, made⟩ := do_eq_some_iff.mp read
    obtain rfl := Option.some.inj made
    exact StepMap.proper_of_ofData? found

theorem proper_of_load {text : String} {w : Workflow} (loaded : load text = .ok w) : w.Proper := by
  obtain ⟨d, _, given⟩ := Option.bind_eq_some_iff.mp (load_ok_iff.mp loaded).1
  exact proper_of_ofData? given

end Workflow

end HttpWorkflow
