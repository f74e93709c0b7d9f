import HttpWorkflow.Proofs.Document.RoundTrip
import HttpWorkflow.Proofs.Members.LastWins

/-! Step maps, made in different ways.

Steps that are put in one after another, steps that are added to a workflow, and the members of an
object in a document give the same map: a repeated name keeps its first position and its last step.
-/

set_option autoImplicit false

namespace HttpWorkflow.StepMap

open Document (Data Format fields?)

/-- The document is an object with these names and steps as its members, in this order. -/
def Describes (format : Format) (d : Data) (pairs : List (String × Step)) : Prop :=
  ∃ fields, fields? d = some fields ∧
    List.Forall₂ (fun f p => f.1 = p.1 ∧ Step.ofData? format f.2 = some p.2) fields pairs

/-- A map is read from a document exactly when each of its members is read as a step. -/
theorem ofData?_eq_some_iff {format : Format} {d : Data} {m : StepMap} :
    ofData? format d = some m ↔ ∃ pairs, Describes format d pairs ∧ m = ofList pairs := by
  constructor
  · intro read
    obtain ⟨fields, found, read⟩ := do_eq_some_iff.mp read
    obtain ⟨pairs, steps, made⟩ := do_eq_some_iff.mp read
    obtain rfl := Option.some.inj made
    exact ⟨pairs, ⟨fields, found, readNamed_eq_some_iff.mp steps⟩, ofIndexMap_ofList pairs⟩
  · rintro ⟨pairs, ⟨fields, found, steps⟩, rfl⟩
    refine do_eq_some_iff.mpr ⟨fields, found, do_eq_some_iff.mpr ⟨pairs, ?_, ?_⟩⟩
    · exact readNamed_eq_some_iff.mpr steps
    · rw [ofIndexMap_ofList]
      rfl

/-- Steps that come back from a document on their own are described by the object of them all. -/
theorem describes_written {pairs : List (String × Step)}
    (stored : ∀ p ∈ pairs, p.2.Proper ∧ p.2.Storable) (format : Format) :
    Describes format (.ofJson (.object (pairs.map fun p => (p.1, p.2.toJson)))) pairs := by
  refine ⟨_, Document.fields?_ofJson _, ?_⟩
  rw [Document.written, List.map_map, List.forall₂_map_left_iff, List.forall₂_same]
  intro p listed
  obtain ⟨proper, storable⟩ := stored p listed
  exact ⟨rfl, (Step.ofData?_toJson_iff proper format).mpr storable⟩

theorem steps_foldl_add (w : Workflow) (pairs : List (String × Step)) :
    (pairs.foldl (fun w p => w.add p.1 p.2) w).steps =
      pairs.foldl (fun m p => m.insert p.1 p.2) w.steps := by
  induction pairs generalizing w with
  | nil => rfl
  | cons first rest ih => exact ih (w.add first.1 first.2)

theorem lastWins_ofList (pairs : List (String × Step)) : LastWins pairs (ofList pairs).steps :=
  steps_ofList pairs ▸ lastWins_insertMembers pairs

/-- However the steps get into a map, it has their distinct names in the order in which they come up
first, and under each name the step that is given last. -/
theorem made_alike (pairs : List (String × Step)) :
    let m := pairs.foldl (fun m p => m.insert p.1 p.2) empty
    (∀ name description,
      (pairs.foldl (fun w p => w.add p.1 p.2) ({ name, description } : Workflow)).steps = m) ∧
    (∀ format d, Describes format d pairs → ofData? format d = some m) ∧
    m.names.Nodup ∧ m.names = (keys pairs).eraseDups ∧
    m.size = (keys pairs).eraseDups.length ∧
    (∀ name, m.get? name = latest? pairs name) ∧
    (∀ name, m.get? name = none ↔ name ∉ keys pairs) ∧
    keys m.steps = m.names ∧ ∀ entry ∈ m.steps, latest? pairs entry.1 = some entry.2 := by
  intro m
  have made : LastWins pairs m.steps := lastWins_ofList pairs
  refine ⟨?_, ?_, m.distinct, made.names, ?_, made.values, ?_, rfl, ?_⟩
  · intro name description
    exact steps_foldl_add { name, description } pairs
  · intro format d described
    exact ofData?_eq_some_iff.mpr ⟨pairs, described, rfl⟩
  · rw [← made.names, keys, List.length_map]
    rfl
  · intro name
    rw [← latest?_eq_none_iff, ← made.values]
    rfl
  · intro entry listed
    rw [← made.values]
    exact (lookup_eq_some_iff_mem m.distinct).mpr listed

/-- A login that is given a second time, after another step. -/
def revised : List (String × Step) :=
  [("login", { url := "/login", method := "POST" }),
    ("profile", { url := "/profile", method := "GET", continuesOnError := true }),
    ("login", { url := "/session", method := "POST", options := [("timeout", .int 500)] })]

/-- The object with these members, of which two have one name. -/
def revisedDocument : Data := .ofJson (.object (revised.map fun p => (p.1, p.2.toJson)))

theorem revised_stored : ∀ p ∈ revised, p.2.Proper ∧ p.2.Storable := by
  intro p listed
  simp only [revised, List.mem_cons, List.not_mem_nil, or_false] at listed
  rcases listed with rfl | rfl | rfl
  all_goals
    refine ⟨?_, ?_⟩
    · constructor <;> simp [keys, Json.Proper, ConditionTable.Proper.mk]
    · constructor <;> simp [keys, Step.fieldNames, ConditionTable.Storable.mk]

theorem revised_alike :
    Describes .yaml revisedDocument revised ∧
      ofData? .yaml revisedDocument = some (ofList revised) ∧
      (ofList revised).names = ["login", "profile"] ∧
      ((ofList revised).get? "login").map (·.url) = some "/session" := by
  have described : Describes .yaml revisedDocument revised := describes_written revised_stored .yaml
  exact ⟨described, (made_alike revised).2.1 .yaml _ described, by decide, by decide⟩

end HttpWorkflow.StepMap
