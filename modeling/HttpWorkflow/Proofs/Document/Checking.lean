import HttpWorkflow.Document.Load
import Mathlib.Data.List.Basic

/-! Which workflows a document may hold.

A document is refused when it does not read as a workflow, when the workflow has no step, and when
a step lacks its name, its URL or its method.
-/

set_option autoImplicit false

namespace HttpWorkflow

/-- There are steps, and each has a name, a URL and a method. -/
structure Workflow.Sound (w : Workflow) : Prop where
  nonempty : w.steps.steps ≠ []
  named : ∀ s ∈ w.steps.steps, s.1 ≠ ""
  url : ∀ s ∈ w.steps.steps, s.2.url ≠ ""
  method : ∀ s ∈ w.steps.steps, s.2.method ≠ ""

theorem Step.check_ok_iff {s : Step} {name : String} :
    s.check name = .ok () ↔ name ≠ "" ∧ s.url ≠ "" ∧ s.method ≠ "" := by
  by_cases unnamed : name = ""
  · simp [check, unnamed]
  by_cases noUrl : s.url = ""
  · simp [check, unnamed, noUrl]
  by_cases noMethod : s.method = ""
  · simp [check, unnamed, noUrl, noMethod]
  · simp [check, unnamed, noUrl, noMethod]

theorem forM_ok_iff {α ε : Type} {f : α → Except ε Unit} {xs : List α} :
    xs.forM f = .ok () ↔ ∀ x ∈ xs, f x = .ok () := by
  induction xs with
  | nil => exact ⟨fun _ x listed => absurd listed List.not_mem_nil, fun _ => rfl⟩
  | cons x rest ih =>
    rw [List.forall_mem_cons, ← ih]
    change (f x >>= fun _ => rest.forM f) = _ ↔ _
    cases f x with
    | error e => simp [bind, Except.bind]
    | ok done => simp [bind, Except.bind]

theorem Workflow.check_ok_iff {w : Workflow} : w.check = .ok () ↔ w.Sound := by
  unfold check
  cases steps : w.steps.steps with
  | nil =>
    have empty : w.steps.isEmpty = true := by simp [StepMap.isEmpty, steps]
    rw [if_pos empty]
    constructor
    · intro passed
      cases passed
    · intro sound
      exact absurd steps sound.nonempty
  | cons first rest =>
    have filled : ¬w.steps.isEmpty = true := by simp [StepMap.isEmpty, steps]
    rw [if_neg filled, ← steps, forM_ok_iff]
    simp only [Step.check_ok_iff]
    constructor
    · intro passed
      refine ⟨by simp [steps], ?_, ?_, ?_⟩
      · exact fun s listed => (passed s listed).1
      · exact fun s listed => (passed s listed).2.1
      · exact fun s listed => (passed s listed).2.2
    · intro sound s listed
      exact ⟨sound.named s listed, sound.url s listed, sound.method s listed⟩

/-- A text is accepted iff it reads as a workflow that is sound. -/
theorem Workflow.load_ok_iff {text : String} {w : Workflow} :
    load text = .ok w ↔
      (Document.Yaml.read? text).bind (ofData? .yaml) = some w ∧ w.Sound := by
  unfold load
  cases (Document.Yaml.read? text).bind (ofData? .yaml) with
  | none => simp
  | some read =>
    rw [← check_ok_iff, Option.some.injEq]
    change (read.check >>= fun _ => pure read) = _ ↔ _
    constructor
    · intro loaded
      cases passed : read.check with
      | error e =>
        rw [passed] at loaded
        cases loaded
      | ok done =>
        rw [passed] at loaded
        cases loaded
        exact ⟨rfl, passed⟩
    · rintro ⟨rfl, passed⟩
      rw [passed]
      rfl

end HttpWorkflow
