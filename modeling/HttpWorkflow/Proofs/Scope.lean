import HttpWorkflow.Proofs.Members
import HttpWorkflow.Run

/-! What a scope holds, whatever the order of its fields.

A scope is a list of fields, but templates, expressions and conditions only ask it for the value of
a name. So scopes that give every name the same value render the same texts, make the same requests
and give the same actions, and they stay that way when bodies, responses and `beforeFetch` are put
into them.
-/

set_option autoImplicit false

namespace HttpWorkflow

namespace Scope

@[simp] theorem get?_set (scope : Scope) (key name : String) (value : Json) :
    (scope.set key value).get? name = if name = key then some value else scope.get? name :=
  lookup_insertMember scope.fields key name value

/-- Every name has the same value in both scopes. -/
def Same (s t : Scope) : Prop := ∀ name, s.get? name = t.get? name

variable {s t : Scope}

theorem Same.refl (s : Scope) : s.Same s := fun _ => rfl

theorem Same.set (same : s.Same t) (key : String) (value : Json) :
    (s.set key value).Same (t.set key value) := by
  intro name
  rw [get?_set, get?_set, same]

theorem Same.withResponse (same : s.Same t) (step : String) (body : Json) :
    (s.withResponse step body).Same (t.withResponse step body) := by
  unfold Scope.withResponse
  simp only [same "api"]
  exact lookup_insertMembers_congr (same.set "api" _) (lifted body)

theorem Same.lookup (same : s.Same t) : s.lookup = t.lookup := by
  funext path
  unfold Scope.lookup
  cases Path.segments path with
  | nil => rfl
  | cons first rest => simp only [same first]

end Scope

variable {s t : Scope}

theorem Template.render_congr (same : s.Same t) (text : String) :
    render text s = render text t := by
  have found : resolve? s = resolve? t := by
    funext fragment
    simp only [resolve?, same.lookup]
  simp only [render, substitute, found]

theorem Evaluator.execute_congr (same : s.Same t) (evaluator : Evaluator) (template : Json) :
    evaluator.execute template s = evaluator.execute template t := by
  simp only [execute, Template.renderValue, Template.render_congr same]

theorem ConditionTable.matchKey?_congr (same : s.Same t) (table : ConditionTable) :
    table.matchKey? s = table.matchKey? t := by
  simp only [matchKey?, Template.render_congr same]

theorem Step.toRequest_congr (same : s.Same t) (step : Step) (method : Method)
    (evaluator : Evaluator) :
    step.toRequest method s evaluator = step.toRequest method t evaluator := by
  simp only [toRequest, slot, Evaluator.execute_congr same]

section Plain

variable {evaluator evaluator' : Evaluator} (plain : evaluator.plain = evaluator'.plain)
include plain

/-- What an entry says depends on the plain evaluator only. -/
theorem ConditionEntry.action?_congr (same : s.Same t) (e : ConditionEntry) :
    e.action? s evaluator = e.action? t evaluator' := by
  simp only [action?, plain, Evaluator.execute_congr same]

theorem Step.prepareScope_congr (same : s.Same t) (step : Step) :
    (step.prepareScope s evaluator).Same (step.prepareScope t evaluator') := by
  unfold prepareScope
  cases step.beforeFetch with
  | none => exact same
  | some template =>
    simp only [plain, Evaluator.execute_congr same]
    split
    · exact same.set _ _
    · exact same

end Plain

end HttpWorkflow
