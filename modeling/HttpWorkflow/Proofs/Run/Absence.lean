import HttpWorkflow.Proofs.Members
import HttpWorkflow.Proofs.Run.Log
import Mathlib

/-! Templates that count as absent.

A step may leave out its headers, its payload, its `beforeFetch` and what its entries say. Each of
these places has its own test for a template that is there but counts as absent. A step map without
such templates runs like the one it was made from, over every transport and every printer, so that
they may as well be left out. The one exception are headers that are the empty string: a string of
headers is read as JSON text, and the empty text is none.
-/

set_option autoImplicit false

namespace HttpWorkflow

open ConditionEntry (present)

section Slots

/-- The places of a step for templates that may be left out. -/
inductive TemplateSlot where
  | headers
  | request
  | beforeFetch
  /-- The redirect of the entry of this key. -/
  | redirect (key : String)
  /-- The message of the entry of this key. -/
  | message (key : String)
  deriving DecidableEq

/-- Change the entry of a key, if the table has one. -/
def ConditionTable.adjust (t : ConditionTable) (key : String)
    (change : ConditionEntry → ConditionEntry) : ConditionTable :=
  { t with entries := t.entries.map fun e => (e.1, if e.1 = key then change e.2 else e.2) }

/-- The step with this template, or without one, in a slot. -/
def Step.fill (s : Step) (template : Option Json) : TemplateSlot → Step
  | .headers => { s with headers := template }
  | .request => { s with request := template }
  | .beforeFetch => { s with beforeFetch := template }
  | .redirect key =>
    { s with condition := s.condition.adjust key fun e => { e with redirect := template } }
  | .message key =>
    { s with condition := s.condition.adjust key fun e => { e with message := template } }

def StepMap.mapSteps (m : StepMap) (change : String → Step → Step) : StepMap where
  steps := m.steps.map fun s => (s.1, change s.1 s.2)
  distinct := by
    rw [keys_map_values]
    exact m.distinct

/-- Fill a slot of the step of this name. -/
def StepMap.fill (m : StepMap) (name : String) (slot : TemplateSlot) (template : Option Json) :
    StepMap :=
  m.mapSteps fun n s => if n = name then s.fill template slot else s

end Slots

section Pruned

/-- A headers template that is present. A string is always read. -/
def Step.presentHeaders : Option Json → Option Json
  | some (.string text) => some (.string text)
  | template => present template

def ConditionEntry.pruned (e : ConditionEntry) : ConditionEntry :=
  { e with redirect := present e.redirect, message := present e.message }

def ConditionTable.pruned (t : ConditionTable) : ConditionTable :=
  { t with entries := t.entries.map fun e => (e.1, e.2.pruned) }

/-- The step without the templates that count as absent. -/
def Step.pruned (s : Step) : Step :=
  { s with
    headers := Step.presentHeaders s.headers
    request := present s.request
    beforeFetch := present s.beforeFetch
    condition := s.condition.pruned }

def StepMap.pruned (m : StepMap) : StepMap := m.mapSteps fun _ s => s.pruned

end Pruned

section Table

theorem present_of_falsy {v : Json} (falsy : v.isFalsy = true) : present (some v) = none := by
  rw [present, Option.filter_some, falsy]
  rfl

theorem present_of_truthy {v : Json} (truthy : v.isFalsy = false) : present (some v) = some v := by
  rw [present, Option.filter_some, truthy]
  rfl

theorem present_present (template : Option Json) :
    present (present template) = present template := by
  cases template with
  | none => rfl
  | some v =>
    cases falsy : v.isFalsy with
    | true =>
      rw [present_of_falsy falsy]
      rfl
    | false => rw [present_of_truthy falsy, present_of_truthy falsy]

theorem ConditionEntry.action?_pruned (e : ConditionEntry) (scope : Scope) (evaluator : Evaluator) :
    e.pruned.action? scope evaluator = e.action? scope evaluator := by
  simp only [action?, pruned, present_present]

theorem ConditionEntry.printed_pruned (e : ConditionEntry) (scope : Scope)
    (evaluator : Evaluator) : e.pruned.printed scope evaluator = e.printed scope evaluator := by
  simp only [printed, pruned, present_present]

variable (t : ConditionTable)

theorem ConditionTable.get?_pruned (key : String) :
    t.pruned.get? key = (t.get? key).map ConditionEntry.pruned :=
  lookup_map_values ConditionEntry.pruned t.entries key

theorem ConditionTable.isError_pruned (extracted : Option String) (status : Nat) :
    t.pruned.isError extracted status = t.isError extracted status := by
  cases extracted with
  | none =>
    simp only [isError, forStatus?, get?_pruned]
    cases t.get? (toString status) <;> rfl
  | some key =>
    simp only [isError, get?_pruned]
    cases t.get? key <;> rfl

theorem ConditionTable.select?_pruned (extracted : Option String) (status : Option Nat) :
    t.pruned.select? extracted status =
      (t.select? extracted status).map ConditionEntry.pruned := by
  have found : t.pruned.get? = fun key => (t.get? key).map ConditionEntry.pruned :=
    funext t.get?_pruned
  have ruled : t.pruned.forStatus? = fun status =>
      (t.forStatus? status).map ConditionEntry.pruned :=
    funext fun status => t.get?_pruned (toString status)
  simp only [select?, fallback?, found, ruled, Option.map_or, Option.map_bind, Function.comp_def]

end Table

section Evaluation

variable (s : Step) (scope : Scope) (evaluator : Evaluator)

theorem Evaluator.execute_of_falsy {template : Json} (falsy : template.isFalsy = true) :
    evaluator.execute template scope = template := if_pos falsy

theorem Step.prepareScope_pruned :
    s.pruned.prepareScope scope evaluator = s.prepareScope scope evaluator := by
  simp only [prepareScope, pruned]
  cases s.beforeFetch with
  | none => rfl
  | some v =>
    cases falsy : v.isFalsy with
    | false => rw [present_of_truthy falsy]
    | true =>
      simp only [present_of_falsy falsy, evaluator.plain.execute_of_falsy scope falsy]
      -- What counts as absent is no object.
      cases v with
      | object members => cases falsy
      | _ => rfl

theorem Step.presentHeaders_of_truthy {v : Json} (truthy : v.isFalsy = false) :
    presentHeaders (some v) = some v := by
  cases v with
  | string text => rfl
  | _ => exact present_of_truthy truthy

section Headers

variable {v : Json} (falsy : v.isFalsy = true) (written : v ≠ .string "")
include falsy written

theorem Step.presentHeaders_of_falsy : presentHeaders (some v) = none := by
  cases v with
  | string text => exact absurd (congrArg Json.string (String.isEmpty_iff.mp falsy)) written
  | _ => exact present_of_falsy falsy

theorem Request.headersOf_of_falsy : headersOf v = .ok [] := by
  cases v with
  | object members => cases falsy
  | string text => exact absurd (congrArg Json.string (String.isEmpty_iff.mp falsy)) written
  | _ => simp only [headersOf, falsy, if_true]

end Headers

theorem Step.headersOf_presentHeaders (template : Option Json) :
    Request.headersOf (slot (presentHeaders template) scope evaluator) =
      Request.headersOf (slot template scope evaluator) := by
  cases template with
  | none => rfl
  | some v =>
    cases falsy : v.isFalsy with
    | false => rw [presentHeaders_of_truthy falsy]
    | true =>
      by_cases blank : v = .string ""
      · rw [blank]
        rfl
      · simp only [presentHeaders_of_falsy falsy blank, slot,
          evaluator.execute_of_falsy scope falsy, Request.headersOf_of_falsy falsy blank]
        rfl

theorem Request.build_congr_headers {headers headers' : Json}
    (same : headersOf headers = headersOf headers') (method : Method) (url payload : Json)
    (options : Members) :
    build method url headers payload options = build method url headers' payload options := by
  simp only [build, same]

/-- Payloads that count as absent make the same request. -/
theorem Request.build_of_absent {payload payload' : Json} (absent : payload.isFalsy = true)
    (absent' : payload'.isFalsy = true) (method : Method) (url headers : Json) (options : Members) :
    build method url headers payload options = build method url headers payload' options := by
  simp only [build, absent, absent', if_true]

theorem Step.build_present (template : Option Json) (method : Method) (url headers : Json)
    (options : Members) :
    Request.build method url headers (slot (present template) scope evaluator) options =
      Request.build method url headers (slot template scope evaluator) options := by
  cases template with
  | none => rfl
  | some v =>
    cases falsy : v.isFalsy with
    | false => rw [present_of_truthy falsy]
    | true =>
      apply Request.build_of_absent
      · rw [present_of_falsy falsy]
        rfl
      · rw [slot, evaluator.execute_of_falsy scope falsy, falsy]

theorem Step.toRequest_pruned (method : Method) :
    s.pruned.toRequest method scope evaluator = s.toRequest method scope evaluator := by
  simp only [toRequest, pruned]
  rw [Request.build_congr_headers (headersOf_presentHeaders scope evaluator s.headers),
    build_present]

theorem Step.onError_pruned (extracted : Option String) (status : Option Nat) :
    s.pruned.onError extracted status scope evaluator =
      s.onError extracted status scope evaluator := by
  simp only [onError, pruned, ConditionTable.select?_pruned, Option.bind_map, Function.comp_def,
    ConditionEntry.action?_pruned]

theorem Step.settle_pruned (name : String) (p : Progress) (outcome : Outcome) :
    s.pruned.settle name scope evaluator p outcome = s.settle name scope evaluator p outcome := by
  have judged (extracted : Option String) (status : Nat) :
      s.pruned.condition.isError extracted status = s.condition.isError extracted status :=
    s.condition.isError_pruned extracted status
  have searched (after : Scope) :
      s.pruned.condition.matchKey? after = s.condition.matchKey? after := rfl
  cases outcome <;> simp only [settle, searched, judged, onError_pruned]

end Evaluation

section Printing

variable (s : Step) (scope : Scope) (evaluator : Evaluator)

/-- What counts as absent prints nothing. -/
theorem Evaluator.printed_of_falsy {template : Json} (falsy : template.isFalsy = true) :
    evaluator.printed template scope = "" := if_pos falsy

theorem Evaluator.printed_present (template : Option Json) :
    (present template).elim "" (evaluator.printed · scope) =
      template.elim "" (evaluator.printed · scope) := by
  cases template with
  | none => rfl
  | some v =>
    cases falsy : v.isFalsy with
    | false => rw [present_of_truthy falsy]
    | true => exact present_of_falsy falsy ▸ (evaluator.printed_of_falsy scope falsy).symm

theorem Evaluator.printed_presentHeaders (template : Option Json) :
    (Step.presentHeaders template).elim "" (evaluator.printed · scope) =
      template.elim "" (evaluator.printed · scope) := by
  unfold Step.presentHeaders
  split
  · rfl
  · exact evaluator.printed_present scope template

theorem Step.printedBefore_pruned :
    s.pruned.printedBefore scope evaluator = s.printedBefore scope evaluator :=
  evaluator.plain.printed_present scope s.beforeFetch

theorem Step.printedRequest_pruned :
    s.pruned.printedRequest scope evaluator = s.printedRequest scope evaluator := by
  simp only [printedRequest, pruned, Evaluator.printed_present, Evaluator.printed_presentHeaders]

theorem Step.printedOnError_pruned (extracted : Option String) (status : Option Nat) :
    s.pruned.printedOnError extracted status scope evaluator =
      s.printedOnError extracted status scope evaluator := by
  simp only [printedOnError, pruned, ConditionTable.select?_pruned, Option.elim_map,
    Function.comp_def, ConditionEntry.printed_pruned]

theorem Step.printedAfter_pruned (name : String) (outcome : Outcome) :
    s.pruned.printedAfter name scope evaluator outcome =
      s.printedAfter name scope evaluator outcome := by
  have judged (extracted : Option String) (status : Nat) :
      s.pruned.condition.isError extracted status = s.condition.isError extracted status :=
    s.condition.isError_pruned extracted status
  have searched (after : Scope) :
      s.pruned.condition.matchKey? after = s.condition.matchKey? after := rfl
  cases outcome <;> simp only [printedAfter, searched, judged, printedOnError_pruned]

end Printing

section Run

variable {m : Type → Type} [Monad m] (transport : Transport m) (print : Printer m)

theorem runStep_pruned (evaluator : Evaluator) (input : Scope) (name : String) (s : Step)
    (p : Progress) :
    runStep transport evaluator input name s.pruned p print =
      runStep transport evaluator input name s p print := by
  have verb : s.pruned.verb? = s.verb? := rfl
  simp only [runStep, fetch, verb, Step.prepareScope_pruned, Step.toRequest_pruned,
    Step.settle_pruned, Step.printedBefore_pruned, Step.printedRequest_pruned,
    Step.printedAfter_pruned]
  rfl

theorem runSteps_pruned (evaluator : Evaluator) (input : Scope) (steps : List (String × Step))
    (p : Progress) :
    runSteps transport evaluator input (steps.map fun s => (s.1, s.2.pruned)) p print =
      runSteps transport evaluator input steps p print := by
  induction steps generalizing p with
  | nil => rfl
  | cons first rest ih => simp only [List.map_cons, runSteps, runStep_pruned, ih]

/-- Templates that count as absent may be left out. -/
theorem run_pruned (config : Config) (steps : StepMap) (input : Members) (helpers : Helpers) :
    run transport config steps.pruned input helpers print =
      run transport config steps input helpers print := by
  have walked (evaluator : Evaluator) (scope : Scope) :
      runSteps transport evaluator scope steps.pruned.steps {} print =
        runSteps transport evaluator scope steps.steps {} print :=
    runSteps_pruned transport print evaluator scope steps.steps {}
  simp only [run, walked]

end Run

section Fill

theorem ConditionTable.pruned_adjust_congr {change change' : ConditionEntry → ConditionEntry}
    (same : ∀ e, (change e).pruned = (change' e).pruned) (t : ConditionTable) (key : String) :
    (t.adjust key change).pruned = (t.adjust key change').pruned := by
  simp only [pruned, adjust, List.map_map, Function.comp_def, apply_ite ConditionEntry.pruned, same]

theorem StepMap.pruned_mapSteps_congr {change change' : String → Step → Step}
    (same : ∀ name s, (change name s).pruned = (change' name s).pruned) (steps : StepMap) :
    (steps.mapSteps change).pruned = (steps.mapSteps change').pruned := by
  simp only [pruned, mapSteps, List.map_map, Function.comp_def, same]

variable {v : Json} {slot : TemplateSlot} (falsy : v.isFalsy = true)
  (read : ¬(slot = .headers ∧ v = .string ""))
include falsy read

/-- Pruning takes such a template away. -/
theorem Step.pruned_fill (s : Step) :
    (s.fill (some v) slot).pruned = (s.fill none slot).pruned := by
  have absent : present (some v) = present none := present_of_falsy falsy
  cases slot with
  | headers =>
    have written : v ≠ .string "" := fun blank => read ⟨rfl, blank⟩
    have absentHeaders : presentHeaders (some v) = presentHeaders none :=
      presentHeaders_of_falsy falsy written
    simp only [fill, pruned, absentHeaders]
  | request => simp only [fill, pruned, absent]
  | beforeFetch => simp only [fill, pruned, absent]
  | redirect key =>
    have same (e : ConditionEntry) :
        { e with redirect := some v }.pruned = { e with redirect := none }.pruned := by
      simp only [ConditionEntry.pruned, absent]
    simp only [fill, pruned, ConditionTable.pruned_adjust_congr same]
  | message key =>
    have same (e : ConditionEntry) :
        { e with message := some v }.pruned = { e with message := none }.pruned := by
      simp only [ConditionEntry.pruned, absent]
    simp only [fill, pruned, ConditionTable.pruned_adjust_congr same]

theorem StepMap.pruned_fill (steps : StepMap) (name : String) :
    (steps.fill name slot (some v)).pruned = (steps.fill name slot none).pruned := by
  apply pruned_mapSteps_congr
  intro n s
  split
  · exact s.pruned_fill falsy read
  · rfl

/-- In its slot such a template has no effect on a run, whatever the transport and the printer
do. -/
theorem run_fill_of_falsy {m : Type → Type} [Monad m] (transport : Transport m)
    (print : Printer m) (config : Config) (steps : StepMap) (name : String) (input : Members)
    (helpers : Helpers) :
    run transport config (steps.fill name slot (some v)) input helpers print =
      run transport config (steps.fill name slot none) input helpers print := by
  rw [← run_pruned, StepMap.pruned_fill falsy read, run_pruned]

end Fill

section Blank

/-- One call whose headers may be filled in. -/
def account : StepMap where
  steps := [("profile", { url := "/profile", method := "GET" })]
  distinct := by decide

def accountAnswers : Answers := fun _ _ => some ⟨200, "\x7b\x7d"⟩

theorem account_blank : runLogged accountAnswers {} (account.fill "profile" .headers
    (some (.string ""))) [] {} = (.ok ⟨[], [], [⟨"profile", .ran, none⟩]⟩, []) := by
  rw [runLogged_eq]
  cbv

theorem account_bare : runLogged accountAnswers {} (account.fill "profile" .headers none) [] {} =
    (.ok ⟨[("profile", .object [])], [], [⟨"profile", .ran, some 200⟩]⟩,
      [⟨.get, "/profile", [], none, []⟩]) := by
  rw [runLogged_eq]
  cbv

end Blank

/-- A template that counts as absent may stand in a slot or be left out, for the requests and the
result of every run alike, except for headers that are the empty string. -/
theorem runLogged_fill_iff {v : Json} (falsy : v.isFalsy = true) (slot : TemplateSlot) :
    (∀ answers config (steps : StepMap) name input helpers,
      runLogged answers config (steps.fill name slot (some v)) input helpers =
        runLogged answers config (steps.fill name slot none) input helpers) ↔
      ¬(slot = .headers ∧ v = .string "") := by
  constructor
  · rintro same ⟨rfl, rfl⟩
    have alike := same accountAnswers {} account "profile" [] {}
    rw [account_blank, account_bare] at alike
    cases alike
  · intro read answers config steps name input helpers
    rw [runLogged, runLogged, run_fill_of_falsy falsy read]

theorem zero_request_left_out :
    (Json.int 0).isFalsy = true ∧
      ∀ answers, runLogged answers {} (account.fill "profile" .request (some (.int 0))) [] {} =
        runLogged answers {} (account.fill "profile" .request none) [] {} := by
  have falsy : (Json.int 0).isFalsy = true := rfl
  have read : ¬(TemplateSlot.request = .headers ∧ Json.int 0 = .string "") := by
    rintro ⟨other, _⟩
    cases other
  exact ⟨falsy, fun answers =>
    (runLogged_fill_iff falsy .request).mpr read answers {} account "profile" [] {}⟩

/-- Blank headers keep the request from being made, and the step fails without an action. -/
theorem blank_headers_send_nothing :
    (Json.string "").isFalsy = true ∧
      runLogged accountAnswers {} (account.fill "profile" .headers (some (.string ""))) [] {} =
        (.ok ⟨[], [], [⟨"profile", .ran, none⟩]⟩, []) ∧
      runLogged accountAnswers {} (account.fill "profile" .headers none) [] {} =
        (.ok ⟨[("profile", .object [])], [], [⟨"profile", .ran, some 200⟩]⟩,
          [⟨.get, "/profile", [], none, []⟩]) :=
  ⟨rfl, account_blank, account_bare⟩

end HttpWorkflow
