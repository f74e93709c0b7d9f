import HttpWorkflow.Proofs.Request.Route
import HttpWorkflow.Proofs.Run.Log
import Mathlib

/-! What a finished run says about its steps.

A history of a chain is a list of visits of its first steps, of which each follows from the ones
before it. The visits of a finished run are such a history. `runLogged_ok_gate` says which steps
ran, what the transport received and what the records hold; `runLogged_ok_contributions` says what
the steps left in the result.
-/

set_option autoImplicit false

namespace HttpWorkflow

section History

variable (answers : Answers) (evaluator : Evaluator) (input : Scope)

/-- Scope, request and response of a visit are those that its past leads to. -/
structure Visit.Follows (past : List Visit) (v : Visit) : Prop where
  scope : v.scope = v.step.prepareScope (input.withBodies (past.filterMap Visit.member?)) evaluator
  request : ∃ method, v.step.verb? = some method ∧
    v.request = (v.step.toRequest method v.scope evaluator).toOption
  response : v.response = v.request.bind (answers (past.filterMap Visit.request))

structure History (steps : List (String × Step)) (visits : List Visit) : Prop where
  taken : visits.map (fun v => (v.name, v.step)) = steps.take visits.length
  follows : ∀ past v later, visits = past ++ v :: later → v.Follows answers evaluator input past

variable {answers evaluator input}

theorem Visit.next_follows (past : List Visit) (name : String) {s : Step} {method : Method}
    (verb : s.verb? = some method) :
    (Visit.next answers evaluator input past name s method).Follows answers evaluator input past :=
  ⟨rfl, ⟨method, verb, rfl⟩, rfl⟩

/-- The visit of a step that has a route and nothing else to be worked out. -/
theorem Visit.next_route {past : List Visit} {bodies : Members} {name : String} {s : Step}
    {method : Method} (route : isRoute s.url = true) (headers : s.headers = none)
    (request : s.request = none) (before : s.beforeFetch = none)
    (known : past.filterMap Visit.member? = bodies) :
    Visit.next answers evaluator input past name s method =
      ⟨name, s, input.withBodies bodies, some ⟨method, s.url, [], none, s.options⟩,
        answers (past.filterMap Visit.request) ⟨method, s.url, [], none, s.options⟩⟩ := by
  simp only [Visit.next, known, Step.prepareScope, before,
    Step.toRequest_route route headers request, Except.toOption, Option.bind_some]

theorem walk_taken (past : List Visit) (rest : List (String × Step)) :
    (walk answers evaluator input past rest).1.map (fun v => (v.name, v.step)) =
      rest.take (walk answers evaluator input past rest).1.length := by
  induction rest generalizing past with
  | nil => rfl
  | cons first rest ih =>
    obtain ⟨name, s⟩ := first
    simp only [walk]
    split
    · split
      · rfl
      · simp only [List.map_cons, List.length_cons, List.take_succ_cons, ih]
        rfl
    · rfl

/-- A visit beyond the past follows from what is before it, and all of that lets it go on. -/
theorem walk_visit {past earlier later : List Visit} {v : Visit} {rest : List (String × Step)}
    (split : (walk answers evaluator input past rest).1 = earlier ++ v :: later) :
    v.Follows answers evaluator input (past ++ earlier) ∧
      (past ++ earlier).all Visit.letsGoOn = true := by
  induction rest generalizing past earlier with
  | nil => simp [walk] at split
  | cons first rest ih =>
    obtain ⟨name, s⟩ := first
    simp only [walk] at split
    split at split
    · next going =>
      split at split
      · simp at split
      · next method verb =>
        cases earlier with
        | nil =>
          obtain ⟨rfl, _⟩ := List.cons.inj split
          rw [List.append_nil]
          exact ⟨Visit.next_follows past name verb, going⟩
        | cons w earlier =>
          obtain ⟨rfl, rest⟩ := List.cons.inj split
          simpa only [List.append_assoc, List.singleton_append] using ih rest
    · simp at split

/-- Without an error, only a visit that does not let the chain go on keeps a step from being due. -/
theorem walk_stopped {past : List Visit} {rest : List (String × Step)}
    (sound : (walk answers evaluator input past rest).2 = none)
    (short : (walk answers evaluator input past rest).1.length < rest.length) :
    (past ++ (walk answers evaluator input past rest).1).all Visit.letsGoOn = false := by
  induction rest generalizing past with
  | nil => simp [walk] at short
  | cons first rest ih =>
    obtain ⟨name, s⟩ := first
    simp only [walk] at sound short ⊢
    split at sound
    · next going =>
      rw [if_pos going] at short ⊢
      cases verb : s.verb? with
      | none => simp [verb] at sound
      | some method =>
        simp only [verb, List.length_cons, Nat.add_lt_add_iff_right] at sound short ⊢
        simpa only [List.append_assoc, List.singleton_append] using ih sound short
    · next halted =>
      rw [if_neg halted, List.append_nil]
      exact Bool.eq_false_iff.mpr halted

/-- One more visit. -/
theorem walk_cons {past later : List Visit} {name : String} {s : Step} {method : Method}
    {v : Visit} {rest : List (String × Step)} {error : Option RunError}
    (going : past.all Visit.letsGoOn = true) (verb : s.verb? = some method)
    (next : Visit.next answers evaluator input past name s method = v)
    (walked : walk answers evaluator input (past ++ [v]) rest = (later, error)) :
    walk answers evaluator input past ((name, s) :: rest) = (v :: later, error) := by
  simp only [walk, going, if_true, verb, next, walked]

theorem walk_halted {past : List Visit} (halted : past.all Visit.letsGoOn = false)
    (rest : List (String × Step)) : walk answers evaluator input past rest = ([], none) := by
  cases rest with
  | nil => rfl
  | cons first rest => simp only [walk, halted, Bool.false_eq_true, if_false]

theorem walk_history {steps : List (String × Step)} {visits : List Visit} {error : Option RunError}
    (walked : walk answers evaluator input [] steps = (visits, error)) :
    History answers evaluator input steps visits := by
  have same : (walk answers evaluator input [] steps).1 = visits := congrArg Prod.fst walked
  constructor
  · exact same ▸ walk_taken [] steps
  · intro past v later split
    exact (walk_visit (same.trans split)).1

theorem History.step_of_visit {steps : List (String × Step)} {visits : List Visit}
    (history : History answers evaluator input steps visits) {i : Nat} {v : Visit}
    (found : visits[i]? = some v) : steps[i]? = some (v.name, v.step) := by
  have bound := (List.getElem?_eq_some_iff.mp found).1
  have same := congrArg (·[i]?) history.taken
  simpa only [List.getElem?_map, found, List.getElem?_take, if_pos bound, Option.map_some] using
    same.symm

theorem History.names {steps : List (String × Step)} {visits : List Visit}
    (history : History answers evaluator input steps visits) :
    visits.map Visit.name = keys (steps.take visits.length) := by
  rw [← history.taken, keys, List.map_map]
  rfl

theorem History.nodup_names {steps : List (String × Step)} {visits : List Visit}
    (history : History answers evaluator input steps visits) (distinct : (keys steps).Nodup) :
    (visits.map Visit.name).Nodup := by
  rw [history.names]
  exact distinct.sublist ((List.take_sublist _ _).map _)

theorem History.step_mem {steps : List (String × Step)} {visits : List Visit}
    (history : History answers evaluator input steps visits) {v : Visit} (visited : v ∈ visits) :
    (v.name, v.step) ∈ steps := by
  have listed : (v.name, v.step) ∈ visits.map (fun v => (v.name, v.step)) :=
    List.mem_map.mpr ⟨v, visited, rfl⟩
  exact List.mem_of_mem_take (history.taken ▸ listed)

theorem History.exists_visit {steps : List (String × Step)} {visits : List Visit}
    (history : History answers evaluator input steps visits) (full : visits.length = steps.length)
    {s : String × Step} (listed : s ∈ steps) : ∃ v ∈ visits, (v.name, v.step) = s := by
  have taken := history.taken
  rw [full, List.take_length] at taken
  exact List.mem_map.mp (taken ▸ listed)

theorem History.follows_of_visit {steps : List (String × Step)} {visits : List Visit}
    (history : History answers evaluator input steps visits) {i : Nat} {v : Visit}
    (found : visits[i]? = some v) : v.Follows answers evaluator input (visits.take i) := by
  obtain ⟨within, rfl⟩ := List.getElem?_eq_some_iff.mp found
  apply history.follows _ _ (visits.drop (i + 1))
  rw [List.getElem_cons_drop, List.take_append_drop]

/-- A walk that ends without an error has a visit for each step, unless one ends the chain. -/
theorem length_walk {steps : List (String × Step)} {visits : List Visit}
    (walked : walk answers evaluator input [] steps = (visits, none)) :
    visits.length = steps.length ∨
      visits.length < steps.length ∧ visits.all Visit.letsGoOn = false := by
  have taken := congrArg List.length (walk_history walked).taken
  rw [List.length_map, List.length_take] at taken
  by_cases short : visits.length < steps.length
  · right
    have halted := walk_stopped (congrArg Prod.snd walked) (by simpa only [walked] using short)
    simp only [walked, List.nil_append] at halted
    exact ⟨short, halted⟩
  · left
    omega

/-- A step was due iff no step before it kept it from being due. -/
theorem walk_due {steps : List (String × Step)} {visits : List Visit}
    (walked : walk answers evaluator input [] steps = (visits, none)) {i : Nat}
    (bound : i < steps.length) :
    i < visits.length ↔ ∀ j < i, ∃ s, steps[j]? = some s ∧
      ((∃ v, visits[j]? = some v ∧ v.succeeds = true) ∨ s.2.continuesOnError = true) := by
  have history := walk_history walked
  constructor
  · intro due j before
    have found : visits[j]? = some visits[j] := List.getElem?_eq_getElem (by omega)
    -- The visit at this place is there, so everything before it went on.
    have split : visits = visits.take i ++ visits[i] :: visits.drop (i + 1) := by
      rw [List.getElem_cons_drop, List.take_append_drop]
    have going := (walk_visit ((congrArg Prod.fst walked).trans split)).2
    have passed : visits[j].letsGoOn = true :=
      List.all_eq_true.mp going _ (List.mem_take_iff_getElem.mpr ⟨j, by omega, rfl⟩)
    refine ⟨_, history.step_of_visit found, ?_⟩
    rcases Bool.or_eq_true_iff.mp passed with success | continues
    · exact Or.inl ⟨_, found, success⟩
    · exact Or.inr continues
  · intro passed
    -- A step that is left out comes after a visit that ended the chain, which is before it.
    apply Nat.lt_of_not_ge
    intro late
    have short : (walk answers evaluator input [] steps).1.length < steps.length := by
      simp only [walked]
      omega
    have halted := walk_stopped (congrArg Prod.snd walked) short
    simp only [walked, List.nil_append] at halted
    obtain ⟨v, member, stops⟩ := List.all_eq_false.mp halted
    obtain ⟨j, within, rfl⟩ := List.mem_iff_getElem.mp member
    have found : visits[j]? = some visits[j] := List.getElem?_eq_getElem within
    obtain ⟨s, located, reason⟩ := passed j (by omega)
    obtain rfl := Option.some.inj (located.symm.trans (history.step_of_visit found))
    apply stops
    rcases reason with ⟨v, same, success⟩ | continues
    · obtain rfl := Option.some.inj (found.symm.trans same)
      simp only [Visit.letsGoOn, success, Bool.true_or]
    · exact Bool.or_eq_true_iff.mpr (Or.inr continues)

end History

section Finished

variable {answers : Answers} {config : Config} {steps : StepMap} {input : Members}
  {helpers : Helpers} {result : RunResult} {log : List Request}

theorem runLogged_ok (ended : runLogged answers config steps input helpers = (.ok result, log)) :
    ∃ evaluator visits, Evaluator.ofHelpers? helpers config.maxOperations = some evaluator ∧
      walk answers evaluator (Scope.ofInput input (Query.parse config.query)) [] steps.steps =
        (visits, none) ∧
      result = ⟨visits.filterMap Visit.member?, visits.filterMap (·.action? evaluator),
        visits.map Visit.record ++ (steps.steps.drop visits.length).map Record.skipped⟩ ∧
      log = visits.filterMap Visit.request := by
  rw [runLogged_eq] at ended
  cases ready : Evaluator.ofHelpers? helpers config.maxOperations with
  | none => simp [ready] at ended
  | some evaluator =>
    simp only [ready] at ended
    rcases walked : walk answers evaluator (Scope.ofInput input (Query.parse config.query)) []
      steps.steps with ⟨visits, error⟩
    rw [walked] at ended
    cases error with
    | some e => simp at ended
    | none =>
      simp only [Prod.mk.injEq, Except.ok.injEq] at ended
      exact ⟨evaluator, visits, rfl, walked, ended.1.symm, ended.2.symm⟩

theorem records_names {evaluator : Evaluator} {scope : Scope} {steps : List (String × Step)}
    {visits : List Visit} (history : History answers evaluator scope steps visits) :
    (visits.map Visit.record ++ (steps.drop visits.length).map Record.skipped).map Record.name =
      keys steps := by
  calc
    _ = visits.map Visit.name ++ keys (steps.drop visits.length) := by
      simp only [List.map_append, List.map_map]
      rfl
    _ = keys steps := by
      rw [history.names, keys, keys, ← List.map_append, List.take_append_drop, keys]

/-- The records are those of the visits, then those of steps that were skipped. -/
theorem record_cases {steps : List (String × Step)} {visits : List Visit} {i : Nat} {r : Record}
    (found : (visits.map Visit.record ++ (steps.drop visits.length).map Record.skipped)[i]? =
      some r) :
    (∃ v, visits[i]? = some v ∧ r = v.record) ∨
      (visits.length ≤ i ∧ r.state = .skipped ∧ r.status = none) := by
  rcases Nat.lt_or_ge i visits.length with due | late
  · left
    rw [List.getElem?_append_left (by simpa using due), List.getElem?_map] at found
    obtain ⟨v, visited, rfl⟩ := Option.map_eq_some_iff.mp found
    exact ⟨v, visited, rfl⟩
  · right
    rw [List.getElem?_append_right (by simpa using late), List.getElem?_map] at found
    obtain ⟨s, _, rfl⟩ := Option.map_eq_some_iff.mp found
    exact ⟨late, rfl, rfl⟩

/-- The steps that run are the first ones, up to one that does not let the chain go on. The
transport receives the requests of these steps that could be made, and each record has the status
of the response of its own step. -/
theorem runLogged_ok_gate
    (ended : runLogged answers config steps input helpers = (.ok result, log)) :
    ∃ evaluator visits, Evaluator.ofHelpers? helpers config.maxOperations = some evaluator ∧
      History answers evaluator (Scope.ofInput input (Query.parse config.query)) steps.steps
        visits ∧
      result.records.map Record.name = steps.names ∧
      (∀ (i : Nat) (r : Record), result.records[i]? = some r →
        (i < visits.length → r.state = .ran) ∧
        (visits.length ≤ i → r.state = .skipped ∧ r.status = none)) ∧
      (∀ (i : Nat) (r : Record), result.records[i]? = some r →
        (r.state = .ran ↔ ∀ j < i, ∃ s, steps.steps[j]? = some s ∧
          ((∃ v : Visit, visits[j]? = some v ∧ v.succeeds = true) ∨
            s.2.continuesOnError = true))) ∧
      log = visits.filterMap Visit.request ∧
      ∀ (i : Nat) (r : Record) (v : Visit), result.records[i]? = some r → visits[i]? = some v →
        r.status = v.response.map Response.status := by
  obtain ⟨evaluator, visits, ready, walked, rfl, rfl⟩ := runLogged_ok ended
  have history := walk_history walked
  have split (i : Nat) (r : Record) (found : (visits.map Visit.record ++
      (steps.steps.drop visits.length).map Record.skipped)[i]? = some r) :
      (i < visits.length → r.state = .ran) ∧
        (visits.length ≤ i → r.state = .skipped ∧ r.status = none) := by
    rcases record_cases found with ⟨v, visited, rfl⟩ | ⟨late, state, status⟩
    · have due := (List.getElem?_eq_some_iff.mp visited).1
      exact ⟨fun _ => rfl, fun late => absurd due (by omega)⟩
    · exact ⟨fun due => absurd due (by omega), fun _ => ⟨state, status⟩⟩
  refine ⟨evaluator, visits, ready, history, records_names history, split, ?_, rfl, ?_⟩
  · intro i r found
    have bound : i < steps.steps.length := by
      have sizes := congrArg List.length (records_names history)
      rw [List.length_map, keys, List.length_map] at sizes
      exact sizes ▸ (List.getElem?_eq_some_iff.mp found).1
    rw [← walk_due walked bound]
    constructor
    · intro ran
      apply Nat.lt_of_not_ge
      intro late
      rw [((split i r found).2 late).1] at ran
      cases ran
    · exact (split i r found).1
  · intro i r v found visited
    rcases record_cases found with ⟨w, same, rfl⟩ | ⟨late, _, _⟩
    · obtain rfl := Option.some.inj (visited.symm.trans same)
      rfl
    · exact absurd (List.getElem?_eq_some_iff.mp visited).1 (by omega)

/-- What a step sees in a run without input. -/
def seen (bodies : Members) : Scope := ⟨[("qs", .object []), ("api", .object bodies)]⟩

def offers : Step where
  url := "/offers"
  method := "GET"
  continuesOnError := true

def basket : Step where
  url := "/basket"
  method := "POST"

/-- Sends all that it knows. -/
def payment : Step where
  url := "/payment"
  method := "POST"
  request := some (.string "{api}")

def receipt : Step where
  url := "/receipt"
  method := "GET"

/-- Four calls, of which the third ends the chain when it gets no response. -/
def checkout : StepMap where
  steps := [("offers", offers), ("basket", basket), ("payment", payment), ("receipt", receipt)]
  distinct := by decide

def secondReply : Response := ⟨200, "\x7b\"id\": \"b7\"\x7d"⟩

def secondBody : Json := .object [("id", .string "b7")]

def secondOnly : Answers := fun log _ => if log.length = 1 then some secondReply else none

def offersVisit : Visit :=
  ⟨"offers", offers, seen [], some ⟨.get, "/offers", [], none, []⟩, none⟩

def basketVisit : Visit :=
  ⟨"basket", basket, seen [], some ⟨.post, "/basket", [], none, []⟩, some secondReply⟩

def paymentVisit : Visit :=
  ⟨"payment", payment, seen [("basket", secondBody)],
    some ⟨.post, "/payment", [], some "\x7b\"basket\":\x7b\"id\":\"b7\"\x7d\x7d", []⟩, none⟩

/-- What the first step of a run without input and query begins with. -/
def start : Scope := .ofInput [] (Query.parse "")

theorem start_withBodies (bodies : Members) : start.withBodies bodies = seen bodies := by
  have unasked : Query.parse "" = [] := by cbv
  rw [start, unasked]
  rfl

/-- A step of such a run that has a route and nothing else to be worked out. -/
theorem start_next {evaluator : Evaluator} {past : List Visit} {bodies : Members} {name : String}
    {s : Step} {method : Method} {v : Visit} (route : isRoute s.url = true)
    (headers : s.headers = none) (request : s.request = none) (before : s.beforeFetch = none)
    (known : past.filterMap Visit.member? = bodies)
    (met : v = ⟨name, s, seen bodies, some ⟨method, s.url, [], none, s.options⟩,
      answers (past.filterMap Visit.request) ⟨method, s.url, [], none, s.options⟩⟩) :
    Visit.next answers evaluator start past name s method = v := by
  rw [Visit.next_route route headers request before known, start_withBodies, met]

theorem secondReply_json : secondReply.json? = some secondBody := by
  cbv

/-- The reply is a success where the table has no key and no entry for its status. -/
theorem keeps_secondReply {v : Visit} (arrived : v.response = some secondReply)
    (unkeyed : v.step.condition.key = none)
    (unlisted : v.step.condition.forStatus? secondReply.status = none) :
    v.succeeds = true ∧ v.member? = some (v.name, secondBody) := by
  have success := Visit.succeeds_of_json arrived secondReply_json unkeyed unlisted
  exact ⟨success, Visit.member?_of_json success arrived secondReply_json⟩

theorem offers_next :
    Visit.next secondOnly (.bare 100000) start [] "offers" offers .get = offersVisit :=
  start_next rfl rfl rfl rfl rfl rfl

theorem basket_next :
    Visit.next secondOnly (.bare 100000) start [offersVisit] "basket" basket .post =
      basketVisit :=
  start_next rfl rfl rfl rfl rfl rfl

theorem basketVisit_succeeds : basketVisit.succeeds = true :=
  (keeps_secondReply rfl rfl rfl).1

theorem basketVisit_member : basketVisit.member? = some ("basket", secondBody) :=
  (keeps_secondReply rfl rfl rfl).2

theorem basket_bodies : [offersVisit, basketVisit].filterMap Visit.member? =
    [("basket", secondBody)] := by
  rw [List.filterMap_cons_none rfl, List.filterMap_cons_some basketVisit_member,
    List.filterMap_nil]

theorem payment_payload : Evaluator.execute (.bare 100000) (.string "{api}")
    (seen [("basket", secondBody)]) = .object [("basket", secondBody)] := by
  cbv

theorem payment_made : payment.toRequest .post (seen [("basket", secondBody)]) (.bare 100000) =
    .ok ⟨.post, "/payment", [], some "\x7b\"basket\":\x7b\"id\":\"b7\"\x7d\x7d", []⟩ := by
  have route : isRoute payment.url = true := by decide
  have payload : Step.slot payment.request (seen [("basket", secondBody)]) (.bare 100000) =
      .object [("basket", secondBody)] := payment_payload
  rw [Step.toRequest, execute_route route, payload]
  cbv

theorem payment_next :
    Visit.next secondOnly (.bare 100000) start [offersVisit, basketVisit] "payment" payment .post =
      paymentVisit := by
  have scope : payment.prepareScope (start.withBodies [("basket", secondBody)]) (.bare 100000) =
      seen [("basket", secondBody)] := start_withBodies _
  simp only [Visit.next, basket_bodies, scope, payment_made]
  rfl

/-- Nothing that comes after the payment is reached. -/
theorem checkout_walk (rest : List (String × Step)) :
    walk secondOnly (.bare 100000) start [] (checkout.steps.take 3 ++ rest) =
      ([offersVisit, basketVisit, paymentVisit], none) := by
  refine walk_cons rfl (by decide : offers.verb? = some .get) offers_next ?_
  refine walk_cons rfl (by decide : basket.verb? = some .post) basket_next ?_
  refine walk_cons ?_ (by decide : payment.verb? = some .post) payment_next ?_
  · simp [Visit.letsGoOn, basketVisit_succeeds, offersVisit, offers]
  · apply walk_halted
    simp [Visit.letsGoOn, Visit.succeeds, Visit.body?, paymentVisit, payment]

theorem checkout_bodies : [offersVisit, basketVisit, paymentVisit].filterMap Visit.member? =
    [("basket", secondBody)] := by
  rw [List.filterMap_cons_none rfl, List.filterMap_cons_some basketVisit_member,
    List.filterMap_cons_none rfl, List.filterMap_nil]

theorem checkout_actions :
    [offersVisit, basketVisit, paymentVisit].filterMap (·.action? (.bare 100000)) = [] := by
  have unruled := Visit.action?_of_succeeds basketVisit_succeeds (.bare 100000)
  have offered : offersVisit.action? (.bare 100000) = none := rfl
  have unpaid : paymentVisit.action? (.bare 100000) = none := rfl
  simp only [List.filterMap_cons, List.filterMap_nil, offered, unruled, unpaid]

def checkoutResult : RunResult where
  api := [("basket", secondBody)]
  actions := []
  records := [⟨"offers", .ran, none⟩, ⟨"basket", .ran, some 200⟩, ⟨"payment", .ran, none⟩,
    ⟨"receipt", .skipped, none⟩]

def checkoutLog : List Request :=
  [⟨.get, "/offers", [], none, []⟩, ⟨.post, "/basket", [], none, []⟩,
    ⟨.post, "/payment", [], some "\x7b\"basket\":\x7b\"id\":\"b7\"\x7d\x7d", []⟩]

theorem bare_ready : Evaluator.ofHelpers? {} ({} : Config).maxOperations = some (.bare 100000) :=
  rfl

theorem checkout_ended :
    runLogged secondOnly {} checkout [] {} = (.ok checkoutResult, checkoutLog) := by
  have walked : walk secondOnly (.bare 100000) (Scope.ofInput [] (Query.parse ({} : Config).query))
      [] checkout.steps = ([offersVisit, basketVisit, paymentVisit], none) :=
    checkout_walk [("receipt", receipt)]
  rw [runLogged_of_walk bare_ready walked, checkout_bodies, checkout_actions]
  rfl

theorem checkout_gate :
    runLogged secondOnly {} checkout [] {} = (.ok checkoutResult, checkoutLog) ∧
      ∃ visits : List Visit, checkoutResult.records.map Record.name = checkout.names ∧
        (∀ (i : Nat) (r : Record), checkoutResult.records[i]? = some r →
          (r.state = .ran ↔ ∀ j < i, ∃ s, checkout.steps[j]? = some s ∧
            ((∃ v : Visit, visits[j]? = some v ∧ v.succeeds = true) ∨
              s.2.continuesOnError = true))) ∧
        checkoutLog = visits.filterMap Visit.request ∧
        ∀ (i : Nat) (r : Record) (v : Visit), checkoutResult.records[i]? = some r →
          visits[i]? = some v → r.status = v.response.map Response.status := by
  obtain ⟨_, visits, _, _, names, _, gate, log, statuses⟩ := runLogged_ok_gate checkout_ended
  exact ⟨checkout_ended, visits, names, gate, log, statuses⟩

theorem Visit.member?_eq_none_or_action?_eq_none (v : Visit) (evaluator : Evaluator) :
    v.member? = none ∨ v.action? evaluator = none := by
  cases success : v.succeeds with
  | true => exact Or.inr (action?_of_succeeds success evaluator)
  | false => exact Or.inl (member?_of_failed success)

theorem Visit.action?_of_hidesError {v : Visit} (hidden : v.step.hidesError = true)
    (evaluator : Evaluator) : v.action? evaluator = none := by
  simp only [action?, hidden, Bool.or_true, if_true]

/-- Each visit leaves a member or an action or nothing, never both. -/
theorem length_contributions_le (evaluator : Evaluator) (visits : List Visit) :
    (visits.filterMap Visit.member?).length + (visits.filterMap (·.action? evaluator)).length ≤
      visits.length := by
  induction visits with
  | nil => exact Nat.le_refl 0
  | cons v rest ih =>
    rcases v.member?_eq_none_or_action?_eq_none evaluator with nothing | nothing
    · have grown : ((v :: rest).filterMap (·.action? evaluator)).length ≤
          (rest.filterMap (·.action? evaluator)).length + 1 := by
        cases acted : v.action? evaluator <;> simp [acted]
      simp only [List.filterMap_cons_none nothing, List.length_cons]
      omega
    · have grown : ((v :: rest).filterMap Visit.member?).length ≤
          (rest.filterMap Visit.member?).length + 1 := by
        cases kept : v.member? <;> simp [kept]
      have dropped : (v :: rest).filterMap (·.action? evaluator) =
          rest.filterMap (·.action? evaluator) := List.filterMap_cons_none nothing
      rw [dropped, List.length_cons]
      omega

theorem filter_ran_records (visits : List Visit) (rest : List (String × Step)) :
    (visits.map Visit.record ++ rest.map Record.skipped).filter (·.state = .ran) =
      visits.map Visit.record := by
  rw [List.filter_append, List.filter_eq_self.mpr, List.filter_eq_nil_iff.mpr, List.append_nil]
  · intro r skipped
    obtain ⟨s, _, rfl⟩ := List.mem_map.mp skipped
    simp [Record.skipped]
  · intro r visited
    obtain ⟨v, _, rfl⟩ := List.mem_map.mp visited
    simp [Visit.record]

/-- The members under `api` and the actions are what the steps that ran leave, in their order. A
step leaves its body when it succeeds, and else the action of its entry unless it hides errors. -/
theorem runLogged_ok_contributions
    (ended : runLogged answers config steps input helpers = (.ok result, log)) :
    ∃ evaluator visits, Evaluator.ofHelpers? helpers config.maxOperations = some evaluator ∧
      History answers evaluator (Scope.ofInput input (Query.parse config.query)) steps.steps
        visits ∧
      result.records.filter (·.state = .ran) = visits.map Visit.record ∧
      result.api = visits.filterMap Visit.member? ∧
      result.actions = visits.filterMap (·.action? evaluator) ∧
      (∀ v ∈ visits, v.member? = none ∨ v.action? evaluator = none) ∧
      (∀ v ∈ visits, v.step.hidesError = true → v.action? evaluator = none) ∧
      result.api.length + result.actions.length ≤
        (result.records.filter (·.state = .ran)).length := by
  obtain ⟨evaluator, visits, ready, walked, rfl, rfl⟩ := runLogged_ok ended
  have ran := filter_ran_records visits (steps.steps.drop visits.length)
  refine ⟨evaluator, visits, ready, walk_history walked, ran, rfl, rfl, ?_, ?_, ?_⟩
  · intro v _
    exact v.member?_eq_none_or_action?_eq_none evaluator
  · intro v _ hidden
    exact v.action?_of_hidesError hidden evaluator
  · rw [ran, List.length_map]
    exact length_contributions_le evaluator visits

def onFailure : ConditionTable where
  entries := [("default", { message := some (.string "\"no\"") })]

def login : Step where
  url := "/login"
  method := "POST"
  condition := onFailure
  continuesOnError := true

def session : Step where
  url := "/session"
  method := "GET"

def profile : Step where
  url := "/profile"
  method := "GET"
  condition := onFailure
  hidesError := true

/-- Two calls with an action for when they fail, one of which hides it. -/
def signIn : StepMap where
  steps := [("login", login), ("session", session), ("profile", profile)]
  distinct := by decide

def loginVisit : Visit :=
  ⟨"login", login, seen [], some ⟨.post, "/login", [], none, []⟩, none⟩

def sessionVisit : Visit :=
  ⟨"session", session, seen [], some ⟨.get, "/session", [], none, []⟩, some secondReply⟩

def profileVisit : Visit :=
  ⟨"profile", profile, seen [("session", secondBody)], some ⟨.get, "/profile", [], none, []⟩, none⟩

theorem loginVisit_action : loginVisit.action? (.bare 100000) = some (.message "no") := by
  cbv

theorem login_next :
    Visit.next secondOnly (.bare 100000) start [] "login" login .post = loginVisit :=
  start_next rfl rfl rfl rfl rfl rfl

theorem session_next :
    Visit.next secondOnly (.bare 100000) start [loginVisit] "session" session .get =
      sessionVisit :=
  start_next rfl rfl rfl rfl rfl rfl

theorem sessionVisit_succeeds : sessionVisit.succeeds = true :=
  (keeps_secondReply rfl rfl rfl).1

theorem sessionVisit_member : sessionVisit.member? = some ("session", secondBody) :=
  (keeps_secondReply rfl rfl rfl).2

theorem profile_next :
    Visit.next secondOnly (.bare 100000) start [loginVisit, sessionVisit] "profile" profile .get =
      profileVisit := by
  have known : [loginVisit, sessionVisit].filterMap Visit.member? = [("session", secondBody)] := by
    rw [List.filterMap_cons_none rfl, List.filterMap_cons_some sessionVisit_member,
      List.filterMap_nil]
  exact start_next rfl rfl rfl rfl known rfl

theorem signIn_walk : walk secondOnly (.bare 100000) start [] signIn.steps =
    ([loginVisit, sessionVisit, profileVisit], none) := by
  refine walk_cons rfl (by decide : login.verb? = some .post) login_next ?_
  refine walk_cons rfl (by decide : session.verb? = some .get) session_next ?_
  refine walk_cons ?_ (by decide : profile.verb? = some .get) profile_next rfl
  simp [Visit.letsGoOn, sessionVisit_succeeds, loginVisit, login]

def signInResult : RunResult where
  api := [("session", secondBody)]
  actions := [.message "no"]
  records := [⟨"login", .ran, none⟩, ⟨"session", .ran, some 200⟩, ⟨"profile", .ran, none⟩]

def signInLog : List Request :=
  [⟨.post, "/login", [], none, []⟩, ⟨.get, "/session", [], none, []⟩,
    ⟨.get, "/profile", [], none, []⟩]

theorem signIn_ended :
    runLogged secondOnly {} signIn [] {} = (.ok signInResult, signInLog) := by
  have walked : walk secondOnly (.bare 100000) (Scope.ofInput [] (Query.parse ({} : Config).query))
      [] signIn.steps = ([loginVisit, sessionVisit, profileVisit], none) := signIn_walk
  have bodies : [loginVisit, sessionVisit, profileVisit].filterMap Visit.member? =
      signInResult.api := by
    rw [List.filterMap_cons_none rfl, List.filterMap_cons_some sessionVisit_member,
      List.filterMap_cons_none rfl]
    rfl
  have unruled := Visit.action?_of_succeeds sessionVisit_succeeds (.bare 100000)
  have actions : [loginVisit, sessionVisit, profileVisit].filterMap
      (·.action? (.bare 100000)) = signInResult.actions := by
    have hidden : profileVisit.action? (.bare 100000) = none := rfl
    simp only [List.filterMap_cons, List.filterMap_nil, loginVisit_action, unruled, hidden]
    rfl
  rw [runLogged_of_walk bare_ready walked, bodies, actions]
  rfl

theorem signIn_contributions :
    runLogged secondOnly {} signIn [] {} = (.ok signInResult, signInLog) ∧
      ∃ (evaluator : Evaluator) (visits : List Visit),
        signInResult.api = visits.filterMap Visit.member? ∧
        signInResult.actions = visits.filterMap (·.action? evaluator) ∧
        (∀ v ∈ visits, v.member? = none ∨ v.action? evaluator = none) ∧
        (∀ v ∈ visits, v.step.hidesError = true → v.action? evaluator = none) ∧
        signInResult.api.length + signInResult.actions.length ≤
          (signInResult.records.filter (·.state = .ran)).length := by
  obtain ⟨evaluator, visits, _, _, _, api, actions, exclusive, hidden, bound⟩ :=
    runLogged_ok_contributions signIn_ended
  exact ⟨signIn_ended, evaluator, visits, api, actions, exclusive, hidden, bound⟩

end Finished

end HttpWorkflow
