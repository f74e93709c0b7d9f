import HttpWorkflow.Proofs.Run.Errors

/-! Runs of a map and of its first steps.

What stands later in a map has no part in what comes before it. The walk over more steps goes on
where the walk over the first ones ends, and adds nothing when these end the chain, so that a run of
the first steps says how every longer run begins.
-/

set_option autoImplicit false

namespace HttpWorkflow

/-- A step that had to succeed left no body: it failed, or was not reached any more. -/
def RunResult.Stopped (steps : List (String × Step)) (r : RunResult) : Prop :=
  ∃ s ∈ steps, s.2.continuesOnError = false ∧ s.1 ∉ keys r.api

section Walk

variable {answers : Answers} {evaluator : Evaluator} {input : Scope}

theorem walk_append (past : List Visit) (first later : List (String × Step)) :
    walk answers evaluator input past (first ++ later) =
      match walk answers evaluator input past first with
      | (visits, some e) => (visits, some e)
      | (visits, none) =>
        let (more, error) := walk answers evaluator input (past ++ visits) later
        (visits ++ more, error) := by
  induction first generalizing past with
  | nil => simp only [walk, List.nil_append, List.append_nil]
  | cons step first ih =>
    obtain ⟨name, s⟩ := step
    cases going : past.all Visit.letsGoOn with
    | false =>
      rw [walk_halted going, walk_halted going]
      simp only [List.append_nil, walk_halted going]
    | true =>
      simp only [List.cons_append, walk, going, if_true]
      cases s.verb? with
      | none => rfl
      | some method =>
        simp only [ih]
        -- The error of the first steps decides which of the two walks ends here.
        rcases walk answers evaluator input
          (past ++ [Visit.next answers evaluator input past name s method]) first with ⟨_, error⟩
        cases error with
        | some e => rfl
        | none => simp only [List.append_assoc, List.cons_append, List.nil_append]

theorem recordsOf_append {first later : List (String × Step)} {visits more : List Visit}
    {error : Option RunError} (walked : walk answers evaluator input [] first = (visits, none))
    (continued : walk answers evaluator input visits later = (more, error)) :
    recordsOf (first ++ later) (visits ++ more) =
      recordsOf first visits ++ recordsOf later more := by
  unfold recordsOf
  -- Either all of the first steps have visits, or the chain has ended and no visit is added.
  rcases length_walk walked with complete | ⟨short, halted⟩
  · have done : first.drop visits.length = [] := by
      rw [complete, List.drop_length]
    have rest : (first ++ later).drop (visits ++ more).length = later.drop more.length := by
      rw [List.length_append, complete, List.drop_append, List.drop_eq_nil_of_le (by omega),
        List.nil_append, Nat.add_sub_cancel_left]
    simp only [done, rest, List.map_append, List.map_nil, List.append_nil, List.append_assoc]
  · obtain ⟨rfl, _⟩ := Prod.mk.inj (continued.symm.trans (walk_halted halted later))
    have rest : (first ++ later).drop visits.length = first.drop visits.length ++ later := by
      rw [List.drop_append, Nat.sub_eq_zero_of_le (Nat.le_of_lt short), List.drop_zero]
    simp only [rest, List.map_append, List.append_nil, List.map_nil, List.nil_append,
      List.length_nil, List.drop_zero, List.append_assoc]

/-- When all visits so far let the chain go on, the step that is due runs. -/
theorem head_recordsOf {past more : List Visit} {later : List (String × Step)}
    (going : past.all Visit.letsGoOn = true)
    (continued : walk answers evaluator input past later = (more, none)) {next : Record}
    (found : (recordsOf later more)[0]? = some next) : next.state = .ran := by
  cases more with
  | cons v rest =>
    obtain rfl := Option.some.inj found
    rfl
  | nil =>
    cases later with
    | nil => simp [recordsOf] at found
    | cons step later =>
      have halted := walk_stopped (congrArg Prod.snd continued) (by simp [continued])
      rw [continued, List.append_nil, going] at halted
      cases halted

theorem stopped_iff {steps : List (String × Step)} (distinct : (keys steps).Nodup)
    {visits : List Visit} (walked : walk answers evaluator input [] steps = (visits, none))
    {r : RunResult} (api : r.api = visits.filterMap Visit.member?) :
    r.Stopped steps ↔ visits.all Visit.letsGoOn = false := by
  have history := walk_history walked
  unfold RunResult.Stopped
  rw [api]
  constructor
  · rintro ⟨s, listed, required, missing⟩
    -- The step has failed, or it was not reached because a visit before it had ended the chain.
    rcases length_walk walked with complete | ⟨_, halted⟩
    · obtain ⟨v, visited, rfl⟩ := history.exists_visit complete listed
      have failed : v.succeeds = false :=
        Bool.eq_false_iff.mpr fun success => missing (Visit.mem_keys_members visited success)
      apply List.all_eq_false.mpr
      exact ⟨v, visited, Bool.eq_false_iff.mp (Visit.letsGoOn_eq_false.mpr ⟨failed, required⟩)⟩
    · exact halted
  · intro halted
    obtain ⟨v, visited, stops⟩ := List.all_eq_false.mp halted
    obtain ⟨failed, required⟩ := Visit.letsGoOn_eq_false.mp (Bool.eq_false_iff.mpr stops)
    refine ⟨_, history.step_mem visited, required, ?_⟩
    intro kept
    rw [Visit.succeeds_of_mem_keys (history.nodup_names distinct) visited kept] at failed
    cases failed

end Walk

section Extended

variable {answers : Answers} {config : Config} {input : Members} {helpers : Helpers}
  {first all : StepMap} {later : List (String × Step)} {r r' : RunResult} {log log' : List Request}

theorem runLogged_append_error (extended : all.steps = first.steps ++ later) {e : RunError}
    (failed : runLogged answers config first input helpers = (.error e, log)) :
    runLogged answers config all input helpers = (.error e, log) := by
  rcases runLogged_error failed with ⟨unready, rfl, rfl⟩ | ⟨evaluator, visits, ready, walked, rfl⟩
  · exact runLogged_of_unready unready
  · apply runLogged_of_walk_error ready
    rw [extended, walk_append, walked]

/-- The walk of the longer run goes on after the visits of a run that ended well. -/
theorem runLogged_append_walk (extended : all.steps = first.steps ++ later)
    (ended : runLogged answers config first input helpers = (.ok r, log)) :
    ∃ evaluator visits more error,
      Evaluator.ofHelpers? helpers config.maxOperations = some evaluator ∧
      walk answers evaluator (Scope.ofInput input (Query.parse config.query)) [] first.steps =
        (visits, none) ∧
      walk answers evaluator (Scope.ofInput input (Query.parse config.query)) visits later =
        (more, error) ∧
      walk answers evaluator (Scope.ofInput input (Query.parse config.query)) [] all.steps =
        (visits ++ more, error) ∧
      r = ⟨visits.filterMap Visit.member?, visits.filterMap (·.action? evaluator),
        recordsOf first.steps visits⟩ ∧
      log = visits.filterMap Visit.request := by
  obtain ⟨evaluator, visits, ready, walked, rfl, rfl⟩ := runLogged_ok ended
  rcases continued : walk answers evaluator (Scope.ofInput input (Query.parse config.query)) visits
    later with ⟨more, error⟩
  refine ⟨evaluator, visits, more, error, ready, walked, continued, ?_, rfl, rfl⟩
  simp only [extended, walk_append, walked, List.nil_append, continued]

theorem runLogged_append_log (extended : all.steps = first.steps ++ later) :
    (runLogged answers config first input helpers).2 <+:
      (runLogged answers config all input helpers).2 := by
  rcases ended : runLogged answers config first input helpers with ⟨e | r, log⟩
  · simp only [runLogged_append_error extended ended, List.prefix_refl]
  · obtain ⟨evaluator, visits, more, error, ready, _, _, whole, _, rfl⟩ :=
      runLogged_append_walk extended ended
    rw [runLogged_snd_of_walk ready whole, List.filterMap_append]
    exact List.prefix_append _ _

/-- When both runs end well, the result of the longer one is that of the shorter one with what the
added visits leave. -/
theorem runLogged_append_ok (extended : all.steps = first.steps ++ later)
    (ended : runLogged answers config first input helpers = (.ok r, log))
    (ended' : runLogged answers config all input helpers = (.ok r', log')) :
    ∃ evaluator visits more,
      walk answers evaluator (Scope.ofInput input (Query.parse config.query)) [] first.steps =
        (visits, none) ∧
      walk answers evaluator (Scope.ofInput input (Query.parse config.query)) visits later =
        (more, none) ∧
      r.api = visits.filterMap Visit.member? ∧
      r' = ⟨r.api ++ more.filterMap Visit.member?,
        r.actions ++ more.filterMap (·.action? evaluator),
        r.records ++ recordsOf later more⟩ := by
  obtain ⟨evaluator, visits, more, error, ready, walked, continued, whole, rfl, _⟩ :=
    runLogged_append_walk extended ended
  cases error with
  | some e => cases (runLogged_of_walk_error ready whole).symm.trans ended'
  | none =>
    obtain ⟨same, _⟩ := Prod.mk.inj ((runLogged_of_walk ready whole).symm.trans ended')
    obtain rfl := Except.ok.inj same
    refine ⟨evaluator, visits, more, walked, continued, rfl, ?_⟩
    rw [extended, recordsOf_append walked continued, List.filterMap_append, List.filterMap_append]

theorem runLogged_append_stopped (extended : all.steps = first.steps ++ later)
    (ended : runLogged answers config first input helpers = (.ok r, log))
    (stopped : r.Stopped first.steps) :
    runLogged answers config all input helpers =
      (.ok { r with records := r.records ++ later.map Record.skipped }, log) := by
  obtain ⟨evaluator, visits, more, error, ready, walked, continued, whole, rfl, rfl⟩ :=
    runLogged_append_walk extended ended
  have halted := (stopped_iff first.distinct walked rfl).mp stopped
  obtain ⟨rfl, rfl⟩ := Prod.mk.inj (continued.symm.trans (walk_halted halted later))
  rw [runLogged_of_walk ready whole, extended, recordsOf_append walked continued, List.append_nil]
  rfl

theorem runLogged_append_unstopped (extended : all.steps = first.steps ++ later)
    (ended : runLogged answers config first input helpers = (.ok r, log))
    (unstopped : ¬r.Stopped first.steps)
    (ended' : runLogged answers config all input helpers = (.ok r', log')) {next : Record}
    (found : r'.records[r.records.length]? = some next) : next.state = .ran := by
  obtain ⟨evaluator, visits, more, walked, continued, api, rfl⟩ :=
    runLogged_append_ok extended ended ended'
  have going : visits.all Visit.letsGoOn = true := by
    by_contra halted
    exact unstopped ((stopped_iff first.distinct walked api).mpr (Bool.eq_false_iff.mpr halted))
  rw [List.getElem?_append_right (Nat.le_refl _), Nat.sub_self] at found
  exact head_recordsOf going continued found

/-- A run of more steps begins as the run of the first ones. It sends their requests first and ends
in their error if they end in one, and their members, actions and records come first in its result.
When they end the chain, the other steps are skipped and add nothing; else the next step runs. -/
theorem runLogged_append (extended : all.steps = first.steps ++ later) (answers : Answers)
    (config : Config) (input : Members) (helpers : Helpers) :
    let short := runLogged answers config first input helpers
    let long := runLogged answers config all input helpers
    short.2 <+: long.2 ∧
      (∀ e, short.1 = .error e → long = (.error e, short.2)) ∧
      (∀ r r', short.1 = .ok r → long.1 = .ok r' →
        r.api <+: r'.api ∧ r.actions <+: r'.actions ∧ r.records <+: r'.records) ∧
      (∀ r, short.1 = .ok r → r.Stopped first.steps →
        long = (.ok { r with records := r.records ++ later.map Record.skipped }, short.2)) ∧
      ∀ r r' next, short.1 = .ok r → ¬r.Stopped first.steps → long.1 = .ok r' →
        r'.records[r.records.length]? = some next → next.state = .ran := by
  intro short long
  refine ⟨runLogged_append_log extended, ?_, ?_, ?_, ?_⟩
  · intro e failed
    exact runLogged_append_error extended (Prod.ext failed rfl)
  · intro r r' ended ended'
    obtain ⟨_, _, _, _, _, _, rfl⟩ :=
      runLogged_append_ok extended (Prod.ext ended rfl) (Prod.ext ended' rfl)
    exact ⟨List.prefix_append _ _, List.prefix_append _ _, List.prefix_append _ _⟩
  · intro r ended stopped
    exact runLogged_append_stopped extended (Prod.ext ended rfl) stopped
  · intro r r' next ended unstopped ended' found
    exact runLogged_append_unstopped extended (Prod.ext ended rfl) unstopped
      (Prod.ext ended' rfl) found

end Extended

/-- The calls of a checkout up to the one that ends the chain. -/
def untilPayment : StepMap where
  steps := checkout.steps.take 3
  distinct := by decide

def untilPaymentResult : RunResult where
  api := [("basket", secondBody)]
  actions := []
  records := [⟨"offers", .ran, none⟩, ⟨"basket", .ran, some 200⟩, ⟨"payment", .ran, none⟩]

theorem untilPayment_ended :
    runLogged secondOnly {} untilPayment [] {} = (.ok untilPaymentResult, checkoutLog) := by
  have walked : walk secondOnly (.bare 100000) (Scope.ofInput [] (Query.parse ({} : Config).query))
      [] untilPayment.steps = ([offersVisit, basketVisit, paymentVisit], none) := checkout_walk []
  rw [runLogged_of_walk bare_ready walked, checkout_bodies, checkout_actions]
  rfl

theorem checkout_after_payment :
    checkout.steps = untilPayment.steps ++ [("receipt", receipt)] ∧
      untilPaymentResult.Stopped untilPayment.steps ∧
      runLogged secondOnly {} checkout [] {} =
        (.ok { untilPaymentResult with
          records := untilPaymentResult.records ++ [⟨"receipt", .skipped, none⟩] },
          checkoutLog) := by
  have stopped : untilPaymentResult.Stopped untilPayment.steps :=
    ⟨("payment", payment), .tail _ (.tail _ (.head _)), rfl, by decide⟩
  have extended : checkout.steps = untilPayment.steps ++ [("receipt", receipt)] := rfl
  obtain ⟨_, _, _, ends, _⟩ := runLogged_append extended secondOnly {} [] {}
  refine ⟨extended, stopped, ?_⟩
  rw [ends _ (congrArg Prod.fst untilPayment_ended) stopped, untilPayment_ended]
  rfl

end HttpWorkflow
