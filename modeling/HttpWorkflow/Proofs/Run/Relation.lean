import HttpWorkflow.Run

/-! Runs that do the same with what is around them.

A run hands its requests to a transport and its lines to a printer and cannot see what stands
behind them. So two runs correspond, whatever their monads keep for themselves, as soon as their
transports and their printers do.
-/

set_option autoImplicit false

namespace HttpWorkflow

/-- A relation between the computations of two monads that is kept when they go on. -/
structure Correspondence (m n : Type → Type) [Monad m] [Monad n] where
  Rel : {α : Type} → m α → n α → Prop
  pure : ∀ {α : Type} (a : α), Rel (pure a) (pure a)
  bind : ∀ {α β : Type} {x : m α} {y : n α} {f : α → m β} {g : α → n β},
    Rel x y → (∀ a, Rel (f a) (g a)) → Rel (x >>= f) (y >>= g)

namespace Correspondence

variable {m n : Type → Type} [Monad m] [Monad n] (R : Correspondence m n) {ε α β : Type}

/-- Computations with errors correspond when they do as computations of what they end in. -/
def withErrors (ε : Type) : Correspondence (ExceptT ε m) (ExceptT ε n) where
  Rel x y := R.Rel x.run y.run
  pure a := R.pure (Except.ok a)
  bind := by
    intro α β x y f g first next
    rw [ExceptT.run_bind, ExceptT.run_bind]
    refine R.bind first fun result => ?_
    cases result with
    | error e => exact R.pure (Except.error e)
    | ok a => exact next a

theorem throw (e : ε) :
    (R.withErrors ε).Rel (throw e : ExceptT ε m α) (throw e : ExceptT ε n α) :=
  R.pure (Except.error e)

variable [LawfulMonad m] [LawfulMonad n] {x : m α} {y : n α} (related : R.Rel x y)
include related

theorem map (f : α → β) : R.Rel (f <$> x) (f <$> y) := by
  rw [map_eq_pure_bind, map_eq_pure_bind]
  exact R.bind related fun a => R.pure (f a)

theorem lift : (R.withErrors ε).Rel (x : ExceptT ε m α) (y : ExceptT ε n α) :=
  R.map related Except.ok

end Correspondence

section Related

variable {m n : Type → Type} [Monad m] [Monad n] [LawfulMonad m] [LawfulMonad n]
  (R : Correspondence m n)

variable {transport : Transport m} {transport' : Transport n} {print : Printer m}
  {print' : Printer n} (sends : ∀ r, R.Rel (transport r) (transport' r))
  (prints : ∀ text, R.Rel (print text) (print' text))

include sends in
theorem fetch_related (s : Step) (method : Method) (scope : Scope) (evaluator : Evaluator) :
    R.Rel (fetch transport s method scope evaluator) (fetch transport' s method scope evaluator) := by
  unfold fetch
  cases s.toRequest method scope evaluator with
  | error e => exact R.pure _
  | ok request => exact R.map (sends request) _

include sends prints

theorem runStep_related (evaluator : Evaluator) (input : Scope) (name : String) (s : Step)
    (p : Progress) :
    (R.withErrors RunError).Rel (runStep transport evaluator input name s p print)
      (runStep transport' evaluator input name s p print') := by
  unfold runStep
  refine (R.withErrors _).bind (R.lift (prints _)) fun _ => ?_
  cases s.verb? with
  | none => exact R.throw _
  | some method =>
    refine (R.withErrors _).bind (R.lift (prints _)) fun _ => ?_
    refine (R.withErrors _).bind (R.lift (fetch_related R sends s method _ evaluator)) fun _ => ?_
    exact (R.withErrors _).bind (R.lift (prints _)) fun _ => (R.withErrors _).pure _

theorem runSteps_related (evaluator : Evaluator) (input : Scope) (steps : List (String × Step))
    (p : Progress) :
    (R.withErrors RunError).Rel (runSteps transport evaluator input steps p print)
      (runSteps transport' evaluator input steps p print') := by
  induction steps generalizing p with
  | nil => exact (R.withErrors _).pure _
  | cons first rest ih =>
    simp only [runSteps]
    cases p.continues with
    | false => exact (R.withErrors _).bind (ih p) fun _ => (R.withErrors _).pure _
    | true =>
      refine (R.withErrors _).bind
        (runStep_related R sends prints evaluator input first.1 first.2 p) fun after => ?_
      exact (R.withErrors _).bind (ih after.1) fun _ => (R.withErrors _).pure _

/-- Runs correspond when their transports and printers do. -/
theorem run_related (config : Config) (steps : StepMap) (input : Members) (helpers : Helpers) :
    R.Rel (run transport config steps input helpers print).run
      (run transport' config steps input helpers print').run := by
  unfold run
  cases Evaluator.ofHelpers? helpers config.maxOperations with
  | none => exact R.throw _
  | some evaluator =>
    refine (R.withErrors _).bind (runSteps_related R sends prints evaluator _ steps.steps {})
      fun _ => ?_
    exact (R.withErrors _).pure _

end Related

end HttpWorkflow
