import HttpWorkflow.Proofs.Run.Log
import HttpWorkflow.Transport

/-! A run over a connection, seen as a run over a transport.

A connection that keeps a log receives a call for each request that passes its checks. A run asks
its transport for requests and cannot tell what stands behind it, so a run over the connection does
with the calls what a run over a transport does with the requests that they are made of, and prints
the same. What was proved of the requests of a run then holds of its calls.
-/

set_option autoImplicit false

namespace HttpWorkflow

/-- A request that fails its checks is not answered. One that passes them is answered as its call
is. -/
theorem Connection.transport_eq {m : Type → Type} [Monad m] [LawfulMonad m]
    (connect : Connection m) (base : Option Url) (timeout : Nat) (r : Request) :
    connect.transport base timeout r =
      match r.toCall base timeout with
      | .error _ => pure none
      | .ok call => connect call := by
  have checked (result : Except TransportError Call) :
      (liftM result : ExceptT TransportError m Call).run = pure result := rfl
  have called (call : Call) :
      (liftM (connect call) : ExceptT TransportError m (Option Response)).run =
        Except.ok <$> connect call := rfl
  unfold transport send
  rw [ExceptT.run_bind, checked, pure_bind]
  cases r.toCall base timeout with
  | error e => exact map_pure _ _
  | ok call =>
    change Except.toOption <$> ExceptT.run (_ >>= _) = connect call
    rw [ExceptT.run_bind, called, bind_map_left, map_bind]
    refine (bind_congr fun response => ?_).trans (bind_pure _)
    cases response with
    | none => exact map_pure _ _
    | some response => exact map_pure _ _

/-- The answer to a call after those received before it; `none` when no response arrives. -/
abbrev Replies := List Call → Call → Option Response

def Connection.logging (replies : Replies) : Connection (StateM (List Call)) := fun call log =>
  (replies log call, log ++ [call])

section Calls

variable (base : Option Url) (timeout : Nat)

/-- The calls for requests. A request that fails its checks has none. -/
def callsOf (requests : List Request) : List Call :=
  requests.filterMap fun r => (r.toCall base timeout).toOption

/-- What the calls for requests are answered. -/
def Replies.answers (replies : Replies) : Answers := fun log r =>
  (r.toCall base timeout).toOption.bind (replies (callsOf base timeout log))

/-- Computations that do with the calls and the lines of a trace what the others do with the
trace. -/
def Correspondence.calls : Correspondence (StateT String (StateM (List Call))) (StateM Trace) where
  Rel x y := ∀ t, (x.run t.printed).run (callsOf base timeout t.requests) =
    (((y.run t).1, (y.run t).2.printed), callsOf base timeout (y.run t).2.requests)
  pure _ _ := rfl
  bind := by
    intro α β x y f g first next t
    rw [StateT.run_bind, StateT.run_bind, StateT.run_bind, first t]
    exact next _ _

/-- A checked request becomes one call, and its answer is the reply. -/
theorem transport_related (replies : Replies) (r : Request) :
    (Correspondence.calls base timeout).Rel
      ((Connection.logging replies).keeping.transport base timeout r)
      (Transport.tracing (replies.answers base timeout) r) := by
  intro t
  have sent : (Transport.tracing (replies.answers base timeout) r).run t =
      (replies.answers base timeout t.requests r, { t with requests := t.requests ++ [r] }) := rfl
  have grown : callsOf base timeout (t.requests ++ [r]) =
      callsOf base timeout t.requests ++ (r.toCall base timeout).toOption.toList :=
    filterMap_concat _ t.requests r
  rw [sent, grown, Replies.answers, Connection.transport_eq]
  cases r.toCall base timeout with
  | error e =>
    rw [Except.toOption, Option.toList_none, List.append_nil]
    rfl
  | ok call => rfl

/-- A run over a connection makes the calls for the requests of a run over a transport, and prints
what that one prints. -/
theorem run_connection (replies : Replies) (config : Config) (steps : StepMap) (input : Members)
    (helpers : Helpers) :
    ((run ((Connection.logging replies).keeping.transport base timeout) config steps input helpers
        .keeping).run.run "").run [] =
      let (result, t) := runTraced (replies.answers base timeout) config steps input helpers
      ((result, t.printed), callsOf base timeout t.requests) :=
  run_related (.calls base timeout) (transport_related base timeout replies) (fun _ _ => rfl) config
    steps input helpers {}

end Calls

end HttpWorkflow
