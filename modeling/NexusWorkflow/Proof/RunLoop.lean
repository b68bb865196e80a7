import NexusWorkflow.Run.Diagram

/-!
# The run loop comes to rest

When a call returns, the queue has been drained, and every active token has had its turn: the tokens
of the new state wait, or they have come to their end.
-/

namespace NexusWorkflow

open ExecutionContext

variable {d : ProcessDefinition}

/-- The token waits, or it has come to its end. -/
def Token.Quiescent (t : Token) : Prop :=
  t.status = .waiting ∨ t.status = .completed ∨ t.status = .cancelled

instance (t : Token) : Decidable t.Quiescent := inferInstanceAs (Decidable (_ ∨ _ ∨ _))

def EngineState.Quiescent (state : EngineState) : Prop := ∀ t ∈ state.tokens, t.Quiescent

instance (state : EngineState) : Decidable state.Quiescent :=
  inferInstanceAs (Decidable (∀ t ∈ _, _))

theorem Token.quiescent_of_ne {t : Token} (hactive : t.status ≠ .active)
    (hsuspended : t.status ≠ .suspended) : t.Quiescent := by
  unfold Quiescent
  cases hs : t.status with
  | active => exact absurd hs hactive
  | suspended => exact absurd hs hsuspended
  | waiting => exact .inl rfl
  | completed => exact .inr (.inl rfl)
  | cancelled => exact .inr (.inr rfl)

/-- With nothing in the queue, nothing is active. -/
theorem Trace.quiescent {steps : List Step} {ctx : ExecutionContext} (h : Trace d steps ctx)
    (hqueue : ctx.pendingQueue = []) {t : Token} (ht : t ∈ ctx.tokenMap.values) : t.Quiescent := by
  have hcoh := h.coherent
  have hmem := ctx.mem_pool ht
  refine Token.quiescent_of_ne (fun hactive => ?_) (hcoh.notSuspended t.erase hmem)
  have hflight := hcoh.active t.erase hmem hactive
  simp [Pool.flight, ExecutionContext.pool, hqueue] at hflight

/-- A call that returns has drained the queue, and no token is active then. -/
theorem quiescent_of_execute {steps : List Step} {fuel : Nat} {command : EngineCommand}
    {state : Option EngineState} {options : ExecuteOptions} {result : EngineResult}
    (call : Call d steps command state options)
    (h : execute d fuel command state options = .ok result) :
    ∃ handled drained, handleCommand d
      (ExecutionContext.create state options) command = .ok handled ∧
      runLoop d fuel handled = .ok drained ∧ drained.toResult = .ok result ∧
      drained.pendingQueue = [] ∧ result.newState.Quiescent := by
  have hstep := h
  unfold execute at hstep
  obtain ⟨handled, hhandled, hstep⟩ := Except.bind_eq_ok_iff.1 hstep
  obtain ⟨drained, hdrained, hresult⟩ := Except.bind_eq_ok_iff.1 hstep
  obtain ⟨htrace, hqueue⟩ := (call.trace.1.command rfl hhandled).runLoop hdrained
  refine ⟨handled, drained, hhandled, hdrained, hresult, hqueue, fun t ht => ?_⟩
  unfold ExecutionContext.toResult at hresult
  obtain ⟨inst, -, hresult⟩ := Except.bind_eq_ok_iff.1 hresult
  rw [← Except.ok.inj hresult] at ht
  exact htrace.quiescent hqueue ht

open Diagram in
/-- The second task of the interview waits when the first one has been completed. -/
theorem quiescent_interview : ∃ r : Replay, ∃ result : EngineResult,
    execute interview 10 (.completeUserTask 3 "user" none) (some r.state)
      (stopped always r.nextId) = .ok result ∧
    result.newState.tokens.length = 3 ∧ result.newState.Quiescent := by
  obtain ⟨r, result, call, hok, htest⟩ := exists_call_of_replay interview always 10 none []
    (.completeUserTask 3 "user" none) (fun _ result => result.newState.tokens.length = 3)
    (by decide +kernel)
  obtain ⟨-, -, -, -, -, -, hquiescent⟩ := quiescent_of_execute call hok
  exact ⟨r, result, hok, of_decide_eq_true htest, hquiescent⟩

end NexusWorkflow
