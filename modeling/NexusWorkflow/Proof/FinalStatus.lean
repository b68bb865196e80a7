import NexusWorkflow.Proof.Suspension

/-!
# Commands on a finished instance

An instance that is completed or terminated should stay so.  Only the handlers of suspension and
resumption look at the status; the cancellation of a completed instance makes it a terminated one,
and the commands about tokens go through as long as a token waits.
-/

namespace NexusWorkflow

open ExecutionContext

/-- Status and completion time of the instance are the same, and no token differs. -/
structure Unchanged (state later : EngineState) : Prop where
  status : later.inst.status = state.inst.status
  completedAt : later.inst.completedAt = state.inst.completedAt
  tokens : later.tokens = state.tokens

/-- On a finished instance, the command is refused or finds nothing to do. -/
def EngineCommand.Idles (state : EngineState) : EngineCommand → Prop
  | .startProcess _ _ _ => False
  | .completeServiceTask id _ | .failServiceTask id _ _ | .completeUserTask id _ _ | .fireTimer
      id =>
      ∀ t ∈ state.tokens, t.id = id → t.status ≠ .waiting
  | .deliverMessage name _ => ∀ t ∈ state.tokens, ¬ t.awaitsMessage name
  | .broadcastSignal name _ => ∀ t ∈ state.tokens, ¬ t.awaitsSignal name
  | .suspendInstance | .resumeInstance => True
  | .cancelInstance => state.inst.status = .terminated ∧ ∀ t ∈ state.tokens, t.live = false

instance (state : EngineState) (command : EngineCommand) : Decidable (command.Idles state) := by
  unfold EngineCommand.Idles
  rcases command with _ | _ | _ | _ | _ | _ | _ | _ | _ | _ <;> infer_instance

variable (d : ProcessDefinition) in
/-- A later state of a finished instance, where every command on the way idles. -/
inductive Idled (state : EngineState) (nextId : Nat) : EngineState → Nat → Prop
  | refl : Idled state nextId state nextId
  | next {mid : EngineState} {midId : Nat} (h : Idled state nextId mid midId) {fuel : Nat}
      {command : EngineCommand} {options : ExecuteOptions} {result : EngineResult}
      (hidles : command.Idles mid) (hid : midId ≤ options.firstId)
      (hok : execute d fuel command (some mid) options = .ok result) :
      Idled state nextId result.newState result.nextId

variable {d : ProcessDefinition} {fuel : Nat} {steps : List Step} {state later : EngineState}
  {nextId laterId : Nat} {command : EngineCommand} {options : ExecuteOptions}
  {result : EngineResult} {ctx ctx' : ExecutionContext} {P Q : Pool} {origins : List Origin}

namespace Unchanged

theorem refl (state : EngineState) : Unchanged state state := ⟨rfl, rfl, rfl⟩

theorem trans {mid : EngineState} (h : Unchanged state mid) (h' : Unchanged mid later) :
    Unchanged state later :=
  ⟨h'.status.trans h.status, h'.completedAt.trans h.completedAt, h'.tokens.trans h.tokens⟩

theorem of_eq (h : later = state) : Unchanged state later := h ▸ refl later

end Unchanged

theorem terminal_ne {status : InstanceStatus} (h : status.terminal = true) :
    status ≠ .active ∧ status ≠ .suspended := by
  constructor
  · rintro rfl
    cases h
  · rintro rfl
    cases h

/-- A finished instance is neither suspended nor resumed. -/
theorem terminal_refuses (hterminal : state.inst.status.terminal = true)
    (hcommand : command = .suspendInstance ∨ command = .resumeInstance) :
    execute d fuel command (some state) options ≠ .ok result := by
  intro h
  obtain ⟨mid, hmid, -⟩ := Except.bind_eq_ok_iff.1 h
  rcases hcommand with rfl | rfl
  · have hmid : handleSuspendInstance _ = .ok mid := hmid
    unfold handleSuspendInstance at hmid
    obtain ⟨inst, hinst, hmid⟩ := Except.bind_eq_ok_iff.1 hmid
    obtain rfl : inst = state.inst := (Option.some.inj (requireInstance_eq hinst)).symm
    rw [if_pos (terminal_ne hterminal).1] at hmid
    cases hmid
  · have hmid : handleResumeInstance _ = .ok mid := hmid
    unfold handleResumeInstance at hmid
    obtain ⟨inst, hinst, hmid⟩ := Except.bind_eq_ok_iff.1 hmid
    obtain rfl : inst = state.inst := (Option.some.inj (requireInstance_eq hinst)).symm
    rw [if_pos (terminal_ne hterminal).2] at hmid
    cases hmid

/-! ## Commands about a token -/

/-- The token that a command is about. -/
def EngineCommand.tokenId : EngineCommand → Option Nat
  | .completeServiceTask id _ | .failServiceTask id _ _ | .completeUserTask id _ _ | .fireTimer
      id =>
      some id
  | _ => none

/-- The token addressed ceases to wait, unless it fails with nobody to catch the error. -/
theorem Deed.ceased {id : Nat} (hP : P.Coherent []) (hid : command.tokenId = some id)
    (h : Deed d P command Q origins) :
    (∃ w ∈ P.tokens, w.id = id ∧ w.status = .waiting) ∧
      (Q.Ceased id ∨ Q.status = some .suspended ∧ Q.pending = P.pending ∧ origins = []) := by
  cases h with
  | completeServiceTask _ hw hwaiting h | completeUserTask _ _ hw hwaiting h =>
    obtain rfl := Option.some.inj hid
    exact ⟨⟨_, hw, rfl, hwaiting⟩, .inl (h.ceased hP hw)⟩
  | @failCaught _ _ w hw hwaiting _ _ =>
    obtain rfl := Option.some.inj hid
    refine ⟨⟨w, hw, rfl, hwaiting⟩, .inl ?_⟩
    have hcancelled : (P.cancelOne w).Ceased w.id := by
      intro y hy hyid hyw
      rcases Pool.mem_put hy with rfl | ⟨-, hne⟩
      · cases hyw
      · exact hne hyid
    exact hcancelled.still (.cancelAll _ _)
  | @failUncaught _ _ w hw hwaiting _ =>
    obtain rfl := Option.some.inj hid
    exact ⟨⟨w, hw, rfl, hwaiting⟩, .inr ⟨rfl, rfl, rfl⟩⟩
  | fireInterrupting hw hwaiting _ _ _ =>
    obtain rfl := Option.some.inj hid
    exact ⟨⟨_, hw, rfl, hwaiting⟩, .inl ((P.ceased_finish _).still (.cancelAll _ _))⟩
  | fireBoundary hw hwaiting _ _ _ =>
    obtain rfl := Option.some.inj hid
    exact ⟨⟨_, hw, rfl, hwaiting⟩, .inl (P.ceased_finish _)⟩
  | fireCatch hw hwaiting _ h =>
    obtain rfl := Option.some.inj hid
    exact ⟨⟨_, hw, rfl, hwaiting⟩,
      .inl (h.ceased (hP.clearSiblings _) (mem_clearSiblings_self hw))⟩
  | startProcess _ _ _ | suspendInstance _ | resumeInstance _ | cancelInstance => cases hid

/-- When the handler has left nothing in the queue, the call is over. -/
theorem execute_of_queue_nil {mid : ExecutionContext}
    (hmid : handleCommand d (ExecutionContext.create (some state) options) command = .ok mid)
    (hqueue : mid.pendingQueue = [])
    (h : execute d fuel command (some state) options = .ok result) :
    ∃ inst, mid.inst = some inst ∧ result.newState = mid.toState inst := by
  unfold execute at h
  rw [hmid] at h
  obtain ⟨after, hafter, h⟩ := Except.bind_eq_ok_iff.1 h
  obtain rfl := Except.ok.inj hafter
  rw [runLoop_nil d hqueue] at h
  obtain ⟨after, hafter, h⟩ := Except.bind_eq_ok_iff.1 h
  obtain rfl := Except.ok.inj hafter
  obtain ⟨inst, hinst, h⟩ := Except.bind_eq_ok_iff.1 h
  rw [← Except.ok.inj h]
  exact ⟨inst, requireInstance_eq hinst, rfl⟩

/-- A token that ceases to wait is a token that differs. -/
theorem not_unchanged_of_ceased (run : Run d steps state nextId) (hid : nextId ≤ options.firstId)
    {t : Token} (ht : t ∈ state.tokens) (hwaiting : t.status = .waiting)
    (h : execute d fuel command (some state) options = .ok result)
    (hceased : ∀ after,
      handleCommand d (ExecutionContext.create (some state) options) command = .ok after →
        after.pool.Ceased t.id) : ¬ Unchanged state result.newState := fun hsame =>
  execute_ceases_of (Call.next run command hid).trace.1.coherent (run.mem_pool hid ht).2 h hceased t
    (hsame.tokens ▸ ht) rfl hwaiting

/-- Nothing is new in the pool, so that the queue is empty. -/
theorem queue_nil_of_spawned_nil {mid : ExecutionContext}
    (hmade : Spawned (Made d) [] Q mid.pool) (hpending : Q.pending = []) :
    mid.pendingQueue = [] := by
  obtain ⟨news, n, hnews, -, hpool⟩ := hmade
  cases hnews
  have hmid : mid.pool.pending = [] := by
    rw [hpool, Pool.spawn, hpending]
    rfl
  exact List.map_eq_nil_iff.1 hmid

/-- A command about a token that `execute` accepts finds the token waiting, and changes it or
suspends the instance. -/
theorem changes_of_tokenId {id : Nat} (run : Run d steps state nextId)
    (hid : nextId ≤ options.firstId) (htoken : command.tokenId = some id)
    (hterminal : state.inst.status.terminal)
    (h : execute d fuel command (some state) options = .ok result) :
    (∃ t ∈ state.tokens, t.id = id ∧ t.status = .waiting) ∧ ¬ Unchanged state result.newState := by
  have hcoh := (Call.next run command hid).trace.1.coherent
  obtain ⟨mid, hmid, -⟩ := Except.bind_eq_ok_iff.1 h
  cases handleCommand_commanded hcoh.numbered hmid with
  | deliverMessage _ _ _ | broadcastSignal _ _ _ => cases htoken
  | @deed _ Q _ origins hdeed hmade =>
    obtain ⟨⟨w, hw, hwid, hwaiting⟩, hcase⟩ := hdeed.ceased hcoh htoken
    obtain ⟨t, ht, rfl⟩ := List.mem_map.1 hw
    rw [(run.reload_eq options).1] at ht
    refine ⟨⟨t, ht, hwid, hwaiting⟩, ?_⟩
    rcases hcase with hceased | ⟨hstatus, hpending, rfl⟩
    · refine not_unchanged_of_ceased run hid ht hwaiting h fun after hok => ?_
      obtain rfl := Except.ok.inj (hmid.symm.trans hok)
      have htid : t.id = id := hwid
      rw [htid]
      exact hceased.still hmade.stillWaiting
    · -- nobody catches the error: the instance is suspended, and the call is over
      obtain ⟨inst, hinst, hstate⟩ :=
        execute_of_queue_nil hmid (queue_nil_of_spawned_nil hmade hpending) h
      have hsuspended : mid.pool.status = some .suspended := hmade.status.trans hstatus
      rw [pool, hinst] at hsuspended
      intro hsame
      have hkept := hsame.status
      rw [hstate] at hkept
      exact (terminal_ne hterminal).2 (hkept.symm.trans (Option.some.inj hsuspended))

/-! ## The other commands -/

/-- A second start makes a new token. -/
theorem not_unchanged_startProcess {vars : Option Variables}
    {correlationKey businessKey : Option String} (run : Run d steps state nextId)
    (hid : nextId ≤ options.firstId)
    (h : execute d fuel (.startProcess vars correlationKey businessKey) (some state) options =
      .ok result) : ¬ Unchanged state result.newState := by
  have hcoh := (Call.next run (.startProcess vars correlationKey businessKey) hid).trace.1.coherent
  obtain ⟨ctx, inst, ⟨x, hx, hge⟩, -, -, -, hstate, -⟩ :=
    execute_keeps (I := fun ctx => ∃ x, ctx.pool.Holds x ∧ options.firstId ≤ x.id)
      (C := fun _ => True) hcoh h (fun _ _ => trivial)
      (fun after _ hok => by
        cases handleCommand_commanded hcoh.numbered hok with
        | deed hdeed hmade =>
          cases hdeed
          obtain ⟨news, n, hnews, hfresh, hpool⟩ := hmade
          obtain ⟨t, rest, -, -, rfl⟩ := List.forall₂_cons_left_iff.1 hnews
          refine ⟨t, Pool.holds_of_mem ?_, hfresh.ge t List.mem_cons_self⟩
          rw [hpool]
          exact List.mem_append_right _ List.mem_cons_self)
      fun before t after _ hhand ⟨x, hx, hge⟩ hok =>
        ⟨x, (processToken_turned hhand hok).holds hhand hx, hge⟩
  intro hsame
  obtain ⟨y, hy, hbare⟩ := Pool.holds_iff.1 hx
  obtain ⟨z, hz, rfl⟩ := List.mem_map.1 hy
  have hold : z ∈ state.tokens := by
    rw [← hsame.tokens, hstate]
    exact hz
  have hlt := (run.mem_pool hid hold).2
  have heq : z.erase.id = x.id := Token.id_of_bare hbare
  rw [Token.id_erase] at heq
  omega

/-- Cancellation has nothing to do only in a terminated instance without live tokens. -/
theorem unchanged_cancelInstance_iff (run : Run d steps state nextId)
    (hid : nextId ≤ options.firstId)
    (h : execute d fuel .cancelInstance (some state) options = .ok result) :
    Unchanged state result.newState ↔
      state.inst.status = .terminated ∧ ∀ t ∈ state.tokens, t.live = false := by
  have hcoh := (Call.next run .cancelInstance hid).trace.1.coherent
  obtain ⟨htokens, -⟩ := run.reload_eq options
  obtain ⟨mid, hmid, -⟩ := Except.bind_eq_ok_iff.1 h
  have hok : handleCancelInstance (ExecutionContext.create (some state) options) = .ok mid := hmid
  unfold handleCancelInstance at hok
  obtain ⟨inst, hinst, hok⟩ := Except.bind_eq_ok_iff.1 hok
  obtain rfl : inst = state.inst := by
    have hsome := requireInstance_eq hinst
    rw [cancelTokens_inst] at hsome
    exact (Option.some.inj hsome).symm
  cases handleCommand_commanded hcoh.numbered hmid with
  | deed hdeed hmade =>
    cases hdeed
    obtain ⟨inst, hmidInst, hstate⟩ :=
      execute_of_queue_nil hmid (queue_nil_of_spawned_nil hmade rfl) h
    have hinstEq : inst = { state.inst with status := .terminated } := by
      rw [← Except.ok.inj hok] at hmidInst
      exact (Option.some.inj hmidInst).symm
    rw [hinstEq] at hstate
    constructor
    · intro hsame
      have hstatus := hsame.status
      have hsameTokens := hsame.tokens
      rw [hstate] at hstatus hsameTokens
      refine ⟨hstatus.symm, fun t ht => ?_⟩
      rw [← hsameTokens] at ht
      -- what is in the pool now has not been live, or has been cancelled
      obtain ⟨news, n, hnews, -, hpool⟩ := hmade
      cases hnews
      have hmem : t.erase ∈ mid.pool.tokens := mid.mem_pool ht
      rw [hpool, Pool.spawn, List.append_nil] at hmem
      rcases Pool.mem_cancelAll hmem with ⟨-, hlive⟩ | ⟨x, -, -, heq⟩
      · exact hlive
      · have hcancelled : t.status = .cancelled := congrArg Token.status heq
        simp [Token.live, hcancelled]
    · rintro ⟨hstatus, hnone⟩
      have hfilter : (ExecutionContext.create (some state) options).getAllTokens.filter Token.live =
          [] := by
        rw [List.filter_eq_nil_iff]
        intro t ht
        rw [getAllTokens, htokens] at ht
        simp [hnone t ht]
      rw [hfilter] at hok
      rw [hstate]
      refine ⟨hstatus.symm, rfl, ?_⟩
      rw [← Except.ok.inj hok]
      exact htokens

/-! ## The exact condition -/

/-- On a finished instance, a command that `execute` accepts leaves it as it is exactly if it
idles. -/
theorem unchanged_iff_idles (run : Run d steps state nextId) (hid : nextId ≤ options.firstId)
    (hterminal : state.inst.status.terminal)
    (h : execute d fuel command (some state) options = .ok result) :
    Unchanged state result.newState ↔ command.Idles state := by
  have htoken : ∀ {id : Nat}, command.tokenId = some id →
      (Unchanged state result.newState ↔
        ∀ t ∈ state.tokens, t.id = id → t.status ≠ .waiting) := by
    intro id hcommand
    obtain ⟨⟨t, ht, htid, hwaiting⟩, hchanged⟩ := changes_of_tokenId run hid hcommand hterminal h
    exact iff_of_false hchanged fun hnone => hnone t ht htid hwaiting
  cases command with
  | startProcess _ _ _ => exact iff_of_false (not_unchanged_startProcess run hid h) id
  | completeServiceTask _ _ | failServiceTask _ _ _ | completeUserTask _ _ _ | fireTimer _ =>
    exact htoken rfl
  | deliverMessage name vars =>
    constructor
    · intro hsame t ht hawaits
      refine not_unchanged_of_ceased run hid ht (Token.awaitsMessage_waiting hawaits) h
        (fun after hok => ?_) hsame
      have hcoh := (Call.next run (.deliverMessage name vars) hid).trace.1.coherent
      cases handleCommand_commanded hcoh.numbered hok with
      | deed hdeed _ => cases hdeed
      | deliverMessage _ _ hresumes =>
        exact hresumes.ceased hcoh (w := t.erase)
          (List.mem_filter.2 ⟨(run.mem_pool hid ht).1, hawaits⟩)
    · intro hnone
      exact .of_eq (unchanged_of_no_target run (fun _ => rfl)
        (fun t ht => Bool.eq_false_iff.2 (hnone t ht)) h).1
  | broadcastSignal name vars =>
    constructor
    · intro hsame t ht hawaits
      refine not_unchanged_of_ceased run hid ht (Token.awaitsSignal_waiting hawaits) h
        (fun after hok => ?_) hsame
      have hcoh := (Call.next run (.broadcastSignal name vars) hid).trace.1.coherent
      cases handleCommand_commanded hcoh.numbered hok with
      | deed hdeed _ => cases hdeed
      | broadcastSignal _ _ hresumes =>
        exact hresumes.ceased hcoh (w := t.erase)
          (List.mem_filter.2 ⟨(run.mem_pool hid ht).1, hawaits⟩)
    · intro hnone
      exact .of_eq (unchanged_of_no_target run (fun _ => rfl)
        (fun t ht => Bool.eq_false_iff.2 (hnone t ht)) h).1
  | suspendInstance => exact (terminal_refuses hterminal (.inl rfl) h).elim
  | resumeInstance => exact (terminal_refuses hterminal (.inr rfl) h).elim
  | cancelInstance => exact unchanged_cancelInstance_iff run hid h

theorem Idled.run (run : Run d steps state nextId) (h : Idled d state nextId later laterId) :
    ∃ more, Run d more later laterId := by
  induction h with
  | refl => exact ⟨_, run⟩
  | next _ _ hid hok ih =>
    obtain ⟨more, hmid⟩ := ih
    exact ⟨_, hmid.next hid hok⟩

/-- A finished instance stays as it is as long as all commands idle. -/
theorem Idled.unchanged (run : Run d steps state nextId) (hterminal : state.inst.status.terminal)
    (h : Idled d state nextId later laterId) : Unchanged state later := by
  induction h with
  | refl => exact .refl state
  | next hmid hidles hid hok ih =>
    obtain ⟨more, hrun⟩ := hmid.run run
    refine ih.trans ((unchanged_iff_idles hrun hid ?_ hok).2 hidles)
    rw [ih.status]
    exact hterminal

/-- In a finished instance, a command that `execute` accepts changes nothing exactly if it idles,
and nothing changes in a sequence of such commands. -/
theorem finished_unchanged_iff (run : Run d steps state nextId)
    (hterminal : state.inst.status.terminal) :
    (∀ (fuel : Nat) (command : EngineCommand) (options : ExecuteOptions) (result : EngineResult),
      nextId ≤ options.firstId → execute d fuel command (some state) options = .ok result →
        (Unchanged state result.newState ↔ command.Idles state)) ∧
    ∀ (later : EngineState) (laterId : Nat), Idled d state nextId later laterId →
      Unchanged state later :=
  ⟨fun _ _ _ _ hid hok => unchanged_iff_idles run hid hterminal hok,
    fun _ _ h => h.unchanged run hterminal⟩

/-! ## The cancellation of a completed instance -/

open Diagram

/-- A message reaches an interview that is over. -/
theorem finished_unchanged_interview : ∃ (r : Replay) (result : EngineResult),
    r.state.inst.status = .completed ∧
    execute interview 10 (.deliverMessage "answer" none) (some r.state)
      (stopped always r.nextId) = .ok result ∧ Unchanged r.state result.newState := by
  obtain ⟨r, result, call, hok, htest⟩ := exists_call_of_replay interview always 10 none
    [.completeUserTask 3 "user" none, .completeUserTask 4 "user" none]
      (.deliverMessage "answer" none)
    (fun r _ => r.state.inst.status = .completed ∧
      ∀ t ∈ r.state.tokens, ¬ t.awaitsMessage "answer") (by decide +kernel)
  obtain ⟨hcompleted, hnone⟩ := of_decide_eq_true htest
  obtain ⟨_, run, hid⟩ := call.exists_run
  have hterminal : r.state.inst.status.terminal := by
    rw [hcompleted]
    rfl
  exact ⟨r, result, hcompleted, hok,
    ((finished_unchanged_iff run hterminal).1 _ _ _ _ hid hok).2 hnone⟩

/-- A completed interview is cancelled, and is a terminated one. -/
theorem not_unchanged_interview : ∃ (r : Replay) (result : EngineResult),
    Call interview r.steps .cancelInstance (some r.state) (stopped always r.nextId) ∧
    r.state.inst.status = .completed ∧
    execute interview 10 .cancelInstance (some r.state) (stopped always r.nextId) = .ok result ∧
    result.newState.inst.status = .terminated ∧ ¬ Unchanged r.state result.newState := by
  obtain ⟨r, result, call, hok, htest⟩ := exists_call_of_replay interview always 10 none
    [.completeUserTask 3 "user" none, .completeUserTask 4 "user" none] .cancelInstance
    (fun r result => r.state.inst.status = .completed ∧
      result.newState.inst.status = .terminated) (by decide +kernel)
  obtain ⟨hcompleted, hterminated⟩ := of_decide_eq_true htest
  refine ⟨r, result, call, hcompleted, hok, hterminated, fun hsame => ?_⟩
  have hstatus := hsame.status
  rw [hcompleted, hterminated] at hstatus
  exact absurd hstatus (by decide)

end NexusWorkflow
