import NexusWorkflow.Run.Diagram

/-!
# Terminal safety

In an instance that has completed or was terminated no token should be live.  A terminate end event
breaks this when other tokens are still in the queue: it cancels them, but the loop goes on with the
queued versions.  Where no terminate end event is processed with a token in the queue, terminal
instances have no live token.
-/

namespace NexusWorkflow

open ExecutionContext

/-- Once the instance is terminal, no token is active, waiting or suspended. -/
def EngineState.TerminalSafe (state : EngineState) : Prop :=
  state.inst.status.terminal → ∀ t ∈ state.tokens,
    t.status ≠ .active ∧ t.status ≠ .waiting ∧ t.status ≠ .suspended

/-- The token stands at a terminate end event. -/
def Token.atTerminate (d : ProcessDefinition) (t : Token) : Bool :=
  match d.getElement t.elementId with
  | .ok (.endEvent e) => e.eventDefinition.type = .terminate
  | _ => false

/-- A terminate end event is not processed while other tokens are in the queue. -/
def Step.TerminatesAlone (d : ProcessDefinition) (st : Step) : Prop :=
  match st.action with
  | .command _ => True
  | .process t => t.atTerminate d → st.before.pendingQueue = []

instance (d : ProcessDefinition) (st : Step) : Decidable (st.TerminatesAlone d) := by
  unfold Step.TerminatesAlone
  rcases st.action with _ | _ <;> infer_instance

/-! ## What the rules do to the status of the instance -/

namespace Pool

def Terminal (P : Pool) : Prop := P.status.any InstanceStatus.terminal = true

/-- Nothing is left to do. -/
structure AtRest (P : Pool) : Prop where
  noLive : ∀ t ∈ P.tokens, t.live = false
  noPending : P.pending = []

/-- A terminal instance is at rest. -/
def RestsWhenTerminal (P : Pool) : Prop := P.Terminal → P.AtRest

end Pool

variable {d : ProcessDefinition} {P Q P' : Pool} {origins : List Origin}

theorem SubEnd.status {s : String} (h : SubEnd d s P Q origins) : Q.status = P.status := by
  cases h <;> rfl

theorem FireCancel.status {s : String} {outer : Token} (h : FireCancel d s outer P Q origins) :
    Q.status = P.status := by
  cases h <;> rfl

theorem TxCancel.status {s : String} {t : Token} (h : TxCancel d s t P Q origins) :
    Q.status = P.status := by
  cases h with
  | fire _ _ hfire => exact hfire.status
  | _ => rfl

theorem ChildDone.status {c : Token} {e : BpmnFlowElement} {lc : MultiInstanceLoopCharacteristics}
    (h : ChildDone c e lc P Q origins) : Q.status = P.status := by
  cases h <;> rfl

theorem HandlerDone.status {h throwToken : Token} (hd : HandlerDone d h throwToken P Q origins) :
    Q.status = P.status := by
  cases hd with
  | fire _ _ _ _ _ hfire => exact hfire.status
  | _ => rfl

theorem Complete.status {w : Token} (h : Complete d P w Q origins) :
    Q.status = P.autoResume.status := by
  cases h with
  | child _ _ h => exact h.status
  | handler _ _ h => exact h.status
  | plain _ _ _ => rfl

theorem Pool.status_clearSiblings (P : Pool) (w : Token) :
    (P.clearSiblings w).status = P.status := by
  unfold Pool.clearSiblings
  cases w.parentTokenId <;> rfl

theorem Resumes.status {targets : List Token} (h : Resumes d targets P P') :
    P'.status = P.status := by
  induction h with
  | nil _ => rfl
  | skip _ _ _ ih => exact ih
  | resume _ _ hresume hmade _ ih =>
    obtain ⟨-⟩ := hresume
    rw [ih, hmade.status, Pool.status_clearSiblings]
    rfl

theorem Pool.terminal_autoResume : P.autoResume.Terminal ↔ P.Terminal := by
  unfold Pool.Terminal Pool.autoResume
  by_cases hs : P.status = some .suspended
  · simp only [hs, if_true]
    decide
  · simp [hs]

/-- An end event changes the status only when it ends the process: then no token is live, and the
queue is empty unless the event is a terminate end event. -/
theorem Ends.status {t : Token} {e : EventElement}
    (ht : ∀ x ∈ P.tokens, x.id = t.id → x.live = false) (h : Ends d t P e Q origins) :
    Q.status = P.status ∨ (origins = [] ∧ (∀ x ∈ Q.tokens, x.live = false) ∧
      Q.pending = P.pending ∧ (e.eventDefinition.type = .terminate ∨ P.pending = [])) := by
  cases h with
  | cancelTop _ _ => exact Or.inl rfl
  | cancel _ _ h => exact Or.inl h.status
  | terminate he =>
    refine Or.inr ⟨rfl, ?_, rfl, Or.inl he⟩
    intro x hx
    rcases Pool.mem_cancelAll hx with ⟨hx, hkept⟩ | ⟨y, -, -, rfl⟩
    · by_cases hid : x.id = t.id
      · exact ht x hx hid
      · simpa [hid] using hkept
    · rfl
  | inner _ _ _ h => exact Or.inl h.status
  | last _ _ _ hlive hpending => exact Or.inr ⟨rfl, hlive, rfl, Or.inr hpending⟩
  | more _ _ _ _ => exact Or.inl rfl

/-- What a command does to the status: it sets a live one, or it addresses a waiting token and sets
none but, perhaps, `active`; or it cancels all. -/
theorem Deed.status {command : EngineCommand} (h : Deed d P command Q origins) :
    (Q.status = some .active ∨ Q.status = some .suspended) ∨
    ((∃ w ∈ P.tokens, w.status = .waiting) ∧
      (Q.status = P.status ∨ Q.status = P.autoResume.status)) ∨
    (origins = [] ∧ (∀ x ∈ Q.tokens, x.live = false) ∧ Q.pending = P.pending) := by
  cases h with
  | startProcess _ _ _ => exact Or.inl (Or.inl rfl)
  | completeServiceTask _ hw hwaiting h =>
    exact Or.inr (Or.inl ⟨⟨_, hw, hwaiting⟩, Or.inr h.status⟩)
  | completeUserTask _ _ hw hwaiting h =>
    exact Or.inr (Or.inl ⟨⟨_, hw, hwaiting⟩, Or.inr h.status⟩)
  | failCaught _ hw hwaiting _ => exact Or.inr (Or.inl ⟨⟨_, hw, hwaiting⟩, Or.inl rfl⟩)
  | failUncaught _ _ _ _ => exact Or.inl (Or.inr rfl)
  | fireInterrupting hw hwaiting _ _ _ => exact Or.inr (Or.inl ⟨⟨_, hw, hwaiting⟩, Or.inl rfl⟩)
  | fireBoundary hw hwaiting _ _ _ => exact Or.inr (Or.inl ⟨⟨_, hw, hwaiting⟩, Or.inl rfl⟩)
  | @fireCatch w hw hwaiting _ _ _ h =>
    refine Or.inr (Or.inl ⟨⟨_, hw, hwaiting⟩, Or.inr ?_⟩)
    rw [h.status, Pool.autoResume, Pool.autoResume, Pool.status_clearSiblings]
  | suspendInstance _ => exact Or.inl (Or.inr rfl)
  | resumeInstance _ => exact Or.inl (Or.inl rfl)
  | cancelInstance =>
    refine Or.inr (Or.inr ⟨rfl, ?_, rfl⟩)
    intro x hx
    rcases Pool.mem_cancelAll hx with ⟨-, hlive⟩ | ⟨y, -, -, rfl⟩
    · exact hlive
    · rfl

/-! ## The invariant -/

open Pool

theorem Pool.not_atRest_of_waiting {w : Token} (hw : w ∈ P.tokens)
    (hwaiting : w.status = .waiting) : ¬ P.AtRest := fun h => by
  have := h.noLive w hw
  simp [Token.live, hwaiting] at this

theorem Pool.atRest_of_spawned_nil (hlive : ∀ x ∈ Q.tokens, x.live = false)
    (hpending : Q.pending = []) (hmade : Spawned (Made d) [] Q P') : P'.AtRest := by
  obtain ⟨news, n, hR, -, rfl⟩ := hmade
  cases hR
  exact ⟨by simpa [Pool.spawn] using hlive, by simpa [Pool.spawn] using hpending⟩

/-- A turn: the token was in the queue, so that the instance was not terminal before. -/
theorem Turned.restsWhenTerminal {t : Token} (halone : t.atTerminate d → P.pending = [])
    (h : (P.push t).RestsWhenTerminal) (hturned : Turned d P t P') : P'.RestsWhenTerminal := by
  obtain ⟨Q, origins, hturn, hmade⟩ := hturned
  have hkeep : Q.status = P.status → P'.RestsWhenTerminal := fun hs hterminal => by
    have hpush : (P.push t).Terminal := by
      rwa [Terminal, hmade.status, hs] at hterminal
    exact absurd (h hpush).noPending (List.cons_ne_nil _ _)
  cases hturn with
  | pass _ _ _ => exact hkeep rfl
  | park _ _ => exact hkeep rfl
  | branch _ _ _ => exact hkeep rfl
  | child _ _ _ h => exact hkeep h.status
  | @ends e he _ _ hends =>
    have hdone : ∀ x ∈ (P.finish t).tokens, x.id = t.id → x.live = false := by
      intro x hx hid
      rcases mem_put hx with rfl | ⟨-, hne⟩
      · rfl
      · exact absurd hid hne
    rcases hends.status hdone with hs | ⟨rfl, hlive, hpending, hwhy⟩
    · exact hkeep hs
    · have hempty : P.pending = [] := by
        rcases hwhy with hterminate | hempty
        · exact halone (by simp [Token.atTerminate, he, hterminate])
        · exact hempty
      exact fun _ => atRest_of_spawned_nil hlive (hpending.trans hempty) hmade

theorem Commanded.restsWhenTerminal {command : EngineCommand} (hpending : P.pending = [])
    (h : P.RestsWhenTerminal) (hc : Commanded d P command P') : P'.RestsWhenTerminal := by
  have hresumes : ∀ p : Token → Bool, (∀ t, p t = true → t.status = .waiting) →
      Resumes d (P.tokens.filter p) P P' → P'.RestsWhenTerminal := by
    intro p hp hr hterminal
    rw [Terminal, hr.status] at hterminal
    have hrest := h hterminal
    -- a terminal instance has no target, and nothing happens
    have hnone : P.tokens.filter p = [] := by
      rw [List.filter_eq_nil_iff]
      exact fun t ht hpt => not_atRest_of_waiting ht (hp t hpt) hrest
    rw [hnone] at hr
    cases hr
    exact hrest
  cases hc with
  | deliverMessage name _ hr =>
    exact hresumes _ (fun t ht => by simp [Token.awaitsMessage] at ht; exact ht.1) hr
  | broadcastSignal name _ hr =>
    exact hresumes _ (fun t ht => by simp [Token.awaitsSignal] at ht; exact ht.1) hr
  | deed hd hmade =>
    intro hterminal
    rw [Terminal, hmade.status] at hterminal
    rcases hd.status with (hs | hs) | ⟨⟨w, hw, hwaiting⟩, hs⟩ | ⟨rfl, hlive, hQ⟩
    · rw [hs] at hterminal
      cases hterminal
    · rw [hs] at hterminal
      cases hterminal
    · have hP : P.Terminal := by
        rcases hs with hs | hs
        · rwa [hs] at hterminal
        · rw [hs] at hterminal
          exact terminal_autoResume.1 hterminal
      exact absurd (h hP) (not_atRest_of_waiting hw hwaiting)
    · exact atRest_of_spawned_nil hlive (hQ.trans hpending) hmade

/-- In a run in which no terminate end event is processed with other tokens in the queue, a terminal
instance has no live token. -/
theorem terminalSafe_of_terminatesAlone {steps : List Step} {state : EngineState} {nextId : Nat}
    (run : Run d steps state nextId) (halone : ∀ st ∈ steps, st.TerminatesAlone d) :
    state.TerminalSafe := by
  obtain ⟨ctx, inst, htrace, -, hinst, rfl, -⟩ := run.trace
  have hinv : ctx.pool.RestsWhenTerminal := by
    refine htrace.maintains (C := Step.TerminatesAlone d) ?_ ?_ ?_ ?_ halone
    · rintro n ⟨⟩
    · rintro P n - - - hI hterminal
      exact ⟨(hI hterminal).noLive, (hI hterminal).noPending⟩
    · intro before command after _ _ hpending hI hcmd
      exact hcmd.restsWhenTerminal hpending hI
    · intro before t after hst _ hI hturned
      refine hturned.restsWhenTerminal (fun ht => ?_) hI
      simp [pool, show before.pendingQueue = [] from hst ht]
  intro (hterminal : inst.status.terminal = true) t ht
  have hrest := hinv (by simpa [Pool.Terminal, pool, hinst] using hterminal)
  have hlive : t.live = false := hrest.noLive t.erase (ctx.mem_pool ht)
  have hsuspended : t.status ≠ .suspended :=
    htrace.coherent.notSuspended t.erase (ctx.mem_pool ht)
  refine ⟨?_, ?_, hsuspended⟩
  · intro hs
    simp [Token.live, hs] at hlive
  · intro hs
    simp [Token.live, hs] at hlive

/-! ## A task beside a terminate end event -/

namespace Diagram

/-- A parallel split with a user task and a terminate end event behind it. -/
def besideTerminate (flows : List SequenceFlow) : ProcessDefinition :=
  definition flows [start flows "start", .gateway (gateway flows "split" .parallel),
    userTask flows "task", finish flows "kill" .terminate]

def taskFirst : ProcessDefinition :=
  besideTerminate [.between "toSplit" "start" "split", .between "toTask" "split" "task",
    .between "toKill" "split" "kill"]

def killFirst : ProcessDefinition :=
  besideTerminate [.between "toSplit" "start" "split", .between "toKill" "split" "kill",
    .between "toTask" "split" "task"]

end Diagram

open Diagram

/-- The task waits when the terminate end event is processed, and is cancelled. -/
theorem terminalSafe_taskFirst : ∃ r : Replay, Run taskFirst r.steps r.state r.nextId ∧
    r.state.inst.status = .completed ∧ r.state.TerminalSafe := by
  obtain ⟨r, hrun, htest⟩ := exists_run_of_replay taskFirst always 10 none []
    (fun r => r.state.inst.status = .completed ∧ ∀ st ∈ r.steps, st.TerminatesAlone taskFirst)
    (by decide +kernel)
  obtain ⟨hstatus, halone⟩ := of_decide_eq_true htest
  exact ⟨r, hrun, hstatus, terminalSafe_of_terminatesAlone hrun halone⟩

/-- The terminate end event comes before the task in the queue: the instance is completed, and the
task waits. -/
theorem not_terminalSafe_killFirst : ∃ r : Replay, Run killFirst r.steps r.state r.nextId ∧
    r.state.inst.status = .completed ∧ (∃ t ∈ r.state.tokens, t.status = .waiting) ∧
    ¬ r.state.TerminalSafe := by
  obtain ⟨r, hrun, htest⟩ := exists_run_of_replay killFirst always 10 none []
    (fun r => r.state.inst.status = .completed ∧ ∃ t ∈ r.state.tokens, t.status = .waiting)
    (by decide +kernel)
  obtain ⟨hstatus, t, ht, hwaiting⟩ := of_decide_eq_true htest
  refine ⟨r, hrun, hstatus, ⟨t, ht, hwaiting⟩, fun hsafe => ?_⟩
  exact (hsafe (by simp [InstanceStatus.terminal, hstatus]) t ht).2.1 hwaiting

end NexusWorkflow
