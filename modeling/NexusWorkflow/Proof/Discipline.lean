import NexusWorkflow.Run.Diagram

/-!
# Command discipline

Four commands address a token: they provide the work of a service or script task, the decision of a
user task, or the passing of time.  They should succeed only on a token that waits for just that.
The handlers ask no more than that the token is waiting, so whether a command is right for it is
left to the caller: the discipline is kept exactly where the element of the token calls for what the
command provides.
-/

namespace NexusWorkflow

open ExecutionContext

variable {d : ProcessDefinition} {P Q P' : Pool} {origins : List Origin}

/-! ## What commands provide -/

inductive Provision where
  /-- The work of a service task or a script task, done or failed. -/
  | work
  | userTask
  | timer
  deriving DecidableEq

/-- The token that a command addresses, and what it provides. -/
def EngineCommand.addressed : EngineCommand → Option (Nat × Provision)
  | .completeServiceTask id _ | .failServiceTask id _ _ => some (id, .work)
  | .completeUserTask id _ _ => some (id, .userTask)
  | .fireTimer id => some (id, .timer)
  | _ => none

/-- The element of the token calls for the provision, and the token is not the parent of a
multi-instance activity. -/
def Token.CallsFor (d : ProcessDefinition) (t : Token) (provision : Provision) : Prop :=
  match d.getElement t.elementId, provision with
  | .ok (.serviceTask e), .work => ¬ t.Wraps (.serviceTask e)
  | .ok (.scriptTask e), .work => ¬ t.Wraps (.scriptTask e)
  | .ok (.userTask e), .userTask => ¬ t.Wraps (.userTask e)
  | .ok (.intermediateCatchEvent e), .timer => e.eventDefinition.type = .timer
  | .ok (.boundaryEvent b), .timer => b.eventDefinition.type = .timer
  | _, _ => False

instance (t : Token) (provision : Provision) : Decidable (t.CallsFor d provision) := by
  unfold Token.CallsFor
  rcases d.getElement t.elementId with _ | e
  · infer_instance
  · rcases e with _ | _ | _ | _ | _ | _ | _ | _ | _ | _ | _ | _ <;>
      rcases provision with _ | _ | _ <;>
      infer_instance

/-- The token stands at a service or script task, and does not wait there for children. -/
def Token.AtWork (d : ProcessDefinition) (t : Token) : Prop :=
  match d.getElement t.elementId with
  | .ok e => (e.type = .serviceTask ∨ e.type = .scriptTask) ∧ ¬ t.Wraps e
  | .error _ => False

instance (t : Token) : Decidable (t.AtWork d) := by
  unfold Token.AtWork
  rcases d.getElement t.elementId with _ | _ <;> infer_instance

/-- The token waits for what is provided. -/
def Token.Awaits (d : ProcessDefinition) (t : Token) : Provision → Prop
  | .work => t.waitsFor .external ∧ t.AtWork d
  | .userTask => t.waitsFor .userTask
  | .timer => t.waitsFor .timer

instance (t : Token) (provision : Provision) : Decidable (t.Awaits d provision) := by
  unfold Token.Awaits
  split <;> infer_instance

theorem Token.waitsFor_of_eq {t : Token} {c : WaitCondition} (h : t.waitingFor = some c)
    (type : WaitConditionType) : t.waitsFor type = true ↔ c.type = type := by
  simp [waitsFor, h]

theorem EventDefinition.catchCondition_timer {definition : EventDefinition} {c : WaitCondition}
    (h : definition.catchCondition = some c) : c.type = .timer ↔ definition.type = .timer := by
  unfold catchCondition at h
  cases htype : definition.type <;> simp [htype] at h <;> simp [← h]

theorem BoundaryEventElement.waitCondition_timer {b : BoundaryEventElement} {c : WaitCondition}
    (h : b.waitCondition = some c) : c.type = .timer ↔ b.eventDefinition.type = .timer := by
  unfold waitCondition at h
  cases htype : b.eventDefinition.type <;> simp [htype] at h <;> simp [← h]

/-- A justified token waits for a provision just when its element calls for it. -/
theorem Token.Justified.awaits_iff {t : Token} (h : t.Justified d) (provision : Provision) :
    t.Awaits d provision ↔ t.CallsFor d provision := by
  obtain ⟨e, he, hcondition, hsome⟩ := h
  obtain ⟨c, hc⟩ := Option.isSome_iff_exists.1 hsome
  rw [hc] at hcondition
  have hwaits := Token.waitsFor_of_eq hc
  cases e with
  | serviceTask e | scriptTask e =>
    cases hcondition
    cases provision <;> simp [Awaits, CallsFor, AtWork, he, hwaits, BpmnFlowElement.type]
  | userTask e =>
    simp only [conditionAt, Option.some.injEq] at hcondition
    by_cases hw : t.Wraps (.userTask e)
    · rw [if_pos hw] at hcondition
      cases provision <;>
        simp [Awaits, CallsFor, AtWork, he, hwaits, ← hcondition, hw, BpmnFlowElement.type]
    · rw [if_neg hw] at hcondition
      cases provision <;>
        simp [Awaits, CallsFor, AtWork, he, hwaits, ← hcondition, hw, BpmnFlowElement.type]
  | manualTask e =>
    simp only [conditionAt] at hcondition
    split_ifs at hcondition with hw
    cases hcondition
    cases provision <;> simp [Awaits, CallsFor, AtWork, he, hwaits, BpmnFlowElement.type]
  | intermediateCatchEvent e =>
    have htimer := EventDefinition.catchCondition_timer hcondition
    have huser := EventDefinition.catchCondition_ne_userTask hcondition
    cases provision <;>
      simp [Awaits, CallsFor, AtWork, he, hwaits, htimer, huser, BpmnFlowElement.type]
  | boundaryEvent b =>
    have htimer := BoundaryEventElement.waitCondition_timer hcondition
    have huser := BoundaryEventElement.waitCondition_ne_userTask hcondition
    cases provision <;>
      simp [Awaits, CallsFor, AtWork, he, hwaits, htimer, huser, BpmnFlowElement.type]
  | subProcess e tx els flows startId =>
    cases hcondition
    cases provision <;> simp [Awaits, CallsFor, AtWork, he, hwaits, BpmnFlowElement.type]
  | intermediateThrowEvent e =>
    simp only [conditionAt] at hcondition
    split_ifs at hcondition
    cases hcondition
    cases provision <;> simp [Awaits, CallsFor, AtWork, he, hwaits, BpmnFlowElement.type]
  | startEvent e | endEvent e | callActivity e | gateway e => cases hcondition

/-! ## The branches of an event-based gateway -/

/-- The token waits for an event. -/
def Token.AwaitsEvent (t : Token) : Prop :=
  t.status = .waiting ∧ (t.waitsFor .timer ∨ t.waitsFor .message ∨ t.waitsFor .signal)

instance (t : Token) : Decidable t.AwaitsEvent := inferInstanceAs (Decidable (_ ∧ _))

/-- The tokens are open branches of one event-based gateway. -/
@[mk_iff]
structure Token.Rival (w x : Token) : Prop where
  catches : w.elementType = .intermediateCatchEvent
  awaits : w.AwaitsEvent
  parent : w.parentTokenId ≠ none
  same : x.parentTokenId = w.parentTokenId
  other : x.id ≠ w.id
  awaits' : x.AwaitsEvent

instance (w x : Token) : Decidable (w.Rival x) := decidable_of_iff _ (Token.rival_iff w x).symm

/-- A token that waits for an event has no children. -/
theorem Token.Justified.childless {x : Token} (h : x.Justified d) (hevent : x.AwaitsEvent) :
    ¬ x.MayParent d := by
  obtain ⟨e, he, hcondition, hsome⟩ := h
  obtain ⟨c, hc⟩ := Option.isSome_iff_exists.1 hsome
  rw [hc] at hcondition
  have hnot : c.type ≠ .external := by
    rcases hevent.2 with h | h | h <;> rw [(Token.waitsFor_of_eq hc _).1 h] <;> decide
  intro hmay
  cases hmay with
  | loop he' hloop hparent =>
    cases he.symm.trans he'
    cases (Token.conditionAt_of_wraps ⟨hloop, hparent⟩).symm.trans hcondition
    exact hnot rfl
  | @throwEvent ev he' =>
    cases he.symm.trans he'
    simp only [conditionAt] at hcondition
    split_ifs at hcondition
    cases hcondition
    exact hnot rfl
  | endEvent he' =>
    cases he.symm.trans he'
    cases hcondition
  | gateway he' =>
    cases he.symm.trans he'
    cases hcondition

theorem Token.Rival.erase {w x : Token} (h : w.Rival x) : w.erase.Rival x.erase :=
  ⟨h.catches, h.awaits, h.parent, h.same, h.other, h.awaits'⟩

/-- A branch of an event-based gateway waits for no work, and for no user. -/
theorem Token.AwaitsEvent.provision {t : Token} (h : t.AwaitsEvent) {provision : Provision}
    (hawaits : t.Awaits d provision) : provision = .timer := by
  obtain ⟨-, hevent⟩ := h
  have hunique : ∀ a b, t.waitsFor a = true → t.waitsFor b = true → a = b := by
    intro a b ha hb
    cases hc : t.waitingFor with
    | none => simp [waitsFor, hc] at ha
    | some c => rw [← (Token.waitsFor_of_eq hc a).1 ha, (Token.waitsFor_of_eq hc b).1 hb]
  cases provision with
  | timer => rfl
  | work => rcases hevent with h | h | h <;> cases hunique _ _ h hawaits.1
  | userTask => rcases hevent with h | h | h <;> cases hunique _ _ h hawaits

theorem Pool.mem_clearSiblings_rival {w x : Token} (hx : x ∈ P.tokens) (h : w.Rival x) :
    { x with status := .cancelled } ∈ (P.clearSiblings w).tokens := by
  obtain ⟨p, hp⟩ := Option.ne_none_iff_exists'.1 h.parent
  unfold Pool.clearSiblings
  simp only [hp]
  exact List.mem_map.2 ⟨x, hx, by simp [Pool.kill, h.other, h.same, hp, h.awaits'.1]⟩

/-- When a timer fires on a branch, the other open branches are cancelled. -/
theorem Deed.cancels_rival {w x : Token} (hP : P.Coherent []) (hk : P.Kindred d)
    (hw : w ∈ P.tokens) (hx : x ∈ P.tokens) (hrival : w.Rival x) (hmay : ¬ x.MayParent d)
    (h : Deed d P (.fireTimer w.id) Q origins) : { x with status := .cancelled } ∈ Q.tokens := by
  have hcatch : ∀ v ∈ P.tokens, v.id = w.id → v.elementType ≠ .boundaryEvent := by
    intro v hv hid
    rw [Pool.eq_of_id hP.nodup hv hw hid, hrival.catches]
    decide
  generalize hcommand : EngineCommand.fireTimer w.id = command at h
  cases h with
  | fireInterrupting hv _ htype _ _ | fireBoundary hv _ htype _ _ =>
    rw [EngineCommand.fireTimer.injEq] at hcommand
    exact absurd htype (hcatch _ hv hcommand.symm)
  | @fireCatch v hv hwaiting _ _ _ h =>
    rw [EngineCommand.fireTimer.injEq] at hcommand
    cases Pool.eq_of_id hP.nodup hw hv hcommand
    have hframe := Frame.clearSiblings P w
    exact h.keeps (hframe.nodup hP.nodup) (hk.frame hframe) (mem_clearSiblings_self hw) hwaiting
      (Pool.mem_clearSiblings_rival hx hrival) (Or.inr rfl) fun hm => hmay (hm.of_bare rfl)
  | startProcess _ _ _ | completeServiceTask _ _ _ _ | completeUserTask _ _ _ _ _
  | failCaught _ _ _ _ | failUncaught _ _ _ _ | suspendInstance _ | resumeInstance _
  | cancelInstance => cases hcommand

/-! ## The discipline -/

/-- A command that succeeded was right for the token it addressed, and has cancelled the other
branches of an event-based gateway. -/
@[mk_iff]
structure Disciplined (d : ProcessDefinition) (id : Nat) (provision : Provision)
    (state : EngineState) (result : EngineResult) : Prop where
  awaited : ∃ t ∈ state.tokens, t.id = id ∧ t.status = .waiting ∧ t.Awaits d provision
  branches : ∀ w ∈ state.tokens, w.id = id → ∀ x ∈ state.tokens, w.Rival x →
    ∃ y ∈ result.newState.tokens, y.id = x.id ∧ y.status = .cancelled

instance (id : Nat) (provision : Provision) (state : EngineState) (result : EngineResult) :
    Decidable (Disciplined d id provision state result) :=
  decidable_of_iff _ (disciplined_iff d id provision state result).symm

/-- If the token that the command addresses waits, its element calls for what the command
provides. -/
def Provision.Called (d : ProcessDefinition) (provision : Provision) (id : Nat)
    (state : EngineState) : Prop :=
  ∀ t ∈ state.tokens, t.id = id → t.status = .waiting → t.CallsFor d provision

instance (provision : Provision) (id : Nat) (state : EngineState) :
    Decidable (provision.Called d id state) :=
  inferInstanceAs (Decidable (∀ t ∈ state.tokens, _))

/-- A command that addresses a token succeeds only if the token is there and waits. -/
theorem Commanded.addressed {command : EngineCommand} {id : Nat} {provision : Provision}
    (haddr : command.addressed = some (id, provision)) (h : Commanded d P command P') :
    ∃ w ∈ P.tokens, w.id = id ∧ w.status = .waiting := by
  cases h with
  | deliverMessage _ _ _ | broadcastSignal _ _ _ => cases haddr
  | deed h _ =>
    cases h with
    | startProcess _ _ _ | suspendInstance _ | resumeInstance _ | cancelInstance => cases haddr
    | completeServiceTask _ hw hwaiting _ | completeUserTask _ _ hw hwaiting _
    | failCaught _ hw hwaiting _ | failUncaught _ hw hwaiting _
    | fireInterrupting hw hwaiting _ _ _ | fireBoundary hw hwaiting _ _ _
    | fireCatch hw hwaiting _ _ =>
      cases haddr
      exact ⟨_, hw, rfl, hwaiting⟩

/-- Only a timer has to do with event-based gateways. -/
theorem eq_fireTimer_of_addressed {command : EngineCommand} {id : Nat}
    (haddr : command.addressed = some (id, .timer)) : command = .fireTimer id := by
  cases command <;> cases haddr
  rfl

/-- The cancellation of the other branches lasts. -/
theorem Call.cancels_rival {steps : List Step} {fuel : Nat} {state : EngineState}
    {options : ExecuteOptions} {result : EngineResult} {w x : Token}
    (call : Call d steps (.fireTimer w.id) (some state) options)
    (hok : execute d fuel (.fireTimer w.id) (some state) options = .ok result)
    (hw : w ∈ state.tokens) (hx : x ∈ state.tokens) (hrival : w.Rival x) :
    ∃ y ∈ result.newState.tokens, y.id = x.id ∧ y.status = .cancelled := by
  obtain ⟨htrace, htokens⟩ := call.trace
  set before := ExecutionContext.create (some state) options with hbefore
  have hmem : ∀ t ∈ state.tokens, t.erase ∈ before.pool.tokens := fun t ht => by
    refine before.mem_pool ?_
    rw [htokens]
    exact ht
  have hjustified := htrace.justified x.erase (hmem x hx) hrival.awaits'.1
  have hchildless := hjustified.childless hrival.awaits'
  obtain ⟨y, hy, herase⟩ := call.settled (x := { x.erase with status := .cancelled }) hok
    fun after hcoh hcmd => by
      cases hcmd with
      | deed hd hmade =>
        have hcancelled := hd.cancels_rival (w := w.erase) (x := x.erase) hcoh htrace.kindred
          (hmem w hw) (hmem x hx) hrival.erase hchildless
        have hready := hd.ready hcoh
        refine Pool.Settled.spawned hready.coherent.numbered ⟨hcancelled, Or.inr rfl, ?_, ?_⟩ hmade
        · rw [(hd.frame hcoh.nodup).pending]
          exact List.not_mem_nil
        · exact fun hm => hchildless (hm.of_bare rfl)
  refine ⟨y, hy, ?_, ?_⟩
  · rw [← Token.id_erase y, herase]
    rfl
  · rw [← Token.status_erase y, herase]

/-- A successful command on a token is disciplined exactly if the element of the token calls for
it. -/
theorem disciplined_iff_called {steps : List Step} {fuel : Nat} {command : EngineCommand} {id : Nat}
    {provision : Provision} {state : EngineState} {options : ExecuteOptions} {result : EngineResult}
    (call : Call d steps command (some state) options)
    (haddr : command.addressed = some (id, provision))
    (hok : execute d fuel command (some state) options = .ok result) :
    Disciplined d id provision state result ↔ provision.Called d id state := by
  obtain ⟨htrace, htokens⟩ := call.trace
  have hmem : ∀ t ∈ state.tokens,
      t.erase ∈ (ExecutionContext.create (some state) options).pool.tokens := fun t ht => by
    refine ExecutionContext.mem_pool _ ?_
    rw [htokens]
    exact ht
  have hawaits : ∀ t ∈ state.tokens, t.status = .waiting →
      (t.Awaits d provision ↔ t.CallsFor d provision) := fun t ht hw =>
    (htrace.justified t.erase (hmem t ht) hw).awaits_iff provision
  have hunique : ∀ t ∈ state.tokens, ∀ x ∈ state.tokens, x.id = t.id → x = t := by
    intro t ht x hx hid
    have hnd := (ExecutionContext.create (some state) options).tokenMap.nodup
    rw [htokens] at hnd
    exact List.inj_on_of_nodup_map hnd hx ht hid
  constructor
  · rintro ⟨⟨t, ht, rfl, hw, hawaited⟩, -⟩ x hx hid -
    rw [hunique t ht x hx hid]
    exact (hawaits t ht hw).1 hawaited
  · intro hcalled
    obtain ⟨ctx, inst, ⟨w, hw, hid, hwaiting⟩, -⟩ := call.maintains (C := fun _ => True)
      (I := fun _ => ∃ w ∈ (ExecutionContext.create (some state) options).pool.tokens,
        w.id = id ∧ w.status = .waiting) hok (fun _ _ => trivial)
      (fun after _ _ hcmd => hcmd.addressed haddr) fun _ _ _ _ _ hI _ => hI
    obtain ⟨t, ht, rfl⟩ := List.mem_map.1 hw
    rw [htokens] at ht
    have hawaited := (hawaits t ht hwaiting).2 (hcalled t ht hid hwaiting)
    refine ⟨⟨t, ht, hid, hwaiting, hawaited⟩, fun v hv hvid x hx hrival => ?_⟩
    cases hunique t ht v hv (hvid.trans hid.symm)
    cases hrival.awaits.provision hawaited
    cases eq_fireTimer_of_addressed haddr
    cases hvid
    exact call.cancels_rival hok hv hx hrival

/-! ## An event-based gateway, and a user task inside a sub-process -/

namespace Diagram

def insideStep : List SequenceFlow :=
  [.between "toTask" "inStart" "task", .between "toDone" "task" "done"]

def aroundStep : List SequenceFlow := [.between "toSub" "start" "sub", .between "toEnd" "sub" "end"]

/-- A sub-process with one user task inside. -/
def aroundUser : ProcessDefinition :=
  definition aroundStep
    [start aroundStep "start",
      subProcess aroundStep "sub" false insideStep "inStart"
        [start insideStep "inStart", userTask insideStep "task", finish insideStep "done" .none],
      finish aroundStep "end" .none]

def answerFlows : List SequenceFlow :=
  [.between "toGate" "start" "gate", .between "toLate" "gate" "late",
    .between "toAnswer" "gate" "answer", .between "fromLate" "late" "end",
    .between "fromAnswer" "answer" "end"]

/-- An answer is awaited for some time. -/
def awaitAnswer : ProcessDefinition :=
  definition answerFlows
    [start answerFlows "start", .gateway (gateway answerFlows "gate" .eventBased),
      catchEvent answerFlows "late" { type := .timer },
      catchEvent answerFlows "answer" { type := .message, messageName := some "answer" },
      finish answerFlows "end" .none]

end Diagram

open Diagram

/-- Time is up: the timer is due, and no answer is awaited any more. -/
theorem disciplined_awaitAnswer : ∃ (r : Replay) (result : EngineResult),
    execute awaitAnswer 10 (.fireTimer 4) (some r.state) (stopped always r.nextId) = .ok result ∧
    (∃ w ∈ r.state.tokens, w.id = 4 ∧ ∃ x ∈ r.state.tokens, w.Rival x) ∧
    Disciplined awaitAnswer 4 .timer r.state result := by
  obtain ⟨r, result, call, hok, htest⟩ := exists_call_of_replay awaitAnswer always 10 none []
    (.fireTimer 4) (fun r _ => Provision.Called awaitAnswer .timer 4 r.state ∧
      ∃ w ∈ r.state.tokens, w.id = 4 ∧ ∃ x ∈ r.state.tokens, w.Rival x) (by decide +kernel)
  obtain ⟨hcalled, hrival⟩ := of_decide_eq_true htest
  exact ⟨r, result, hok, hrival, (disciplined_iff_called call rfl hok).2 hcalled⟩

/-- The token that waits outside for the end of a sub-process can be completed like a service task,
while the user task inside goes on. -/
theorem not_disciplined_aroundUser : ∃ (r : Replay) (result : EngineResult),
    Call aroundUser r.steps (.completeServiceTask 3 none) (some r.state) (stopped always r.nextId) ∧
    execute aroundUser 10 (.completeServiceTask 3 none) (some r.state) (stopped always r.nextId) =
      .ok result ∧
    (∃ t ∈ result.newState.tokens, t.id = 3 ∧ t.status = .completed) ∧
    (∃ t ∈ result.newState.tokens, t.subProcessInstanceId = some "sub" ∧ t.status = .waiting) ∧
    ¬ Disciplined aroundUser 3 .work r.state result := by
  obtain ⟨r, result, call, hok, htest⟩ := exists_call_of_replay aroundUser always 10 none []
    (.completeServiceTask 3 none) (fun r result =>
      (∃ t ∈ result.newState.tokens, t.id = 3 ∧ t.status = .completed) ∧
      (∃ t ∈ result.newState.tokens, t.subProcessInstanceId = some "sub" ∧ t.status = .waiting) ∧
      ¬ Disciplined aroundUser 3 .work r.state result) (by decide +kernel)
  obtain ⟨hdone, hwaiting, hnot⟩ := of_decide_eq_true htest
  exact ⟨r, result, call, hok, hdone, hwaiting, hnot⟩

end NexusWorkflow
