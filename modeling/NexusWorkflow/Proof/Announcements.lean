import NexusWorkflow.Game.Reports
import NexusWorkflow.Run.Alerts
import NexusWorkflow.Proof.TerminalSafety

/-!
# What the events of a call say

The caller of the engine learns from the events which tokens have begun to wait, which have been
cancelled, and whether the instance has come to its end.  The events are right as long as nothing is
done to a token that they have reported already, and the instance comes to its end only once: a
token that is cancelled in the queue is processed all the same, and every terminate end event
completes the instance again.
-/

namespace NexusWorkflow

open ExecutionContext Diagram

variable {d : ProcessDefinition} {P Q P' : Pool} {ctx ctx' : ExecutionContext} {t : Token}

/-! ## The end of the instance -/

/-- The status of the instance that the event reports, if it is a terminal one. -/
def ExecutionEvent.ending : ExecutionEvent → Option InstanceStatus
  | .processInstanceCompleted _ _ => some .completed
  | .processInstanceTerminated _ _ => some .terminated
  | _ => none

def endings (events : List ExecutionEvent) : List InstanceStatus := events.filterMap (·.ending)

theorem endings_append (events more : List ExecutionEvent) :
    endings (events ++ more) = endings events ++ endings more := List.filterMap_append

theorem ExecutionEvent.ending_of_plain {event : ExecutionEvent} (h : event.plain = true) :
    event.ending = none := by
  cases event <;> first | rfl | cases h

def Label.ending : Label → Option InstanceStatus
  | .completes => some .completed
  | _ => none

theorem Acts.endings {labels : List Label} (h : Acts labels ctx ctx') :
    endings ctx'.events = endings ctx.events ++ labels.filterMap Label.ending :=
  h.filterMap_events (fun _ => ExecutionEvent.ending_of_plain) (fun _ _ => rfl) (fun _ _ => rfl)
    fun label hscope => by cases label <;> first | rfl | cases hscope

theorem Label.ending_of_inLoop {p : Token} {lc : MultiInstanceLoopCharacteristics} {label : Label}
    (h : label.InLoop p lc) : label.ending = none := by
  cases label <;> first | rfl | exact h.elim

/-- What happens to the instance: nothing, and the events report no end of it. -/
structure ExecutionContext.GoesOn (ctx ctx' : ExecutionContext) : Prop where
  inst : ctx'.inst = ctx.inst
  endings : NexusWorkflow.endings ctx'.events = NexusWorkflow.endings ctx.events

theorem Acts.goesOn {labels : List Label} (h : Acts labels ctx ctx')
    (hnone : ∀ label ∈ labels, label.ending = none) : ctx.GoesOn ctx' := by
  have hnil : labels.filterMap Label.ending = [] := List.filterMap_eq_nil_iff.2 hnone
  constructor
  · refine h.inst.resolve_right fun ⟨hmem, _⟩ => ?_
    have hcompletes : Label.ending .completes = none := hnone _ hmem
    cases hcompletes
  · rw [h.endings, hnil, List.append_nil]

theorem Acts.silent_goesOn (h : Acts [] ctx ctx') : ctx.GoesOn ctx' :=
  h.goesOn (List.forall_mem_nil _)

theorem ExecutionContext.GoesOn.status (h : ctx.GoesOn ctx') : ctx'.pool.status = ctx.pool.status :=
  congrArg (Option.map ProcessInstance.status) h.inst

/-- The turn of the token completes the instance: at a terminate end event, or at the last end event
of the top level. -/
def ExecutionContext.EndsInstance (d : ProcessDefinition) (ctx : ExecutionContext) (t : Token) :
    Prop :=
  match d.getElement t.elementId with
  | .ok (.endEvent e) => e.eventDefinition.type = .terminate ∨
      e.eventDefinition.type ≠ .cancel ∧ truthy t.subProcessInstanceId = none ∧
        ((ctx.setStatus t .completed).getAllTokens.filter Token.live).length = 0 ∧
          ctx.pendingCount = 0
  | _ => False

instance (ctx : ExecutionContext) (t : Token) : Decidable (ctx.EndsInstance d t) := by
  unfold ExecutionContext.EndsInstance
  rcases d.getElement t.elementId with _ | e
  · infer_instance
  · rcases e with _ | _ | _ | _ | _ | _ | _ | _ | _ | _ | _ | _ <;> infer_instance

theorem Propagates.ending {s : String} {labels : List Label} (h : Propagates ctx s labels) :
    ∀ label ∈ labels, label.ending = Option.none := by
  cases h with
  | none => exact List.forall_mem_nil _
  | merge _ _ _ => exact List.forall_mem_singleton.2 rfl

theorem handleEndEvent_endings {e : EventElement}
    (he : d.getElement t.elementId = .ok (.endEvent e)) (h : handleEndEvent d ctx t e = .ok ctx') :
    (ctx.EndsInstance d t ∧ Acts [.completes] ctx ctx') ∨
      (¬ ctx.EndsInstance d t ∧ ctx.GoesOn ctx') := by
  unfold EndsInstance
  simp only [he]
  unfold handleEndEvent at h
  have hset := setStatus_acts ctx t .completed
  simp only at h
  split at h
  · rename_i htype
    refine .inr ⟨?_, (hset.after (handleTransactionCancel_acts h)).silent_goesOn⟩
    simp [htype]
  · rename_i hcancel
    split at h
    · rename_i htype
      generalize List.filter _ _ = others at h
      have hkill := hset.after (Acts.foldl
        (fun c x => (Acts.one .now).after (cancelToken_acts c.now.2 x c.now.1)) others _)
      exact .inl ⟨.inl htype, hkill.loud (.complete h)⟩
    · rename_i hterminate
      split at h
      · rename_i s htag
        obtain ⟨labels, hlabels, hacts⟩ := checkSubProcessCompletion_acts h
        refine .inr ⟨?_, (hset.after hacts).goesOn hlabels.ending⟩
        simp [hterminate, htag]
      · rename_i htag
        split at h
        · rename_i hlast
          exact .inl ⟨.inr ⟨hcancel, htag, hlast⟩, hset.loud (.complete h)⟩
        · rename_i hlast
          refine .inr ⟨?_, Except.ok.inj h ▸ hset.silent_goesOn⟩
          rintro (htype | ⟨-, -, hboth⟩)
          · exact hterminate htype
          · exact hlast hboth

/-- A turn completes the instance and reports it, or the instance goes on. -/
theorem processToken_endings (h : processToken d ctx t = .ok ctx') :
    (ctx.EndsInstance d t ∧ ctx'.inst.map (·.status) = some .completed ∧
        endings ctx'.events = endings ctx.events ++ [.completed]) ∨
      (¬ ctx.EndsInstance d t ∧ ctx.GoesOn ctx') := by
  by_cases hend : ∃ e, d.getElement t.elementId = .ok (.endEvent e)
  · obtain ⟨e, he⟩ := hend
    have hhandle : handleEndEvent d ctx t e = .ok ctx' := by
      unfold processToken at h
      rw [he] at h
      exact h
    rcases handleEndEvent_endings he hhandle with ⟨hends, hacts⟩ | hgoes
    · exact .inl ⟨hends, hacts.completed (List.mem_singleton_self _), hacts.endings⟩
    · exact .inr hgoes
  · obtain ⟨labels, hlabels, hacts⟩ := processToken_acts h
    refine .inr ⟨fun hends => ?_, hacts.goesOn ?_⟩
    · unfold EndsInstance at hends
      split at hends
      · rename_i e he
        exact hend ⟨e, he⟩
      · exact hends
    · cases hlabels with
      | silent => exact List.forall_mem_nil _
      | waits _ _ _ => exact List.forall_mem_singleton.2 rfl
      | completes he => exact absurd ⟨_, he⟩ hend
      | subProcess _ _ =>
        exact List.forall_mem_cons.2 ⟨rfl, List.forall_mem_singleton.2 rfl⟩
      | inner _ _ h => exact h.ending
      | loop _ _ _ h => exact fun label hlabel => Label.ending_of_inLoop (h label hlabel)

/-! ## Commands -/

/-- Nothing happens to the instance, and the events report neither its end nor a token that
waits. -/
structure ExecutionContext.Hushed (ctx ctx' : ExecutionContext) : Prop
    extends ctx.GoesOn ctx' where
  alerts : NexusWorkflow.alerts ctx'.events = NexusWorkflow.alerts ctx.events

theorem ExecutionContext.Hushed.refl (ctx : ExecutionContext) : ctx.Hushed ctx := ⟨⟨rfl, rfl⟩, rfl⟩

theorem ExecutionContext.Hushed.trans {mid : ExecutionContext} (h : ctx.Hushed mid)
    (h' : mid.Hushed ctx') : ctx.Hushed ctx' :=
  ⟨⟨h'.inst.trans h.inst, h'.endings.trans h.endings⟩, h'.alerts.trans h.alerts⟩

theorem Acts.hushed {labels : List Label} (h : Acts labels ctx ctx')
    (hscope : ∀ label ∈ labels, label.ofScope = true) : ctx.Hushed ctx' := by
  refine ⟨h.goesOn fun label hlabel => ?_, ?_⟩
  · have := hscope label hlabel
    cases label <;> first | rfl | cases this
  · rw [h.alerts, List.filterMap_eq_nil_iff.2, List.append_nil]
    intro label hlabel
    have := hscope label hlabel
    cases label <;> first | rfl | cases this

theorem Acts.silent_hushed (h : Acts [] ctx ctx') : ctx.Hushed ctx' :=
  h.hushed (List.forall_mem_nil _)

theorem Label.OfTask.ofScope {w : Token} {vars : Option Variables} {label : Label}
    (h : label.OfTask ctx w vars) : label.ofScope = true := by
  rcases h with ⟨_, -, rfl⟩ | ⟨_, _, -, h⟩
  · rfl
  · cases label <;> first | rfl | exact h.elim

theorem hushed_emit (ctx : ExecutionContext) (event : ExecutionEvent)
    (hending : event.ending = none) (halert : event.alert = none) :
    ctx.Hushed (ctx.emit event) := by
  refine ⟨⟨rfl, ?_⟩, ?_⟩
  · simp [emit, endings, hending]
  · simp [emit, alerts, halert]

/-- What a command may do to the instance that it goes on with, other than to cancel it. -/
structure ExecutionContext.Carries (ctx ctx' : ExecutionContext) : Prop where
  endings : NexusWorkflow.endings ctx'.events = NexusWorkflow.endings ctx.events
  alerts : NexusWorkflow.alerts ctx'.events = NexusWorkflow.alerts ctx.events
  status : ctx'.pool.status = ctx.pool.status ∨
    (ctx.pool.status = some .suspended ∧ ctx'.pool.status = some .active) ∨
    (ctx'.pool.status = some .suspended ∧ ctx'.pool.pending = ctx.pool.pending)

theorem ExecutionContext.Hushed.carries (h : ctx.Hushed ctx') : ctx.Carries ctx' :=
  ⟨h.endings, h.alerts, .inl h.status⟩

/-- The instance goes on, is resumed, if need be, and goes on. -/
theorem autoResume_carries {mid resumed : ExecutionContext} (hbefore : ctx.Hushed mid)
    (h : autoResume mid = .ok resumed) (hafter : resumed.Hushed ctx') : ctx.Carries ctx' := by
  unfold autoResume at h
  obtain ⟨inst, hinst, h⟩ := Except.bind_eq_ok_iff.1 h
  have hstatus := status_of_requireInstance hinst
  rw [hbefore.status] at hstatus
  split at h
  · rename_i hsuspended
    have hsay := hushed_emit (mid.setInstance { inst with status := .active })
      (.processInstanceResumed inst.id) rfl rfl
    rw [Except.ok.inj h] at hsay
    have hresumed := hsay.trans hafter
    exact ⟨hresumed.endings.trans hbefore.endings, hresumed.alerts.trans hbefore.alerts,
      .inr (.inl ⟨hstatus.trans (congrArg some hsuspended), hresumed.status⟩)⟩
  · rw [← Except.ok.inj h] at hafter
    exact (hbefore.trans hafter).carries

theorem handleCompleteTask_carries {mid : ExecutionContext} {id : Nat} {vars : Option Variables}
    (hbefore : ctx.Hushed mid) (h : handleCompleteTask d mid id vars = .ok ctx') :
    ctx.Carries ctx' := by
  obtain ⟨w, resumed, labels, -, -, hresumed, hlabels, hacts⟩ := handleCompleteTask_acts h
  exact autoResume_carries hbefore hresumed
    (hacts.hushed fun label hlabel => (hlabels label hlabel).ofScope)

theorem handleFailServiceTask_carries {id : Nat} {code message : String}
    (h : handleFailServiceTask d ctx id code message = .ok ctx') : ctx.Carries ctx' := by
  unfold handleFailServiceTask at h
  obtain ⟨w, -, h⟩ := Except.bind_eq_ok_iff.1 h
  obtain ⟨inst, -, h⟩ := Except.bind_eq_ok_iff.1 h
  have hsay := hushed_emit ctx
    (.serviceTaskFailed inst.id w.id w.elementId message 1) rfl rfl
  have hqueue : (ctx.emit (.serviceTaskFailed inst.id w.id w.elementId message 1)).pool.pending =
      ctx.pool.pending := rfl
  simp only at h
  generalize ctx.emit (.serviceTaskFailed inst.id w.id w.elementId message 1) =
    said at h hsay hqueue
  split at h
  · rename_i b _
    have hcancel := hsay.trans (cancelFailed_acts said w).silent_hushed
    have hthrow :=
        (hcancel.trans (hushed_emit _ (.errorThrown inst.id w.id code true) rfl rfl)).trans
      (hushed_emit _ (.boundaryEventTriggered inst.id w.id b.id b.cancelActivity) rfl rfl)
    exact (hthrow.trans (moveTokenToFlows_acts h).silent_hushed).carries
  · have hfail : ∀ failed : ProcessInstance, Hushed (said.setInstance failed)
        (((said.setInstance failed).emit (.processInstanceSuspended inst.id)).emit
          (.errorThrown inst.id w.id code false)) := fun failed =>
      (hushed_emit _ _ rfl rfl).trans (hushed_emit _ _ rfl rfl)
    rw [← Except.ok.inj h]
    exact ⟨(hfail _).endings.trans hsay.endings, (hfail _).alerts.trans hsay.alerts,
      .inr (.inr ⟨rfl, hqueue⟩)⟩

theorem handleFireTimer_carries {id : Nat} (h : handleFireTimer d ctx id = .ok ctx') :
    ctx.Carries ctx' := by
  obtain ⟨w, -, -, ⟨-, hacts⟩ | ⟨-, hcomplete⟩⟩ := handleFireTimer_cases h
  · exact hacts.silent_hushed.carries
  · exact handleCompleteTask_carries (cancelEbgSiblings_acts ctx w).silent_hushed hcomplete

theorem resumeTargets_carries {isTarget : Token → Bool} {vars : Option Variables}
    (h : resumeTargets d ctx isTarget vars = .ok ctx') : ctx.Carries ctx' := by
  obtain ⟨labels, hlabels, hacts⟩ := resumeTargets_acts h
  refine (hacts.hushed fun label hlabel => ?_).carries
  obtain ⟨_, -, -, _, -, rfl⟩ := hlabels label hlabel
  rfl

/-- The command cancels the instance. -/
def EngineCommand.cancels : EngineCommand → Bool
  | .cancelInstance => true
  | _ => false

theorem handleCommand_carries {command : EngineCommand} (hgoes : command.goesOn = true)
    (hnot : command.cancels = false) (h : handleCommand d ctx command = .ok ctx') :
    ctx.Carries ctx' := by
  cases command with
  | startProcess _ _ _ => cases hgoes
  | cancelInstance => cases hnot
  | completeServiceTask _ _ | completeUserTask _ _ _ =>
    exact handleCompleteTask_carries (.refl ctx) h
  | failServiceTask _ _ _ => exact handleFailServiceTask_carries h
  | fireTimer _ => exact handleFireTimer_carries h
  | deliverMessage _ _ | broadcastSignal _ _ => exact resumeTargets_carries h
  | suspendInstance =>
    have h : handleSuspendInstance ctx = .ok ctx' := h
    unfold handleSuspendInstance at h
    obtain ⟨inst, -, h⟩ := Except.bind_eq_ok_iff.1 h
    split at h
    · cases h
    · have hsay := hushed_emit (ctx.setInstance { inst with status := .suspended })
        (.processInstanceSuspended inst.id) rfl rfl
      rw [← Except.ok.inj h]
      exact ⟨hsay.endings, hsay.alerts, .inr (.inr ⟨rfl, rfl⟩)⟩
  | resumeInstance =>
    have h : handleResumeInstance ctx = .ok ctx' := h
    unfold handleResumeInstance at h
    obtain ⟨inst, hinst, h⟩ := Except.bind_eq_ok_iff.1 h
    split at h
    · cases h
    · rename_i hsuspended
      have hstatus := status_of_requireInstance hinst
      rw [not_not.1 hsuspended] at hstatus
      have hsay := hushed_emit (ctx.setInstance { inst with status := .active })
        (.processInstanceResumed inst.id) rfl rfl
      rw [← Except.ok.inj h]
      exact ⟨hsay.endings, hsay.alerts, .inr (.inl ⟨hstatus, rfl⟩)⟩

theorem handleStartProcess_outcome {vars : Option Variables}
    {correlationKey businessKey : Option String}
    (h : handleStartProcess d ctx vars correlationKey businessKey = .ok ctx') :
    endings ctx'.events = endings ctx.events ∧ alerts ctx'.events = alerts ctx.events ∧
      ctx'.pool.status = some .active := by
  unfold handleStartProcess at h
  obtain ⟨element, -, h⟩ := Except.bind_eq_ok_iff.1 h
  have hsay := hushed_emit ctx
    (.processInstanceStarted ctx.nextId d.id d.version) rfl rfl
  rw [← Except.ok.inj h]
  exact ⟨hsay.endings, hsay.alerts, rfl⟩

theorem handleCancelInstance_outcome (h : handleCancelInstance ctx = .ok ctx') :
    endings ctx'.events = endings ctx.events ++ [.terminated] ∧
      alerts ctx'.events = alerts ctx.events ∧ ctx'.pool.status = some .terminated ∧
        ctx'.pool.pending = ctx.pool.pending := by
  unfold handleCancelInstance at h
  obtain ⟨inst, -, h⟩ := Except.bind_eq_ok_iff.1 h
  have hcancel := (cancelTokens_acts ctx (ctx.getAllTokens.filter Token.live)).silent_hushed
  rw [← Except.ok.inj h]
  refine ⟨(endings_append _ _).trans ?_, List.filterMap_append.trans ?_, rfl, ?_⟩
  · exact congrArg (· ++ [InstanceStatus.terminated]) hcancel.endings
  · exact (List.append_nil _).trans hcancel.alerts
  · rw [pool_emit_of_cancelledIds _ rfl, pool_setInstance, ctx.pool_cancelTokens fun _ => rfl]
    rfl

theorem handleCommand_alerts {command : EngineCommand}
    (h : handleCommand d ctx command = .ok ctx') : alerts ctx'.events = alerts ctx.events := by
  by_cases hgoes : command.goesOn = true
  · by_cases hcancels : command.cancels = true
    · cases command with
      | cancelInstance => exact (handleCancelInstance_outcome h).2.1
      | _ => cases hcancels
    · exact (handleCommand_carries hgoes (Bool.eq_false_iff.2 hcancels) h).alerts
  · cases command with
    | startProcess _ _ _ => exact (handleStartProcess_outcome h).2.1
    | _ => exact absurd rfl hgoes

/-! ## A whole call -/

/-- The status of the instance before the call, if the command goes on with it. -/
def statusBefore (command : EngineCommand) (state : Option EngineState) : Option InstanceStatus :=
  if command.goesOn then state.map (·.inst.status) else none

/-- What the events have said about the end of the instance in the course of a call: nothing, that
it was cancelled, or that it is completed. -/
inductive ExecutionContext.Tells (command : EngineCommand) (before : Option InstanceStatus)
    (ctx : ExecutionContext) : Prop
  | going (hcommand : command.cancels = false) (hends : endings ctx.events = [])
      (hcompleted : ctx.pool.status = some .completed → before = some .completed)
      (hterminated : ctx.pool.status = some .terminated → before = some .terminated)
      (hstays : before = some .completed →
        ctx.pool.status = some .completed ∨ ctx.pool.pending = [])
  | completed (hcommand : command.cancels = false) (hends : endings ctx.events = [.completed])
      (hstatus : ctx.pool.status = some .completed) (hbefore : before ≠ some .completed)
  | cancelled (hcommand : command.cancels = true) (hends : endings ctx.events = [.terminated])
      (hstatus : ctx.pool.status = some .terminated) (hpending : ctx.pool.pending = [])
      (hbefore : before ≠ some .terminated)

theorem tells_of_command {command : EngineCommand} {state : Option EngineState}
    {options : ExecuteOptions}
    (hcancel : command.cancels = true →
      (ExecutionContext.create state options).pool.status ≠ some .terminated)
    (h : handleCommand d (ExecutionContext.create state options) command = .ok ctx) :
    ctx.Tells command (statusBefore command state) := by
  by_cases hgoes : command.goesOn = true
  · have hbefore : statusBefore command state =
        (ExecutionContext.create state options).pool.status := by
      unfold statusBefore
      rw [if_pos hgoes]
      cases state <;> rfl
    by_cases hcancels : command.cancels = true
    · cases command with
      | cancelInstance =>
        obtain ⟨hends, -, hstatus, hpending⟩ := handleCancelInstance_outcome h
        exact .cancelled rfl hends hstatus hpending (hbefore ▸ hcancel rfl)
      | _ => cases hcancels
    · have hnot : command.cancels = false := Bool.eq_false_iff.2 hcancels
      have hcarries := handleCommand_carries hgoes hnot h
      rw [hbefore]
      refine .going hnot hcarries.endings ?_ ?_ ?_
      all_goals
        intro hs
        rcases hcarries.status with hsame | ⟨hsuspended, hactive⟩ | ⟨hsuspended, hpending⟩
      · rw [← hsame, hs]
      · simp [hactive] at hs
      · simp [hsuspended] at hs
      · rw [← hsame, hs]
      · simp [hactive] at hs
      · simp [hsuspended] at hs
      · exact .inl (hsame.trans hs)
      · simp [hs] at hsuspended
      · exact .inr hpending
  · cases command with
    | startProcess vars correlationKey businessKey =>
      obtain ⟨hends, -, hstatus⟩ := handleStartProcess_outcome h
      refine .going rfl hends ?_ ?_ fun hbefore => ?_
      · simp [hstatus]
      · simp [hstatus]
      · simp [statusBefore, EngineCommand.goesOn] at hbefore
    | _ => exact absurd rfl hgoes

/-- The turn of a token, unless it completes an instance that is completed. -/
theorem ExecutionContext.Tells.turned {command : EngineCommand} {before : Option InstanceStatus}
    (h : (ctx.unpop t).Tells command before)
    (hends : ctx.EndsInstance d t → ctx.pool.status ≠ some .completed)
    (hok : processToken d ctx t = .ok ctx') : ctx'.Tells command before := by
  have hpending : (ctx.unpop t).pool.pending ≠ [] := List.cons_ne_nil _ _
  rcases processToken_endings hok with ⟨hend, hstatus', hends'⟩ | ⟨-, hgoes⟩
  · have hnot : ctx.pool.status ≠ some .completed := hends hend
    cases h with
    | going hcommand hnone hcompleted _ hstays =>
      have hnone : endings ctx.events = [] := hnone
      refine .completed hcommand (by rw [hends', hnone]; rfl) hstatus' fun hbefore => ?_
      exact (hstays hbefore).elim hnot hpending
    | completed _ _ hstatus _ => exact absurd hstatus hnot
    | cancelled _ _ _ hnone _ => exact absurd hnone hpending
  · have hstatus' : ctx'.pool.status = (ctx.unpop t).pool.status := hgoes.status
    have hends' : endings ctx'.events = endings (ctx.unpop t).events := hgoes.endings
    cases h with
    | going hcommand hnone hcompleted hterminated hstays =>
      refine .going hcommand (hends'.trans hnone) (hstatus' ▸ hcompleted) (hstatus' ▸ hterminated)
        fun hbefore => .inl (hstatus'.trans ?_)
      exact (hstays hbefore).resolve_right hpending
    | completed hcommand hone hstatus hbefore =>
      exact .completed hcommand (hends'.trans hone) (hstatus'.trans hstatus) hbefore
    | cancelled _ _ _ hnone _ => exact absurd hnone hpending

/-- The token was cancelled at the beginning of the call. -/
def Pool.Cancelled (old : Pool) (id : Nat) : Prop :=
  ∃ x ∈ old.tokens, x.id = id ∧ x.status = .cancelled

/-- In the course of a call that began with the pool `old` and the next id `n`: the events name the
tokens that have begun to wait, each once, and the ids of those that have been cancelled. -/
structure ExecutionContext.Announces (d : ProcessDefinition) (n : Nat) (old : Pool)
    (ctx : ExecutionContext) : Prop where
  since : ctx.pool.Since n old
  sound : ctx.pool.Sound d
  reports : ctx.pool.Reports old.Cancelled
  once : ((alerts ctx.events).map (·.1)).Nodup
  known : ∀ a ∈ alerts ctx.events, n ≤ a.1 ∧ a.1 ∉ ctx.pool.pending.map (·.id) ∧
    ∃ x ∈ ctx.pool.tokens, x.id = a.1 ∧
      (x.status = .cancelled ∨ x.status = .waiting ∧ x.waitingFor = some a.2)
  noted : ∀ y ∈ ctx.pool.tokens, n ≤ y.id → y.status = .waiting → ∀ c, y.waitingFor = some c →
    c.type ≠ .external → (y.id, c) ∈ alerts ctx.events

theorem type_of_mem_alerts {events : List ExecutionEvent} {a : Nat × WaitCondition}
    (h : a ∈ alerts events) : a.2.type ≠ .external := by
  obtain ⟨event, -, hevent⟩ := List.mem_filterMap.1 h
  cases event with
  | tokenWaiting _ tokenId _ waitingFor =>
    simp only [ExecutionEvent.alert] at hevent
    split_ifs at hevent with htype
    rw [← Option.some.inj hevent]
    exact htype
  | _ => cases hevent

/-- Where a token is cancelled that the events report already, or completed. -/
def Step.KeepsReports (d : ProcessDefinition) (st : Step) : Prop :=
  match st.action with
  | .command command =>
      command.Completing (fun _ w => ¬ Pool.Guards w.elementId w) st.before.pool ∧
        (command.cancels = true → st.before.pool.status ≠ some .terminated)
  | .process t =>
      t.id ∉ cancelledIds st.before.events ∧
        (∀ p ∈ st.before.pool.tokens, t.parentTokenId = some p.id →
          st.before.pool.TouchesTurn d t.erase p → p.id ∉ cancelledIds st.before.events) ∧
        (∀ w ∈ st.before.pool.firedInTurn d t.erase,
          w.id ∉ (alerts st.before.events).map (·.1)) ∧
        (st.before.EndsInstance d t → st.before.pool.status ≠ some .completed)

instance (st : Step) : Decidable (st.KeepsReports d) := by
  unfold Step.KeepsReports
  rcases st.action with _ | _ <;> infer_instance

namespace ExecutionContext.Announces

variable {n : Nat} {old : Pool}

theorem commanded (hold : old.Numbered) (hn : n = old.nextId) (hsince : ctx'.pool.Since n old)
    (hstill : StillWaiting old ctx'.pool) (hsound : ctx'.pool.Sound d)
    (hreports : ctx'.pool.Reports old.Cancelled) (hnone : alerts ctx'.events = []) :
    ctx'.Announces d n old where
  since := hsince
  sound := hsound
  reports := hreports
  once := by
    rw [hnone]
    exact List.nodup_nil
  known a ha := by
    rw [hnone] at ha
    cases ha
  noted y hy hle hw c hfor hc := by
    -- what waits after the command has waited before
    obtain ⟨x, hx, -, hbare, -⟩ := hstill y hy hw
    have hlt := hold x hx
    rw [Token.id_of_bare hbare] at hlt
    omega

variable (hnew : ∀ id, old.Cancelled id → id < n) (hhand : ctx.pool.Coherent [t.erase])
  (h : (ctx.unpop t).Announces d n old)
  (hst : Step.KeepsReports d ⟨ctx, .process t, ctx'⟩)
include hnew hhand h hst

theorem turned_reports (hturned : Turned d ctx.pool t.erase ctx'.pool) :
    ctx'.pool.Reports old.Cancelled := by
  obtain ⟨Q, origins, hturn, hmade⟩ := hturned
  obtain ⟨hid, hparent, -, -⟩ := hst
  have hle : n ≤ t.id := h.since.pending t.erase List.mem_cons_self
  have hreports : ctx.pool.Reports old.Cancelled := h.reports.of_eq rfl rfl
  have hframe := hturn.frame hhand.nodup (hhand.holds List.mem_cons_self)
  have hnext : n ≤ Q.nextId := hframe.nextId.symm ▸ h.since.next
  have hnot : ¬ old.Cancelled t.id := fun hc => by
    have := hnew _ hc
    omega
  exact (hturn.reports hhand hreports hid hnot hparent).spawned
    (fun id hc => (hnew id hc).trans_le hnext) hmade

/-- A token that the events have named waits for the same thing after the turn, or is cancelled. -/
theorem turned_known (hok : processToken d ctx t = .ok ctx') :
    ∀ a ∈ alerts ctx.events, n ≤ a.1 ∧ a.1 ≠ t.id ∧ a.1 ∉ ctx'.pool.pending.map (·.id) ∧
      ∃ x ∈ ctx'.pool.tokens, x.id = a.1 ∧
        (x.status = .cancelled ∨ x.status = .waiting ∧ x.waitingFor = some a.2) := by
  intro a ha
  have hturned := processToken_turned hhand hok
  have hreports := turned_reports hnew hhand h hst hturned
  have hgrows := Pool.Grows.turned hhand (le_refl _) hturned
  obtain ⟨hle, hpending, x, hx, hxa, hstatus⟩ := h.known a ha
  rw [pool_unpop, Pool.push, List.map_cons, List.mem_cons, not_or] at hpending
  have hx : x ∈ ctx.pool.tokens := hx
  refine ⟨hle, hpending.1, ?_, ?_⟩
  · exact hgrows.notPending (hxa ▸ hhand.numbered x hx) hpending.2
  · rcases hstatus with hc | ⟨hw, hfor⟩
    · -- it has been reported, and so it stays cancelled
      have hnotold : ¬ old.Cancelled x.id := fun hold => by
        have := hnew _ hold
        omega
      have hmem : x.id ∈ cancelledIds ctx.events := (h.reports.noted x hx hc).resolve_left hnotold
      obtain ⟨labels, -, hacts⟩ := processToken_acts hok
      obtain ⟨more, hevents, -⟩ := hacts.events
      have hmem' : x.id ∈ ctx'.pool.cancelled := by
        show x.id ∈ cancelledIds ctx'.events
        rw [hevents, cancelledIds, List.filterMap_append]
        exact List.mem_append_left _ hmem
      obtain ⟨-, y, hy, hyx, hyc⟩ := hreports.named x.id hmem'
      exact ⟨y, hy, hyx.trans hxa, .inl hyc⟩
    · obtain ⟨Q, origins, hturn, hmade⟩ := hturned
      obtain ⟨-, -, hfired, -⟩ := hst
      have hsound : ctx.pool.Sound d := ⟨h.sound.kindred, h.sound.justified, h.sound.tagged⟩
      have hfree : ∀ v ∈ ctx.pool.firedInTurn d t.erase, v.id ≠ x.id := by
        intro v hv hid
        apply hfired v hv
        rw [hid, hxa]
        exact List.mem_map_of_mem ha
      obtain ⟨y, hy, hyx, hys⟩ := hturn.keepsAlert hhand.nodup hsound
        (hhand.holds List.mem_cons_self) hx (fun hid => hpending.1 (hxa ▸ hid)) hw hfor
        (type_of_mem_alerts ha) hfree
      exact ⟨y, hmade.stays hy, hyx.trans hxa, hys⟩

omit hnew hhand hst in
/-- A new token that waits after the turn has been named, or is the one in hand. -/
theorem turned_noted (hturned : Turned d ctx.pool t.erase ctx'.pool) {y : Token}
    {c : WaitCondition} (hy : y ∈ ctx'.pool.tokens) (hle : n ≤ y.id) (hw : y.status = .waiting)
    (hfor : y.waitingFor = some c) (hc : c.type ≠ .external) :
    (y.id, c) ∈ alerts ctx.events ∨ t.alertAt d = some c ∧ t.id = y.id := by
  obtain ⟨Q, origins, hturn, hmade⟩ := hturned
  obtain ⟨z, hz, hzw, hzbare, hzfor⟩ := hmade.stillWaiting y hy hw
  rcases hturn.alert hz hzw (hzfor.trans hfor) hc with ⟨x, hx, hxw, hxbare, hxfor⟩ | ⟨hat, hbare⟩
  · have hid : x.id = y.id := Token.id_of_bare (hxbare.trans hzbare)
    rw [← hid]
    exact .inl (h.noted x hx (hid ▸ hle) hxw c hxfor hc)
  · exact .inr ⟨hat, Token.id_of_bare (x := t.erase) (hbare.trans hzbare)⟩

theorem turned (hok : processToken d ctx t = .ok ctx') : ctx'.Announces d n old := by
  have hturned := processToken_turned hhand hok
  have hknown := turned_known hnew hhand h hst hok
  have hevents := processToken_alerts hok
  have ht : n ≤ t.id := h.since.pending t.erase List.mem_cons_self
  have hsound : ctx.pool.Sound d := ⟨h.sound.kindred, h.sound.justified, h.sound.tagged⟩
  have hnamed : ∀ a ∈ ((t.alertAt d).map fun c => (t.id, c)).toList,
      a.1 = t.id ∧ t.alertAt d = some a.2 := by
    intro a ha
    rw [Option.mem_toList, Option.map_eq_some_iff] at ha
    obtain ⟨c, hc, rfl⟩ := ha
    exact ⟨rfl, hc⟩
  refine ⟨h.since.turned (P := ctx.pool) hhand hturned, hsound.turned hhand hturned,
    turned_reports hnew hhand h hst hturned, ?_, fun a ha => ?_, fun y hy hle hw c hfor hc => ?_⟩
  · rw [hevents, List.map_append, List.nodup_append]
    refine ⟨h.once, ?_, fun i hi j hj => ?_⟩
    · cases t.alertAt d <;> simp
    · obtain ⟨a, ha, rfl⟩ := List.mem_map.1 hi
      obtain ⟨b, hb, rfl⟩ := List.mem_map.1 hj
      rw [(hnamed b hb).1]
      exact (hknown a ha).2.1
  · rw [hevents, List.mem_append] at ha
    rcases ha with ha | ha
    · obtain ⟨hle, -, hpending, hx⟩ := hknown a ha
      exact ⟨hle, hpending, hx⟩
    · obtain ⟨hid, hat⟩ := hnamed a ha
      obtain ⟨hlt, hnot⟩ := hhand.hand_notPending
      have hgrows := Pool.Grows.turned hhand (le_refl _) hturned
      rw [hid]
      refine ⟨ht, hgrows.notPending hlt hnot, ?_⟩
      obtain ⟨Q, origins, hturn, hmade⟩ := hturned
      obtain ⟨y, hy, hyt, hyw⟩ := hturn.waits (hhand.holds List.mem_cons_self) hat
      exact ⟨y, hmade.stays hy, hyt, .inr hyw⟩
  · rw [hevents, List.mem_append]
    rcases turned_noted h hturned hy hle hw hfor hc with hmem | ⟨hat, hid⟩
    · exact .inl hmem
    · simp [hat, hid]

omit hnew hhand h hst

/-- In the end: what has begun to wait, as the events say. -/
theorem waits_iff (h : ctx.Announces d n old) (hold : old.Numbered) (hn : n = old.nextId) {id : Nat}
    {c : WaitCondition} (hc : c.type ≠ .external) :
    (∃ y ∈ ctx.pool.tokens, y.id = id ∧ y.status = .waiting ∧ y.waitingFor = some c ∧
        ∀ x ∈ old.tokens, x.id = id → x.status ≠ .waiting) ↔
      (alerts ctx.events).count (id, c) = 1 ∧ id ∉ cancelledIds ctx.events := by
  constructor
  · rintro ⟨y, hy, rfl, hw, hfor, hnewly⟩
    have hle : n ≤ y.id := by
      refine (h.since.waiting y hy hw).resolve_right ?_
      rintro ⟨x, hx, hxw, hbare, -⟩
      exact hnewly x hx (Token.id_of_bare hbare) hxw
    exact ⟨List.count_eq_one_of_mem (.of_map _ h.once) (h.noted y hy hle hw c hfor hc),
      (h.reports.waiting ctx.nodup_pool hy hw).1⟩
  · rintro ⟨hone, hnot⟩
    have hmem : (id, c) ∈ alerts ctx.events := List.count_pos_iff.1 (by omega)
    obtain ⟨hle, -, x, hx, hid, hstatus⟩ := h.known _ hmem
    have hid : x.id = id := hid
    have hnewly : ∀ z ∈ old.tokens, z.id ≠ id := fun z hz hzid => by
      have hlt := hold z hz
      have hle : n ≤ id := hle
      omega
    rcases hstatus with hs | ⟨hw, hfor⟩
    · rcases h.reports.noted x hx hs with ⟨z, hz, hzx, -⟩ | hreported
      · exact absurd (hzx.trans hid) (hnewly z hz)
      · exact absurd (hid ▸ hreported) hnot
    · exact ⟨x, hx, hid, hw, hfor, fun z hz hzid => absurd hzid (hnewly z hz)⟩

/-- In the end: what has been cancelled, as the events say. -/
theorem cancelled_iff (h : ctx.Announces d n old) {id : Nat} :
    (∃ y ∈ ctx.pool.tokens, y.id = id ∧ y.status = .cancelled ∧
        ∀ x ∈ old.tokens, x.id = id → x.status ≠ .cancelled) ↔
      (cancelledIds ctx.events).count id = 1 := by
  constructor
  · rintro ⟨y, hy, rfl, hc, hnewly⟩
    refine List.count_eq_one_of_mem h.reports.once ((h.reports.noted y hy hc).resolve_left ?_)
    rintro ⟨x, hx, hid, hxc⟩
    exact hnewly x hx hid hxc
  · intro hone
    have hmem : id ∈ cancelledIds ctx.events := List.count_pos_iff.1 (by omega)
    obtain ⟨hnot, x, hx, hid, hc⟩ := h.reports.named id hmem
    exact ⟨x, hx, hid, hc, fun z hz hzid hzc => hnot ⟨z, hz, hzid, hzc⟩⟩

end ExecutionContext.Announces

/-- In the end: the events say whether the instance has come to its end. -/
theorem ExecutionContext.Tells.count_endings {command : EngineCommand}
    {before : Option InstanceStatus} {s : InstanceStatus} (h : ctx.Tells command before)
    (hs : s = .completed ∨ s = .terminated) :
    (endings ctx.events).count s = if before ≠ some s ∧ ctx.pool.status = some s then 1 else 0 := by
  cases h with
  | going _ hends hcompleted hterminated _ =>
    rw [hends, if_neg]
    · rfl
    · rcases hs with rfl | rfl
      · exact fun ⟨hne, hstatus⟩ => hne (hcompleted hstatus)
      · exact fun ⟨hne, hstatus⟩ => hne (hterminated hstatus)
  | completed _ hends hstatus hbefore =>
    rcases hs with rfl | rfl
    · simp [hends, hstatus, hbefore]
    · simp [hends, hstatus]
  | cancelled _ hends hstatus _ hbefore =>
    rcases hs with rfl | rfl
    · simp [hends, hstatus]
    · simp [hends, hstatus, hbefore]

/-! ## The result of a call -/

/-- The token has come to its status in the call. -/
def Token.Newly (t : Token) (state : Option EngineState) : Prop :=
  ∀ x ∈ givenTokens state, x.id = t.id → x.status ≠ t.status

/-- The events say what has become of the tokens and of the instance, and each thing once. -/
structure TellsTruth (command : EngineCommand) (state : Option EngineState)
    (result : EngineResult) : Prop where
  waiting : ∀ id c, c.type ≠ .external →
    ((∃ t ∈ result.newState.tokens, t.id = id ∧ t.status = .waiting ∧ t.waitingFor = some c ∧
        t.Newly state) ↔
      (alerts result.events).count (id, c) = 1 ∧ id ∉ cancelledIds result.events)
  cancelled : ∀ id,
    (∃ t ∈ result.newState.tokens, t.id = id ∧ t.status = .cancelled ∧ t.Newly state) ↔
      (cancelledIds result.events).count id = 1
  completed : (endings result.events).count .completed =
    if statusBefore command state ≠ some .completed ∧ result.newState.inst.status = .completed
    then 1 else 0
  terminated : (endings result.events).count .terminated =
    if statusBefore command state ≠ some .terminated ∧ result.newState.inst.status = .terminated
    then 1 else 0

variable {steps : List Step} {fuel : Nat} {command : EngineCommand} {state : Option EngineState}
  {options : ExecuteOptions} {result : EngineResult}

/-- The events of the call name the tokens that have begun to wait, and those that were
cancelled. -/
theorem Call.announces (call : Call d steps command state options)
    (hok : execute d fuel command state options = .ok result)
    (hsteps : ∀ st ∈ cycleSteps d fuel command state options, st.KeepsReports d) :
    ∃ (ctx : ExecutionContext) (inst : ProcessInstance),
      ctx.Announces d options.firstId (ExecutionContext.create state options).pool ∧
      ctx.Tells command (statusBefore command state) ∧ ctx.inst = some inst ∧
      result.newState = ctx.toState inst ∧ result.events = ctx.events := by
  obtain ⟨htrace, -⟩ := call.trace
  have hcoh := htrace.coherent
  have hnew : ∀ id, (ExecutionContext.create state options).pool.Cancelled id →
      id < options.firstId := by
    rintro id ⟨x, hx, rfl, -⟩
    exact hcoh.numbered x hx
  have hreports : (ExecutionContext.create state options).pool.Reports
      (ExecutionContext.create state options).pool.Cancelled := by
    refine ⟨List.nodup_nil, fun _ hid => absurd hid List.not_mem_nil,
      fun x hx hc => .inl ⟨x, hx, rfl, hc⟩, ?_⟩
    rintro x hx ⟨y, hy, hid, hc⟩
    exact .inr (Pool.eq_of_id hcoh.nodup hy hx hid ▸ hc)
  have hcommand : ∀ after,
      Step.KeepsReports d ⟨ExecutionContext.create state options, .command command, after⟩ →
      handleCommand d (ExecutionContext.create state options) command = .ok after →
      after.Announces d options.firstId (ExecutionContext.create state options).pool ∧
        after.Tells command (statusBefore command state) := by
    intro after ⟨hself, hcancel⟩ hhandle
    have hcmd := handleCommand_commanded hcoh.numbered hhandle
    have hsince := Pool.Since.commanded hcoh rfl rfl hcmd
    exact ⟨.commanded hcoh.numbered rfl hsince hcmd.stillWaiting
      (htrace.sound.commanded hcoh hcmd) (hcmd.reports hcoh hreports rfl hnew hself)
      (handleCommand_alerts hhandle), tells_of_command hcancel hhandle⟩
  obtain ⟨ctx, inst, ⟨hannounces, htells⟩, -, -, hinst, hstate, hevents, -⟩ :=
    execute_keeps (I := fun ctx => ctx.Announces d options.firstId
        (ExecutionContext.create state options).pool ∧
      ctx.Tells command (statusBefore command state)) hcoh hok hsteps hcommand
      fun before t after hst hhand ⟨hannounces, htells⟩ hturn =>
        ⟨hannounces.turned hnew hhand hst hturn, htells.turned hst.2.2.2 hturn⟩
  exact ⟨ctx, inst, hannounces, htells, hinst, hstate, hevents⟩

/-- If nothing is done to a token that the events have reported, and the instance ends once, the
events tell the truth. -/
theorem tellsTruth_of_keepsReports (call : Call d steps command state options)
    (hok : execute d fuel command state options = .ok result)
    (hsteps : ∀ st ∈ cycleSteps d fuel command state options, st.KeepsReports d) :
    TellsTruth command state result := by
  obtain ⟨htrace, hgiven⟩ := call.trace
  obtain ⟨ctx, inst, hannounces, htells, hinst, hstate, hevents⟩ := call.announces hok hsteps
  have hold : (ExecutionContext.create state options).pool.tokens =
      (givenTokens state).map Token.erase := congrArg (List.map Token.erase) hgiven
  have htokens : ctx.pool.tokens = result.newState.tokens.map Token.erase := by
    rw [hstate]
    rfl
  have hnumbered := htrace.coherent.numbered
  have hcount : ∀ s : InstanceStatus, s = .completed ∨ s = .terminated →
      (endings result.events).count s =
        if statusBefore command state ≠ some s ∧ result.newState.inst.status = s then 1 else 0 := by
    intro s hs
    have hstatus : ctx.pool.status = some result.newState.inst.status := by
      rw [hstate]
      exact congrArg (Option.map ProcessInstance.status) hinst
    have hcount := htells.count_endings hs
    rw [hevents, hcount, hstatus]
    simp only [Option.some.injEq]
  refine ⟨fun id c hc => ?_, fun id => ?_, hcount _ (.inl rfl), hcount _ (.inr rfl)⟩
  · rw [hevents, ← hannounces.waits_iff hnumbered rfl hc, htokens, hold]
    constructor
    · rintro ⟨t, ht, rfl, hw, hfor, hnewly⟩
      refine ⟨t.erase, List.mem_map_of_mem ht, rfl, hw, hfor, List.forall_mem_map.2 ?_⟩
      exact fun x hx hid => hw ▸ hnewly x hx hid
    · rintro ⟨y, hy, rfl, hw, hfor, hnewly⟩
      obtain ⟨t, ht, rfl⟩ := List.mem_map.1 hy
      refine ⟨t, ht, rfl, hw, hfor, fun x hx hid hs => ?_⟩
      exact hnewly x.erase (List.mem_map_of_mem hx) hid (hs.trans hw)
  · rw [hevents, ← hannounces.cancelled_iff, htokens, hold]
    constructor
    · rintro ⟨t, ht, rfl, hc, hnewly⟩
      refine ⟨t.erase, List.mem_map_of_mem ht, rfl, hc, List.forall_mem_map.2 ?_⟩
      exact fun x hx hid => hc ▸ hnewly x hx hid
    · rintro ⟨y, hy, rfl, hc, hnewly⟩
      obtain ⟨t, ht, rfl⟩ := List.mem_map.1 hy
      refine ⟨t, ht, rfl, hc, fun x hx hid hs => ?_⟩
      exact hnewly x.erase (List.mem_map_of_mem hx) hid (hs.trans hc)

/-- The first task of the interview is completed, and the events say that the second one waits. -/
theorem tellsTruth_interview : ∃ (r : Replay) (result : EngineResult),
    execute interview 10 (.completeUserTask 3 "user" none) (some r.state)
      (stopped always r.nextId) = .ok result ∧ (alerts result.events).length = 1 ∧
    TellsTruth (.completeUserTask 3 "user" none) (some r.state) result := by
  obtain ⟨r, result, call, hok, htest⟩ := exists_call_of_replay interview always 10 none []
    (.completeUserTask 3 "user" none)
    (fun r result => (alerts result.events).length = 1 ∧
      ∀ st ∈ cycleSteps interview 10 (.completeUserTask 3 "user" none) (some r.state)
        (stopped always r.nextId), st.KeepsReports interview)
    (by decide +kernel)
  obtain ⟨hone, hsteps⟩ := of_decide_eq_true htest
  exact ⟨r, result, hok, hone, tellsTruth_of_keepsReports call hok hsteps⟩

/-- The terminate end event comes before the task in the queue: the events say that the token of the
task was cancelled, and it waits. -/
theorem not_tellsTruth_killFirst : ∃ result,
    Call killFirst [] (.startProcess none none none) none (stopped always 0) ∧
    execute killFirst 10 (.startProcess none none none) none (stopped always 0) = .ok result ∧
    ¬ TellsTruth (.startProcess none none none) none result := by
  obtain ⟨result, call, hok, htest⟩ := exists_opening killFirst always
    (fun result => (∃ id ∈ cancelledIds result.events, (cancelledIds result.events).count id = 1) ∧
      ∀ t ∈ result.newState.tokens, t.status ≠ .cancelled)
    (by decide +kernel)
  obtain ⟨⟨id, -, hone⟩, hnone⟩ := of_decide_eq_true htest
  refine ⟨result, call, hok, fun htells => ?_⟩
  obtain ⟨t, ht, -, hc, -⟩ := (htells.cancelled id).2 hone
  exact hnone t ht hc

end NexusWorkflow
