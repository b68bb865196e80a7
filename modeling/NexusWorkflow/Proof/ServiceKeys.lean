import NexusWorkflow.Game.Acts
import NexusWorkflow.Store.Requests
import NexusWorkflow.Run.Diagram

/-!
# What service keys do to the status of instances

A key with the role `service` may not suspend, resume or cancel an instance.  But the completion of
a task resumes a suspended instance, and a failure that nobody catches suspends an active one, and
these commands are open to it.
-/

namespace NexusWorkflow

open ExecutionContext

variable {d : ProcessDefinition} {fuel : Nat} {state : EngineState} {command : EngineCommand}
  {options : ExecuteOptions} {result : EngineResult} {ctx ctx' mid : ExecutionContext}

/-! ## What a call makes of the status -/

/-- The status that the instance has been given by a suspension, a resumption or a termination. -/
def ExecutionEvent.statusGiven : ExecutionEvent → Option InstanceStatus
  | .processInstanceSuspended _ => some .suspended
  | .processInstanceResumed _ => some .active
  | .processInstanceTerminated _ _ => some .terminated
  | _ => none

def statusesGiven (events : List ExecutionEvent) : List InstanceStatus :=
  events.filterMap (·.statusGiven)

/-- The status that a command which is accepted gives the instance, completion apart. -/
def EngineCommand.gives (d : ProcessDefinition) (state : EngineState) :
    EngineCommand → Option InstanceStatus
  | .completeServiceTask _ _ | .completeUserTask _ _ _ =>
      if state.inst.status = .suspended then some .active else none
  | .fireTimer id =>
      if (state.token? id).any (·.elementType = .boundaryEvent) then none
      else if state.inst.status = .suspended then some .active else none
  | .failServiceTask id code _ =>
      if (state.token? id).any fun t => (d.findMatchingErrorBoundary t.elementId code).isSome then
        none
      else some .suspended
  | .suspendInstance => some .suspended
  | .resumeInstance => some .active
  | .cancelInstance => some .terminated
  | .startProcess _ _ _ | .deliverMessage _ _ | .broadcastSignal _ _ => none

theorem statusGiven_of_ofTurn {event : ExecutionEvent} (h : event.ofTurn = true) :
    event.statusGiven = none := by
  cases event <;> first | rfl | cases h

theorem statusesGiven_of_ofTurn {events more : List ExecutionEvent}
    (h : ∀ e ∈ more, e.ofTurn = true) :
    statusesGiven (events ++ more) = statusesGiven events := by
  have hmore : more.filterMap (·.statusGiven) = [] :=
    List.filterMap_eq_nil_iff.2 fun e he => statusGiven_of_ofTurn (h e he)
  rw [statusesGiven, List.filterMap_append, hmore, List.append_nil]
  rfl

/-- The rounds of the loop give the instance no status but `completed`. -/
theorem runLoop_statusesGiven (h : runLoop d fuel ctx = .ok ctx') :
    statusesGiven ctx'.events = statusesGiven ctx.events ∧
      (ctx'.inst = ctx.inst ∨ ctx'.inst.map (·.status) = some .completed) := by
  induction fuel generalizing ctx with
  | zero =>
    cases hq : ctx.pendingQueue with
    | nil =>
      rw [runLoop_nil d hq] at h
      rw [← Except.ok.inj h]
      exact ⟨rfl, .inl rfl⟩
    | cons t rest =>
      rw [runLoop_zero d hq] at h
      cases h
  | succ fuel ih =>
    cases hq : ctx.pendingQueue with
    | nil =>
      rw [runLoop_nil d hq] at h
      rw [← Except.ok.inj h]
      exact ⟨rfl, .inl rfl⟩
    | cons t rest =>
      rw [runLoop_cons d hq] at h
      obtain ⟨after, hafter, h⟩ := Except.bind_eq_ok_iff.1 h
      obtain ⟨labels, -, hacts⟩ := processToken_acts hafter
      obtain ⟨hgiven, hstatus⟩ := ih h
      constructor
      · obtain ⟨more, hevents, hmore⟩ := hacts.events
        rw [hgiven, hevents]
        exact statusesGiven_of_ofTurn hmore
      · rcases hstatus with hsame | hcompleted
        · rw [hsame]
          exact hacts.inst.imp id And.right
        · exact .inr hcompleted

theorem Acts.statusesGiven {labels : List Label} (h : Acts labels ctx ctx') :
    statusesGiven ctx'.events = statusesGiven ctx.events := by
  obtain ⟨more, hevents, hmore⟩ := h.events
  rw [hevents]
  exact statusesGiven_of_ofTurn hmore

theorem Acts.inst_eq {labels : List Label} (h : Acts labels ctx ctx')
    (hnot : .completes ∉ labels) : ctx'.inst = ctx.inst :=
  h.inst.resolve_right fun hcompletes => hnot hcompletes.1

theorem statusesGiven_emit (event : ExecutionEvent) :
    statusesGiven (ctx.emit event).events =
      statusesGiven ctx.events ++ event.statusGiven.toList := by
  show statusesGiven (ctx.events ++ [event]) = _
  rw [statusesGiven, List.filterMap_append]
  congr 1

/-- What the handler of a command has said and made of the status, if it is `given` one. -/
structure Given (given : Option InstanceStatus) (inst : ProcessInstance)
    (mid : ExecutionContext) : Prop where
  events : statusesGiven mid.events = given.toList
  status : mid.inst.map (·.status) = some (given.getD inst.status)

/-- Acts that do not complete the instance give it no status. -/
theorem Given.acts {given : Option InstanceStatus} {inst : ProcessInstance} {labels : List Label}
    (hgiven : Given given inst ctx) (h : Acts labels ctx ctx') (hnot : .completes ∉ labels) :
    Given given inst ctx' where
  events := h.statusesGiven.trans hgiven.events
  status := by
    rw [h.inst_eq hnot]
    exact hgiven.status

/-- Nor does an event that says nothing of the status. -/
theorem Given.emit {given : Option InstanceStatus} {inst : ProcessInstance}
    (hgiven : Given given inst ctx) {event : ExecutionEvent} (h : event.statusGiven = none) :
    Given given inst (ctx.emit event) where
  events := by
    rw [statusesGiven_emit, h, hgiven.events]
    exact List.append_nil _
  status := hgiven.status

theorem given_create (state : EngineState) (options : ExecuteOptions) :
    Given none state.inst (ExecutionContext.create (some state) options) := ⟨rfl, rfl⟩

/-- The completion of a task resumes a suspended instance. -/
theorem handleCompleteTask_given {id : Nat} {vars : Option Variables} {inst : ProcessInstance}
    (hgiven : Given none inst ctx) (hinst : ctx.inst = some inst)
    (h : handleCompleteTask d ctx id vars = .ok ctx') :
    Given (if inst.status = .suspended then some .active else none) inst ctx' := by
  obtain ⟨w, resumed, labels, -, -, hresumed, hlabels, hacts⟩ := handleCompleteTask_acts h
  refine Given.acts ?_ hacts fun hmem => (hlabels _ hmem).ne_completes
  unfold autoResume requireInstance at hresumed
  rw [hinst] at hresumed
  obtain ⟨i, hi, hresumed⟩ := Except.bind_eq_ok_iff.1 hresumed
  obtain rfl := Except.ok.inj hi
  split at hresumed
  · rename_i hsuspended
    rw [← Except.ok.inj hresumed, if_pos hsuspended]
    refine ⟨?_, rfl⟩
    rw [statusesGiven_emit]
    show statusesGiven ctx.events ++ _ = _
    rw [hgiven.events]
    rfl
  · rename_i hother
    rw [← Except.ok.inj hresumed, if_neg hother]
    exact hgiven

/-- A failure suspends the instance unless an error boundary event catches it. -/
theorem handleFailServiceTask_given {id : Nat} {code message : String}
    (h : handleFailServiceTask d (ExecutionContext.create (some state) options) id code message =
      .ok mid) :
    Given ((EngineCommand.failServiceTask id code message).gives d state) state.inst mid := by
  unfold handleFailServiceTask at h
  obtain ⟨t, ht, h⟩ := Except.bind_eq_ok_iff.1 h
  obtain ⟨inst, hinst, h⟩ := Except.bind_eq_ok_iff.1 h
  obtain rfl : inst = state.inst := (Option.some.inj (requireInstance_eq hinst)).symm
  have hget : state.token? id = some t := (requireWaiting_spec ht).1
  have hgives : (EngineCommand.failServiceTask id code message).gives d state =
      if (d.findMatchingErrorBoundary t.elementId code).isSome then none else some .suspended := by
    simp only [EngineCommand.gives, hget, Option.any_some]
  have hsay : Given none state.inst ((ExecutionContext.create (some state) options).emit
      (.serviceTaskFailed state.inst.id t.id t.elementId message 1)) :=
    (given_create state options).emit rfl
  rw [hgives]
  simp only at h
  generalize (ExecutionContext.create (some state) options).emit
    (.serviceTaskFailed state.inst.id t.id t.elementId message 1) = said at h hsay
  split at h
  · rename_i b hb
    rw [hb]
    have hcancel := hsay.acts (cancelFailed_acts said t) List.not_mem_nil
    exact ((hcancel.emit rfl).emit rfl).acts (moveTokenToFlows_acts h) List.not_mem_nil
  · rename_i hb
    rw [hb, ← Except.ok.inj h]
    refine Given.emit ⟨?_, rfl⟩ rfl
    rw [statusesGiven_emit]
    show statusesGiven said.events ++ _ = _
    rw [hsay.events]
    rfl

/-- What every command that goes on with an instance makes of its status. -/
theorem handleCommand_given (hgoes : command.goesOn)
    (h : handleCommand d (ExecutionContext.create (some state) options) command = .ok mid) :
    Given (command.gives d state) state.inst mid := by
  have hresumes : ∀ {isTarget : Token → Bool} {vars : Option Variables},
      resumeTargets d (ExecutionContext.create (some state) options) isTarget vars = .ok mid →
        Given none state.inst mid := by
    intro isTarget vars h
    obtain ⟨labels, hlabels, hacts⟩ := resumeTargets_acts h
    refine (given_create state options).acts hacts fun hmem => ?_
    obtain ⟨_, _, _, _, _, heq⟩ := hlabels _ hmem
    cases heq
  cases command with
  | startProcess _ _ _ => cases hgoes
  | completeServiceTask id vars | completeUserTask id completedBy vars =>
    exact handleCompleteTask_given (given_create state options) rfl h
  | failServiceTask id code message => exact handleFailServiceTask_given h
  | fireTimer id =>
    obtain ⟨t, hget, -, hcase⟩ := handleFireTimer_cases h
    have hget : state.token? id = some t := hget
    simp only [EngineCommand.gives, hget, Option.any_some, decide_eq_true_eq]
    rcases hcase with ⟨htype, hacts⟩ | ⟨htype, hcomplete⟩
    · rw [if_pos htype]
      exact (given_create state options).acts hacts List.not_mem_nil
    · rw [if_neg htype]
      have hclear := cancelEbgSiblings_acts (ExecutionContext.create (some state) options) t
      exact handleCompleteTask_given ((given_create state options).acts hclear List.not_mem_nil)
        (hclear.inst_eq List.not_mem_nil) hcomplete
  | deliverMessage name vars => exact hresumes h
  | broadcastSignal name vars => exact hresumes h
  | suspendInstance =>
    have h : handleSuspendInstance _ = .ok mid := h
    unfold handleSuspendInstance at h
    obtain ⟨inst, -, h⟩ := Except.bind_eq_ok_iff.1 h
    split at h
    · cases h
    · rw [← Except.ok.inj h]
      exact ⟨rfl, rfl⟩
  | resumeInstance =>
    have h : handleResumeInstance _ = .ok mid := h
    unfold handleResumeInstance at h
    obtain ⟨inst, -, h⟩ := Except.bind_eq_ok_iff.1 h
    split at h
    · cases h
    · rw [← Except.ok.inj h]
      exact ⟨rfl, rfl⟩
  | cancelInstance =>
    have h : handleCancelInstance _ = .ok mid := h
    unfold handleCancelInstance at h
    obtain ⟨inst, -, h⟩ := Except.bind_eq_ok_iff.1 h
    have hcancel := (given_create state options).acts (cancelTokens_acts _
      ((ExecutionContext.create (some state) options).getAllTokens.filter Token.live))
        List.not_mem_nil
    rw [← Except.ok.inj h]
    refine ⟨?_, rfl⟩
    rw [statusesGiven_emit]
    show statusesGiven (ExecutionContext.cancelTokens _ _).events ++ _ = _
    rw [hcancel.events]
    rfl

/-- What a call says and makes of the status. -/
theorem execute_given (hgoes : command.goesOn)
    (h : execute d fuel command (some state) options = .ok result) :
    statusesGiven result.events = (command.gives d state).toList ∧
      (result.newState.inst.status = (command.gives d state).getD state.inst.status ∨
        result.newState.inst.status = .completed) := by
  unfold execute at h
  obtain ⟨mid, hmid, h⟩ := Except.bind_eq_ok_iff.1 h
  obtain ⟨ctx, hctx, h⟩ := Except.bind_eq_ok_iff.1 h
  obtain ⟨inst, hinst, h⟩ := Except.bind_eq_ok_iff.1 h
  have hgiven := handleCommand_given hgoes hmid
  obtain ⟨hevents, hstatus⟩ := runLoop_statusesGiven hctx
  rw [requireInstance_eq hinst] at hstatus
  rw [← Except.ok.inj h]
  refine ⟨hevents.trans hgiven.events, hstatus.imp (fun heq => ?_) Option.some.inj⟩
  have hmidStatus := hgiven.status
  rw [← heq] at hmidStatus
  exact Option.some.inj hmidStatus

/-! ## The law -/

/-- From one status to the other: no resumption, no suspension, no termination. -/
structure InstanceStatus.Stays (before after : InstanceStatus) : Prop where
  resumed : before = .suspended → after ≠ .active
  suspended : before = .active → after ≠ .suspended
  terminated : before ≠ .terminated → after ≠ .terminated

instance (before after : InstanceStatus) : Decidable (before.Stays after) :=
  decidable_of_iff ((before = .suspended → after ≠ .active) ∧
    (before = .active → after ≠ .suspended) ∧
      (before ≠ .terminated → after ≠ .terminated))
    ⟨fun ⟨h₁, h₂, h₃⟩ => ⟨h₁, h₂, h₃⟩, fun ⟨h₁, h₂, h₃⟩ => ⟨h₁, h₂, h₃⟩⟩

/-- No instance is resumed, suspended or terminated on the way from one store to the other. -/
def Store.Stays (store store' : Store) : Prop :=
  ∀ row ∈ store.instances.values, ∀ row' ∈ store'.instances.values, row'.data.id = row.data.id →
    row.data.status.Stays row'.data.status

/-- The command is refused, or it neither resumes nor suspends nor terminates the instance. -/
def EngineCommand.KeepsStatus (d : ProcessDefinition) (state : EngineState) : EngineCommand → Prop
  | .startProcess _ _ _ | .deliverMessage _ _ | .broadcastSignal _ _ => True
  | .completeServiceTask id _ | .completeUserTask id _ _ => state.inst.status = .suspended →
      ∀ t ∈ state.token? id, t.status ≠ .waiting
  | .fireTimer id => state.inst.status = .suspended →
      ∀ t ∈ state.token? id, t.status = .waiting → t.elementType = .boundaryEvent
  | .failServiceTask id code _ => state.inst.status = .active →
      ∀ t ∈ state.token? id, t.status = .waiting →
        (d.findMatchingErrorBoundary t.elementId code).isSome
  | .suspendInstance => state.inst.status ≠ .active
  | .resumeInstance => state.inst.status ≠ .suspended
  | .cancelInstance => state.inst.status = .terminated

/-- The events of a call report no resumption, suspension or termination that the law forbids. -/
def Calm (state : EngineState) (result : EngineResult) : Prop :=
  ∀ status ∈ statusesGiven result.events, state.inst.status.Stays status

namespace InstanceStatus

variable (status : InstanceStatus)

theorem stays_self : status.Stays status := by
  cases status <;> decide

theorem stays_completed : status.Stays .completed := by
  cases status <;> decide

@[simp] theorem stays_active_iff : status.Stays .active ↔ status ≠ .suspended := by
  cases status <;> decide

@[simp] theorem stays_suspended_iff : status.Stays .suspended ↔ status ≠ .active := by
  cases status <;> decide

@[simp] theorem stays_terminated_iff : status.Stays .terminated ↔ status = .terminated := by
  cases status <;> decide

end InstanceStatus

/-- For an accepted command, the condition says just that the status it gives is allowed. -/
theorem keepsStatus_iff (hgoes : command.goesOn)
    (h : execute d fuel command (some state) options = .ok result) :
    command.KeepsStatus d state ↔
      ∀ status ∈ command.gives d state, state.inst.status.Stays status := by
  have hcompletes : ∀ {t : Token}, t.status = .waiting →
      ((state.inst.status = .suspended → t.status ≠ .waiting) ↔
        ∀ status ∈ (if state.inst.status = .suspended then some .active else none :
          Option InstanceStatus), state.inst.status.Stays status) := by
    intro t hwaiting
    by_cases hs : state.inst.status = .suspended <;> simp [hs, hwaiting]
  cases command with
  | startProcess _ _ _ => cases hgoes
  | deliverMessage _ _ | broadcastSignal _ _ => exact iff_of_true trivial (nofun)
  | completeServiceTask id vars =>
    obtain ⟨t, hget, hwaiting⟩ := waiting_of_execute h (.inl ⟨vars, rfl⟩)
    simpa [EngineCommand.KeepsStatus, EngineCommand.gives, hget] using hcompletes hwaiting
  | completeUserTask id completedBy vars =>
    obtain ⟨t, hget, hwaiting⟩ := waiting_of_execute h (.inr (.inl ⟨completedBy, vars, rfl⟩))
    simpa [EngineCommand.KeepsStatus, EngineCommand.gives, hget] using hcompletes hwaiting
  | fireTimer id =>
    obtain ⟨t, hget, hwaiting⟩ := waiting_of_execute h (.inr (.inr (.inr rfl)))
    by_cases htype : t.elementType = .boundaryEvent
    · simp [EngineCommand.KeepsStatus, EngineCommand.gives, hget, htype]
    · simp [EngineCommand.KeepsStatus, EngineCommand.gives, hget, htype, hwaiting]
  | failServiceTask id code message =>
    obtain ⟨t, hget, hwaiting⟩ := waiting_of_execute h (.inr (.inr (.inl ⟨code, message, rfl⟩)))
    by_cases hcaught : (d.findMatchingErrorBoundary t.elementId code).isSome
    · simp [EngineCommand.KeepsStatus, EngineCommand.gives, hget, hcaught]
    · simp [EngineCommand.KeepsStatus, EngineCommand.gives, hget, hcaught, hwaiting]
  | suspendInstance | resumeInstance | cancelInstance =>
    simp [EngineCommand.KeepsStatus, EngineCommand.gives]

/-- The events of an accepted command obey the law exactly if the command keeps the status. -/
theorem calm_iff (hgoes : command.goesOn)
    (h : execute d fuel command (some state) options = .ok result) :
    Calm state result ↔ command.KeepsStatus d state := by
  rw [keepsStatus_iff hgoes h, Calm, (execute_given hgoes h).1]
  simp

theorem stays_of_keepsStatus (hgoes : command.goesOn)
    (h : execute d fuel command (some state) options = .ok result)
    (hkeeps : command.KeepsStatus d state) :
    state.inst.status.Stays result.newState.inst.status := by
  rcases (execute_given hgoes h).2 with heq | hcompleted
  · rw [heq]
    cases hgives : command.gives d state with
    | none => exact state.inst.status.stays_self
    | some status => exact (keepsStatus_iff hgoes h).1 hkeeps status hgives
  · rw [hcompleted]
    exact state.inst.status.stays_completed

/-! ## Requests -/

/-- In the state that the request loads, the command keeps the status. -/
def Surroundings.Keeps (s : Surroundings) (store : Store) (instanceId : Nat)
    (command : EngineCommand) : Prop :=
  ∀ state version d,
    (loadEngineState (s.circumstances 0).order instanceId).alone store = some (state, version) →
    s.definitions state.inst.definitionId state.inst.definitionVersion = some d →
      command.KeepsStatus d state

/-- The commands of the request keep the status. -/
def HttpRequest.KeepsStatus (s : Surroundings) (store : Store) : HttpRequest → Prop
  | .command instanceId command => s.Keeps store instanceId command
  | .completeTask taskId completedBy vars => ∀ task ∈ store.userTasks.get? taskId,
      s.Keeps store task.instanceId (.completeUserTask task.tokenId completedBy vars)
  | _ => True

variable {s : Surroundings} {store store' : Store} {instanceId : Nat}

theorem Store.stays_refl (store : Store) : store.Stays store := by
  intro row hrow row' hrow' hid
  obtain rfl : row' = row := KeyedMap.eq_of_key_eq hrow' hrow hid
  exact row'.data.status.stays_self

/-- One row is rewritten. -/
theorem Store.stays_set {row new : InstanceRow} (hrow : row ∈ store.instances.values)
    (hid : new.data.id = row.data.id) (hstays : row.data.status.Stays new.data.status)
    (hset : store'.instances = store.instances.set new) : store.Stays store' := by
  intro x hx x' hx' hxid
  rw [hset] at hx'
  rcases KeyedMap.mem_set.1 hx' with rfl | ⟨hx', -⟩
  · obtain rfl : x = row := KeyedMap.eq_of_key_eq hx hrow (hxid.symm.trans hid)
    exact hstays
  · obtain rfl : x' = x := KeyedMap.eq_of_key_eq hx' hx hxid
    exact x'.data.status.stays_self

theorem Cycle.Done.stays {definitions : String → Nat → Option ProcessDefinition} {c : Cycle}
    {version : Nat} {ops : List StoreOperation}
    (h : c.Done definitions instanceId store d state version result ops store')
    (hkeeps : c.command.KeepsStatus d state) : store.Stays store' := by
  obtain ⟨row, hrow, hid, hinst, hnew, hset⟩ := h.rewrites
  refine Store.stays_set hrow (hnew.trans hid.symm) ?_ hset
  have hstays := stays_of_keepsStatus c.goesOn h.executes hkeeps
  rw [hinst] at hstays
  exact hstays

theorem stays_answer {c : Cycle} {missing denied : Nat}
    (hkeeps : ∀ d state version, (loadEngineState c.order instanceId).alone store =
      some (state, version) →
      s.definitions state.inst.definitionId state.inst.definitionVersion = some d →
        c.command.KeepsStatus d state) :
    store.Stays ((c.attempt s.definitions instanceId store).answer missing denied store).2 := by
  cases h : c.attempt s.definitions instanceId store with
  | saved result store' =>
    obtain ⟨d, state, version, ops, hdone⟩ := Cycle.done_of_attempt h
    exact hdone.stays (hkeeps d state version hdone.loads hdone.finds)
  | _ => exact store.stays_refl

theorem stays_startWith {k : Circumstances} {vars : Option Variables}
    {correlationKey businessKey : Option String} :
    store.Stays (startWith store k d vars correlationKey businessKey).2 := by
  unfold startWith
  split
  · exact store.stays_refl
  · split
    · exact store.stays_refl
    · rename_i store' hsave
      obtain ⟨hset, hnone⟩ := instances_start hsave
      intro x hx x' hx' hxid
      rw [show (_ : Reply × Store).2.instances = _ from hset] at hx'
      rcases KeyedMap.mem_set.1 hx' with rfl | ⟨hx', -⟩
      · exact absurd hxid.symm (KeyedMap.get?_eq_none_iff.1 hnone x hx)
      · obtain rfl : x' = x := KeyedMap.eq_of_key_eq hx' hx hxid
        exact x'.data.status.stays_self

/-- The status of the instance with the id. -/
def Store.statusOf (store : Store) (instanceId : Nat) : Option InstanceStatus :=
  (store.instances.get? instanceId).map (·.data.status)

/-- No instance gets a status but `completed`. -/
def Store.Completes (store store' : Store) : Prop :=
  ∀ id, store'.statusOf id = store.statusOf id ∨ store'.statusOf id = some .completed

namespace Store.Completes

theorem refl (store : Store) : store.Completes store := fun _ => .inl rfl

theorem trans {mid : Store} (h : store.Completes mid) (h' : mid.Completes store') :
    store.Completes store' := by
  intro id
  rcases h' id with heq | hcompleted
  · rw [heq]
    exact h id
  · exact .inr hcompleted

theorem stays (h : store.Completes store') : store.Stays store' := by
  intro row hrow row' hrow' hid
  have hbefore : store.statusOf row.data.id = some row.data.status :=
    congrArg (Option.map _) (KeyedMap.get?_of_mem hrow)
  have hafter : store'.statusOf row.data.id = some row'.data.status := by
    rw [← hid]
    exact congrArg (Option.map _) (KeyedMap.get?_of_mem hrow')
  have hcase := h row.data.id
  rw [hbefore, hafter] at hcase
  rcases hcase with heq | hcompleted
  · rw [Option.some.inj heq]
    exact row.data.status.stays_self
  · rw [Option.some.inj hcompleted]
    exact row.data.status.stays_completed

end Store.Completes

/-- A command that gives the instance no status leaves it its own, or the instance completes. -/
theorem Cycle.Done.completes {definitions : String → Nat → Option ProcessDefinition} {c : Cycle}
    {version : Nat} {ops : List StoreOperation}
    (h : c.Done definitions instanceId store d state version result ops store')
    (hgives : c.command.gives d state = none) : store.Completes store' := by
  obtain ⟨row, hrow, hid, hinst, hnew, hset⟩ := h.rewrites
  intro id
  by_cases heq : id = instanceId
  · subst heq
    have hbefore : store.statusOf id = some row.data.status := by
      rw [← hid]
      exact congrArg (Option.map _) (KeyedMap.get?_of_mem hrow)
    have hafter : store'.statusOf id = some result.newState.inst.status := by
      rw [Store.statusOf, hset, KeyedMap.get?_set]
      simp [InstanceRow.id, hnew]
    have hstatus := (execute_given c.goesOn h.executes).2
    rw [hgives, hinst] at hstatus
    rw [hbefore, hafter]
    exact hstatus.imp (congrArg some) (congrArg some)
  · left
    rw [Store.statusOf, hset, KeyedMap.get?_set_of_ne]
    · rfl
    · exact fun h => heq (h.symm.trans hnew)

theorem completes_answer {definitions : String → Nat → Option ProcessDefinition} {c : Cycle}
    {missing denied : Nat} (hgives : ∀ d state, c.command.gives d state = none) :
    store.Completes ((c.attempt definitions instanceId store).answer missing denied store).2 := by
  cases h : c.attempt definitions instanceId store with
  | saved result store' =>
    obtain ⟨d, state, version, ops, hdone⟩ := Cycle.done_of_attempt h
    exact hdone.completes (hgives d state)
  | _ => exact .refl store

/-- A broadcast, by induction on the subscriptions that are still to be served. -/
theorem completes_broadcast {name : String} {vars : Option Variables}
    (subs : List EventSubscription) (n delivered : Nat) (store : Store) :
    store.Completes (broadcast s name vars subs n delivered store).2 := by
  induction subs generalizing n delivered store with
  | nil => exact .refl store
  | cons sub subs ih =>
    unfold broadcast
    split
    · rename_i result store' hsaved
      obtain ⟨d, state, version, ops, hdone⟩ := Cycle.done_of_attempt hsaved
      exact (hdone.completes rfl).trans (ih (n + 1) (delivered + 1) store')
    · exact .refl store
    · exact ih (n + 1) delivered store

theorem completes_postMessages {name : String} {value : Option String} {vars : Option Variables} :
    store.Completes (postMessages s store name value vars).2 := by
  unfold postMessages
  split
  · exact .refl store
  · exact completes_answer fun _ _ => rfl

theorem stays_postInstances {definitionId : String} {vars : Option Variables}
    {correlationKey businessKey : Option String} :
    store.Stays (postInstances s store definitionId vars correlationKey businessKey).2 := by
  unfold postInstances
  split
  · exact store.stays_refl
  · split
    · exact stays_startWith
    · exact store.stays_refl

theorem stays_postCommands (hkeeps : s.Keeps store instanceId command) :
    store.Stays (postCommands s store instanceId command).2 := by
  unfold postCommands
  split
  · exact stays_answer fun d state version hloads hfinds => hkeeps state version d hloads hfinds
  · exact store.stays_refl

theorem stays_postComplete {taskId : Nat} {completedBy : String} {vars : Option Variables}
    (hkeeps : ∀ task ∈ store.userTasks.get? taskId,
      s.Keeps store task.instanceId (.completeUserTask task.tokenId completedBy vars)) :
    store.Stays (postComplete s store taskId completedBy vars).2 := by
  unfold postComplete
  split
  · exact store.stays_refl
  · rename_i task htask
    split
    · exact store.stays_refl
    · exact stays_answer fun d state version hloads hfinds =>
        hkeeps task htask state version d hloads hfinds

/-- The rows of the instances are not those of the tasks. -/
theorem stays_rewriteTask {taskId : Nat} {change : UserTaskRecord → UserTaskRecord} :
    store.Stays (rewriteTask store taskId change).2 := by
  unfold rewriteTask
  split
  · exact store.stays_refl
  · unfold Store.updateUserTask
    split <;> exact Store.Completes.stays fun id => .inl rfl

/-- No rule lets a service key delete an instance, or suspend, resume or restart it. -/
theorem not_mayMake_administration {request : HttpRequest} {id : Nat}
    (h : request = .deleteInstance id ∨ request = .suspendInstance id ∨
      request = .resumeInstance id ∨ request = .restartInstance id) :
    KeyRole.service.mayMake request = false := by
  have hupper : "DELETE".toUpper = "DELETE" ∧ "POST".toUpper = "POST" := by
    simp [String.toUpper, String.ext_iff]
  rcases h with rfl | rfl | rfl | rfl <;>
    simp [KeyRole.mayMake, keyMayCall, HttpRequest.method, HttpRequest.path, Rule.service,
      Rule.fits, Rule.lit,
      Segment.fits, hupper]

/-- A request that a service key may make leaves every status as the law has it, if its commands
do. -/
theorem stays_handle {request : HttpRequest} (hmay : KeyRole.service.mayMake request)
    (hkeeps : request.KeepsStatus s store) : store.Stays (request.handle s store).2 := by
  have hrefused : ∀ {id : Nat}, (request = .deleteInstance id ∨ request = .suspendInstance id ∨
      request = .resumeInstance id ∨ request = .restartInstance id) → False := fun h =>
    Bool.false_ne_true ((not_mayMake_administration h).symm.trans hmay)
  cases request with
  | startInstance definitionId vars correlationKey businessKey => exact stays_postInstances
  | command id engineCommand => exact stays_postCommands hkeeps
  | deleteInstance id => exact (hrefused (.inl rfl)).elim
  | suspendInstance id => exact (hrefused (.inr (.inl rfl))).elim
  | resumeInstance id => exact (hrefused (.inr (.inr (.inl rfl)))).elim
  | restartInstance id => exact (hrefused (.inr (.inr (.inr rfl)))).elim
  | completeTask taskId completedBy vars => exact stays_postComplete hkeeps
  | claimTask taskId claimedBy => exact stays_rewriteTask
  | releaseTask taskId => exact stays_rewriteTask
  | deliverMessage name value vars => exact completes_postMessages.stays
  | broadcastSignal name vars => exact (completes_broadcast _ 0 0 store).stays
  | other method path => exact store.stays_refl

/-- A service key makes a request that keeps the status. -/
def ServiceRequest (store next : Store) : Prop :=
  ∃ (s : Surroundings) (request : HttpRequest), KeyRole.service.mayMake request = true ∧
    request.KeepsStatus s store ∧ (request.handle s store).2 = next

/-- In a sequence of requests of service keys that keep the status, no instance is resumed,
suspended or terminated; and of the commands that service keys may run, those that keep the status
are just those whose events report nothing of the kind. -/
theorem statuses_stay_iff {stores : List Store} (hchain : stores.IsChain ServiceRequest) :
    stores.IsChain Store.Stays ∧
    ∀ {d : ProcessDefinition} {fuel : Nat} {command : EngineCommand} {state : EngineState}
      {options : ExecuteOptions} {result : EngineResult}, command.goesOn →
        keyMayRunCommand .service command.type →
        execute d fuel command (some state) options = .ok result →
          (Calm state result ↔ command.KeepsStatus d state) := by
  constructor
  · refine hchain.imp fun store next hstep => ?_
    obtain ⟨s, request, hmay, hkeeps, rfl⟩ := hstep
    exact stays_handle hmay hkeeps
  · intro d fuel command state options result hgoes _ h
    exact calm_iff hgoes h

/-! ## Requests about an errand and an interview -/

open Diagram

theorem Store.Stays.statusOf (h : store.Stays store') {before after : InstanceStatus}
    (hbefore : store.statusOf instanceId = some before)
    (hafter : store'.statusOf instanceId = some after) : before.Stays after := by
  obtain ⟨row, hrow, rfl⟩ := Option.map_eq_some_iff.1 hbefore
  obtain ⟨row', hrow', rfl⟩ := Option.map_eq_some_iff.1 hafter
  refine h row (KeyedMap.mem_of_get? hrow) row' (KeyedMap.mem_of_get? hrow') ?_
  exact (KeyedMap.key_of_get? hrow').trans (KeyedMap.key_of_get? hrow).symm

/-- A service key completes the first task of an interview that is active. -/
theorem statuses_stay_interview :
    ∃ store nextId, Store.opened interview always = some (store, nextId) ∧
    [store, ((HttpRequest.completeTask 0 "user" none).handle
    (interview.surroundings 10) store).2].IsChain
      Store.Stays := by
  have hruns : (Store.opened interview always).any (fun (store, _) =>
      KeyRole.service.mayMake (.completeTask 0 "user" none) ∧
      ((store.userTasks.get? 0).all fun task =>
        ((loadEngineState .inserted task.instanceId).alone store).all fun loaded =>
          loaded.1.inst.status = .active) = true) = true := by decide +kernel
  obtain ⟨⟨store, nextId⟩, hopened, hfacts⟩ := (Option.any_eq_true ..).1 hruns
  simp only [decide_eq_true_eq] at hfacts
  obtain ⟨hmay, hactive⟩ := hfacts
  refine ⟨store, nextId, hopened,
    (statuses_stay_iff (.cons_cons ⟨_, _, hmay, ?_, rfl⟩ (.singleton _))).1⟩
  intro task htask state version d hloads _ hsuspended
  have hstatus := (Option.all_eq_true ..).1 ((Option.all_eq_true ..).1 hactive task htask) _ hloads
  rw [hsuspended] at hstatus
  exact absurd hstatus (by decide)

/-- A service key reports the failure of the service task, which suspends the errand, and then its
completion, which resumes it. -/
theorem not_statuses_stay_errand :
    ∃ store nextId, Store.opened errand always = some (store, nextId) ∧
    ∃ failed resumed : Store,
      (KeyRole.service.mayMake (.command 0 (.failServiceTask 3 "ERR" "down")) ∧
        ((HttpRequest.command 0 (.failServiceTask 3 "ERR" "down")).handle
        (errand.surroundings 10) store).2 =
          failed) ∧
      (KeyRole.service.mayMake (.command 0 (.completeServiceTask 3 none)) ∧
        ((HttpRequest.command 0 (.completeServiceTask 3 none)).handle
        (errand.surroundings 20) failed).2 =
          resumed) ∧
      ¬ store.Stays failed ∧ ¬ failed.Stays resumed := by
  have hruns : (Store.opened errand always).any (fun (store, _) =>
      let failed := ((HttpRequest.command 0 (.failServiceTask 3 "ERR" "down")).handle
        (errand.surroundings 10) store).2
      let resumed := ((HttpRequest.command 0 (.completeServiceTask 3 none)).handle
        (errand.surroundings 20) failed).2
      KeyRole.service.mayMake (.command 0 (.failServiceTask 3 "ERR" "down")) ∧
      KeyRole.service.mayMake (.command 0 (.completeServiceTask 3 none)) ∧
      store.statusOf 0 = some .active ∧ failed.statusOf 0 = some .suspended ∧
        resumed.statusOf 0 = some .active) = true := by decide +kernel
  obtain ⟨⟨store, nextId⟩, hopened, hfacts⟩ := (Option.any_eq_true ..).1 hruns
  simp only [decide_eq_true_eq] at hfacts
  obtain ⟨hmayFail, hmayComplete, hactive, hsuspended, hresumed⟩ := hfacts
  refine ⟨store, nextId, hopened, _, _, ⟨hmayFail, rfl⟩, ⟨hmayComplete, rfl⟩, fun h => ?_, fun h =>
    ?_⟩
  · exact absurd (h.statusOf hactive hsuspended) (by decide)
  · exact absurd (h.statusOf hsuspended hresumed) (by decide)

end NexusWorkflow
