import NexusWorkflow.Game.Effects
import NexusWorkflow.Game.Waiting

/-!
# The effects of the handlers

Every element handler, the run loop and every command on an instance that is there are `Effects`,
and so is a whole call of `execute`.
-/

namespace NexusWorkflow

open ExecutionContext

variable {d : ProcessDefinition} {A : Assumed} {ctx mid ctx' c : ExecutionContext}

/-! ## Handlers of elements -/

theorem suspend_effects {t : Token} {condition : WaitCondition}
    (hw : condition.type = .userTask → A.user) (ht : Ready A ctx t) :
    Effects A ctx (suspendTokenWithCondition ctx t condition) :=
  .one (.park t condition hw ht.toVouches)

theorem handleBoundaryEventWait_effects {t : Token} {e : BoundaryEventElement}
    (ht : Ready A ctx t) (h : handleBoundaryEventWait ctx t e = .ok ctx') :
    Effects A ctx ctx' := by
  unfold handleBoundaryEventWait at h
  simp only at h
  split at h <;> first
    | (rw [← Except.ok.inj h]; exact suspend_effects nofun ht)
    | cases h

theorem handleIntermediateCatchEvent_effects {t : Token} {e : EventElement}
    (ht : Ready A ctx t) (h : handleIntermediateCatchEvent ctx t e = .ok ctx') :
    Effects A ctx ctx' := by
  unfold handleIntermediateCatchEvent at h
  simp only at h
  split at h <;> first
    | (rw [← Except.ok.inj h]; exact suspend_effects nofun ht)
    | cases h

/-- Nothing that boundary tokens are made of depends on the scopes. -/
theorem spawnBoundaryTokens_saveScope (ctx : ExecutionContext) (scope : VariableScope) (t : Token)
    (elementId : String) :
    spawnBoundaryTokens d (ctx.saveScope scope) t elementId =
      (spawnBoundaryTokens d ctx t elementId).saveScope scope := by
  unfold spawnBoundaryTokens
  generalize (d.findBoundariesFor elementId).filter _ = boundaries
  induction boundaries generalizing ctx with
  | nil => rfl
  | cons b boundaries ih =>
    exact ih ((ctx.createToken t.instanceId b.id .boundaryEvent t.scopeId none none
      (truthy t.subProcessInstanceId)).2.enqueuePending (ctx.createToken t.instanceId b.id
        .boundaryEvent t.scopeId none none (truthy t.subProcessInstanceId)).1)

theorem inst_spawnBoundaryTokens (ctx : ExecutionContext) (t : Token) (elementId : String) :
    (spawnBoundaryTokens d ctx t elementId).inst = ctx.inst := by
  unfold spawnBoundaryTokens
  generalize (d.findBoundariesFor elementId).filter _ = boundaries
  induction boundaries generalizing ctx with
  | nil => rfl
  | cons b boundaries ih =>
    exact ih ((ctx.createToken t.instanceId b.id .boundaryEvent t.scopeId none none
      (truthy t.subProcessInstanceId)).2.enqueuePending (ctx.createToken t.instanceId b.id
        .boundaryEvent t.scopeId none none (truthy t.subProcessInstanceId)).1)

/-- The end of `handleSubProcess`: a scope, and the first token in it. -/
theorem openScope_effects {t : Token} (ht : Ready A ctx t) {inst : ProcessInstance}
    (hi : ctx.inst = some inst) (scope : VariableScope) (event : ExecutionEvent)
    (hevent : event.isTokenWaiting = false) (startEventId : String) (tag : Option String) :
    Effects A ctx ((((ctx.saveScope scope).emit event).createToken inst.id startEventId
      .startEvent scope.id none none tag).2.enqueuePending (((ctx.saveScope scope).emit
        event).createToken inst.id startEventId .startEvent scope.id none none tag).1) := by
  have hemit : Effects A ctx (ctx.emit event) := .one (.emit event hevent)
  exact (hemit.tail (.createInScope t (hemit.ready ht).place (.inr (by
    show ctx.inst.map (·.id) = some inst.id
    rw [hi]
    rfl)) scope startEventId .startEvent none none tag)).tail (.enqueue mem_createToken)

theorem handleSubProcess_effects {t : Token} {e : BpmnElement} {isTransaction : Bool}
    {startEventId : String} (ht : Ready A ctx t)
    (h : handleSubProcess d ctx t e isTransaction startEventId = .ok ctx') :
    Effects A ctx ctx' := by
  unfold handleSubProcess at h
  obtain ⟨inst, hinst, h⟩ := Except.bind_eq_ok_iff.1 h
  have hi := requireInstance_eq hinst
  rw [← Except.ok.inj h]
  have hpark : Effects A ctx (suspendToken ctx.newId.2 t .external) :=
    (Effects.one .newId).tail (.park t _ nofun ((Effects.one .newId).ready ht).toVouches)
  cases isTransaction with
  | false => exact hpark.trans (openScope_effects (hpark.ready ht) hi _ _ rfl _ _)
  | true =>
    have hspawn := hpark.trans (spawnBoundaryTokens_effects (d := d) (hpark.ready ht) e.id)
    have hscope := spawnBoundaryTokens_saveScope (d := d) (suspendToken ctx.newId.2 t .external)
      { id := ctx.nextId, parentScopeId := some t.scopeId, vars := ∅ } t e.id
    have hsame := (inst_spawnBoundaryTokens (d := d) (suspendToken ctx.newId.2 t .external) t
      e.id).trans hi
    have hopen := hspawn.trans (openScope_effects (hspawn.ready ht) hsame
      { id := ctx.nextId, parentScopeId := some t.scopeId, vars := ∅ }
      (.subProcessStarted inst.id t.id e.id) rfl startEventId (some e.id))
    rw [← hscope] at hopen
    exact hopen

theorem checkSubProcessCompletion_effects {t : Token} {s : String} (ht : Ready A ctx t)
    (h : checkSubProcessCompletion d ctx s = .ok ctx') : Effects A ctx ctx' := by
  unfold checkSubProcessCompletion at h
  simp only at h
  split at h
  · exact Except.ok.inj h ▸ .refl ctx
  · split at h
    · exact Except.ok.inj h ▸ .refl ctx
    · rename_i outer houter
      obtain ⟨inst, -, h⟩ := Except.bind_eq_ok_iff.1 h
      obtain ⟨mid, hmid, h⟩ := Except.bind_eq_ok_iff.1 h
      obtain ⟨element, -, h⟩ := Except.bind_eq_ok_iff.1 h
      have hemit : Effects A ctx (mid.emit (.subProcessCompleted inst.id outer.id s)) :=
        (propagateInner_effects hmid).tail (.emit _ rfl)
      exact hemit.trans (advanceToken_effects (hemit.ready (ht.of_find houter)) h)

theorem fireCancelBoundary_effects {outer : Token} {s : String} (ht : Ready A ctx outer)
    (h : fireCancelBoundary d ctx outer s = .ok ctx') : Effects A ctx ctx' := by
  unfold fireCancelBoundary at h
  split at h
  · exact Except.ok.inj h ▸ .refl ctx
  · split at h
    · exact Except.ok.inj h ▸ .refl ctx
    · rename_i b _ _ w hw
      have hset := setStatus_effects .completed (ht.of_find hw)
      have hemit := hset.tail (.emit (.boundaryEventTriggered outer.instanceId w.id b.id true) rfl)
      have hnow := hemit.tail .now
      have hcancel := hnow.trans (cancelToken_effects (hnow.ready ht) (hemit.ready ht).present)
      exact hcancel.trans (moveTokenToFlows_effects (hcancel.ready (ht.of_find hw)) h)

theorem startHandler_effects (find : String → Option BpmnFlowElement) {instanceId : Nat}
    {source : Token} (tag : Option String) (records : List CompensationRecord)
    (a : ExecutionContext × List CompensationRecord) (ht : Ready A a.1 source)
    (hi : a.1.inst.map (·.id) = some instanceId) :
    Effects A a.1 (records.foldl (startHandler find instanceId source tag) a).1 := by
  induction records generalizing a with
  | nil => exact .refl _
  | cons r records ih =>
    rw [List.foldl_cons]
    cases hf : find r.handlerId with
    | none =>
      have hskip : startHandler find instanceId source tag a r = a := by
        simp only [startHandler, hf]
      rw [hskip]
      exact ih a ht hi
    | some e =>
      have hone : Effects A a.1 (startHandler find instanceId source tag a r).1 := by
        simp only [startHandler, hf]
        exact ((Effects.one (.createToken source ht.place (.inr hi) r.handlerId e.type none
          (some source.id) tag)).tail (.emit _ rfl)).tail (.enqueue mem_createToken)
      have hsame : (startHandler find instanceId source tag a r).1.inst = a.1.inst := by
        simp only [startHandler, hf]
        rfl
      exact hone.trans (ih _ (hone.ready ht) (by rw [hsame]; exact hi))

theorem foldl_cancelToken_inst (now : Time) (tokens : List Token) (ctx : ExecutionContext) :
    (tokens.foldl (fun ctx token => ctx.cancelToken token now) ctx).inst = ctx.inst := by
  induction tokens generalizing ctx with
  | nil => rfl
  | cons t tokens ih => exact ih (ctx.cancelToken t now)

theorem cancelTokens_inst (tokens : List Token) : (ctx.cancelTokens tokens).inst = ctx.inst :=
  foldl_cancelToken_inst _ tokens ctx.now.2

theorem handleTransactionCancel_effects {t : Token} (ht : Ready A ctx t)
    (h : handleTransactionCancel d ctx t = .ok ctx') : Effects A ctx ctx' := by
  unfold handleTransactionCancel at h
  split at h
  · exact Except.ok.inj h ▸ .refl ctx
  · rename_i s _
    obtain ⟨inst, hinst, h⟩ := Except.bind_eq_ok_iff.1 h
    have hi := requireInstance_eq hinst
    simp only [consumeAllCompensationRecords] at h
    generalize hclear : ctx.cancelTokens _ = cleared at h
    have hcancel : Effects A ctx cleared := hclear ▸ cancelTokens_filter_effects _ ht
    have hsame : cleared.inst = some inst := by rw [← hclear, cancelTokens_inst, hi]
    have hrecords : Effects A cleared { cleared with compensationList := [] } :=
      .one (.records [] (by simp))
    have hstart := hrecords.trans (startHandler_effects (findElementInTree d.elements) (some s)
      (latestFirst cleared.compensationList) ({ cleared with compensationList := [] }, [])
      (hrecords.ready (hcancel.ready ht))
      (show cleared.inst.map (·.id) = some inst.id by rw [hsame]; rfl))
    split at h
    · rename_i outer _ houter
      have hemit := fun event he => hstart.tail (.emit event he)
      refine (hcancel.trans (hemit _ rfl)).trans (fireCancelBoundary_effects ?_ h)
      exact (hemit _ rfl).ready ((hcancel.ready ht).of_find houter)
    · exact Except.ok.inj h ▸ hcancel.trans (hstart.tail (.emit _ rfl))

theorem handleEndEvent_effects {t : Token} {e : EventElement} (ht : Ready A ctx t)
    (h : handleEndEvent d ctx t e = .ok ctx') : Effects A ctx ctx' := by
  unfold handleEndEvent at h
  have hset := setStatus_effects .completed ht
  have hready := hset.ready ht
  simp only at h
  split at h
  · exact hset.trans (handleTransactionCancel_effects hready h)
  · split at h
    · refine (hset.trans ?_).trans (completeInstance_effects h)
      exact foldl_cancel_effects
        (fun c t ht => (Effects.one .now).trans
          (cancelToken_effects ((Effects.one .now).ready ht) ht.present))
        fun x hx => hready.of_mem (List.mem_filter.1 hx).1
    · split at h
      · exact hset.trans (checkSubProcessCompletion_effects hready h)
      · split at h
        · exact hset.trans (completeInstance_effects h)
        · exact Except.ok.inj h ▸ hset

/-- The records that are left were there before. -/
theorem consumeRecords_effects (target : Option String) :
    Effects A ctx (consumeRecords ctx target).2 := by
  unfold consumeRecords
  cases target with
  | none => exact .one (.records [] (by simp))
  | some activity => exact .one (.records _ fun r hr => .inl (List.mem_filter.1 hr).1)

theorem inst_consumeRecords (target : Option String) :
    (consumeRecords ctx target).2.inst = ctx.inst := by
  unfold consumeRecords
  cases target <;> rfl

theorem handleCompensationThrow_effects {t : Token} {e : EventElement} (ht : Ready A ctx t)
    (h : handleCompensationThrow d ctx t e = .ok ctx') : Effects A ctx ctx' := by
  unfold handleCompensationThrow at h
  obtain ⟨inst, hinst, h⟩ := Except.bind_eq_ok_iff.1 h
  have hi := requireInstance_eq hinst
  simp only at h
  generalize htarget : truthy e.eventDefinition.compensationActivityRef = target at h
  have hconsume : Effects A ctx (consumeRecords ctx target).2 := consumeRecords_effects target
  have hsame : (consumeRecords ctx target).2.inst = some inst := by rw [inst_consumeRecords, hi]
  split at h
  · have hemit := hconsume.tail (.emit (.compensationTriggered inst.id t.id e.id target []) rfl)
    exact hemit.trans (advanceToken_effects (hemit.ready ht) h)
  · have hpark := hconsume.tail (.park t { type := .external } nofun (hconsume.ready ht).toVouches)
    have hstart := startHandler_effects (fun handlerId => d.elements.find? (·.id = handlerId)) none
      (consumeRecords ctx target).1 (suspendToken (consumeRecords ctx target).2 t .external, [])
      (hpark.ready ht) (show (consumeRecords ctx target).2.inst.map (·.id) =
        some inst.id by rw [hsame]; rfl)
    exact Except.ok.inj h ▸ (hpark.trans hstart).tail (.emit _ rfl)

theorem handleIntermediateThrowEvent_effects {t : Token} {e : EventElement}
    (ht : Ready A ctx t) (h : handleIntermediateThrowEvent d ctx t e = .ok ctx') :
    Effects A ctx ctx' := by
  unfold handleIntermediateThrowEvent at h
  split at h
  · exact handleCompensationThrow_effects ht h
  · exact advanceToken_effects ht h

/-! ## Gateways -/

theorem handleExclusiveGateway_effects {t : Token} {g : GatewayElement} (ht : Ready A ctx t)
    (h : handleExclusiveGateway d ctx t g = .ok ctx') : Effects A ctx ctx' := by
  unfold handleExclusiveGateway at h
  obtain ⟨scope, -, h⟩ := Except.bind_eq_ok_iff.1 h
  obtain ⟨flow, -, h⟩ := Except.bind_eq_ok_iff.1 h
  have hset := setStatus_effects .completed ht
  exact hset.trans (moveTokenToFlow_effects (hset.ready ht) h)

/-- A join state is filed that belongs to the instance, or replaces one of its own key. -/
theorem saveJoinState_effects {s : GatewayJoinState}
    (hs : (∃ s₀ ∈ ctx.joinStateMap.values, s₀.key = s.key) ∨ ctx.inst.map (·.id) = some s.key.2) :
    Effects A ctx (ctx.saveJoinState s) := by
  refine .one (.joins _ fun x hx => ?_)
  rcases KeyedMap.mem_set.1 hx with rfl | ⟨hx, -⟩
  · exact hs
  · exact .inl ⟨x, hx, rfl⟩

theorem deleteJoinState_effects (gatewayId : String) :
    Effects A ctx (ctx.deleteJoinState gatewayId) :=
  .one (.joins _ fun x hx => .inl ⟨x, (KeyedMap.mem_erase.1 hx).1, rfl⟩)

theorem parallelJoinStart_effects (A : Assumed) {gatewayId : String} {incoming : List SequenceFlow}
    {state : ParallelGatewayJoinState}
    (h : parallelJoinStart ctx gatewayId incoming = .ok (state, ctx')) :
    Effects A ctx ctx' ∧ ((∃ s₀ ∈ ctx'.joinStateMap.values,
      s₀.key = (GatewayJoinState.parallel state).key) ∨
        ctx'.inst.map (·.id) = some state.instanceId) := by
  unfold parallelJoinStart at h
  split at h
  · rename_i stored hstored
    cases h
    exact ⟨.refl ctx, .inl ⟨_, KeyedMap.mem_of_get? hstored, rfl⟩⟩
  · cases h
  · obtain ⟨inst, hinst, h⟩ := Except.bind_eq_ok_iff.1 h
    cases h
    refine ⟨.one .newId, .inr ?_⟩
    show ctx.inst.map (·.id) = some inst.id
    rw [requireInstance_eq hinst]
    rfl

theorem handleParallelGateway_effects {t : Token} {g : GatewayElement} (ht : Ready A ctx t)
    (h : handleParallelGateway d ctx t g = .ok ctx') : Effects A ctx ctx' := by
  unfold handleParallelGateway at h
  simp only at h
  split at h
  · obtain ⟨⟨state, mid⟩, hmid, h⟩ := Except.bind_eq_ok_iff.1 h
    obtain ⟨hstart, hkey⟩ := parallelJoinStart_effects A hmid
    have hset := hstart.trans (setStatus_effects .completed (hstart.ready ht))
    simp only at h
    split at h
    · have hdelete := hset.trans (deleteJoinState_effects g.id)
      exact hdelete.trans (moveTokenToFlows_effects (hdelete.ready ht) h)
    · exact Except.ok.inj h ▸ hset.trans (saveJoinState_effects hkey)
  · obtain ⟨flows, -, h⟩ := Except.bind_eq_ok_iff.1 h
    have hset := setStatus_effects .completed ht
    exact hset.trans (moveTokenToFlows_effects (hset.ready ht) h)

theorem registerInclusiveJoin_effects {flows : List String}
    (h : registerInclusiveJoin d ctx flows = .ok ctx') : Effects A ctx ctx' := by
  unfold registerInclusiveJoin at h
  split at h
  · exact Except.ok.inj h ▸ .refl ctx
  · obtain ⟨inst, hinst, h⟩ := Except.bind_eq_ok_iff.1 h
    rw [← Except.ok.inj h]
    refine (Effects.one .newId).trans (saveJoinState_effects (.inr ?_))
    show ctx.inst.map (·.id) = some inst.id
    rw [requireInstance_eq hinst]
    rfl

theorem handleInclusiveGateway_effects {t : Token} {g : GatewayElement} (ht : Ready A ctx t)
    (h : handleInclusiveGateway d ctx t g = .ok ctx') : Effects A ctx ctx' := by
  unfold handleInclusiveGateway at h
  simp only at h
  split at h
  · split at h
    · cases h
    · cases h
    · rename_i state hstate
      have hset := setStatus_effects .completed ht
      split at h
      · have hdelete := hset.trans (deleteJoinState_effects g.id)
        exact hdelete.trans (moveTokenToFlows_effects (hdelete.ready ht) h)
      · exact Except.ok.inj h ▸ hset.trans
          (saveJoinState_effects (.inl ⟨_, KeyedMap.mem_of_get? hstate, rfl⟩))
  · obtain ⟨scope, -, h⟩ := Except.bind_eq_ok_iff.1 h
    obtain ⟨flows, -, h⟩ := Except.bind_eq_ok_iff.1 h
    obtain ⟨mid, hmid, h⟩ := Except.bind_eq_ok_iff.1 h
    have hregister : Effects A ctx mid := registerInclusiveJoin_effects hmid
    have hset := hregister.trans (setStatus_effects .completed (hregister.ready ht))
    exact hset.trans (moveTokenToFlows_effects (hset.ready ht) h)

theorem spawnBranch_effects {t : Token} {flow : SequenceFlow} (ht : Ready A ctx t)
    (h : spawnBranch d t ctx flow = .ok ctx') : Effects A ctx ctx' := by
  unfold spawnBranch at h
  obtain ⟨element, -, h⟩ := Except.bind_eq_ok_iff.1 h
  rw [← Except.ok.inj h]
  exact ((Effects.one (.createToken t ht.place (.inl rfl) element.id element.type (some flow.id)
    (some t.id) none)).tail (.emit _ rfl)).tail (.enqueue mem_createToken)

theorem handleEventBasedGateway_effects {t : Token} {g : GatewayElement} (ht : Ready A ctx t)
    (h : handleEventBasedGateway d ctx t g = .ok ctx') : Effects A ctx ctx' := by
  unfold handleEventBasedGateway at h
  obtain ⟨_, -, h⟩ := Except.bind_eq_ok_iff.1 h
  obtain ⟨mid, hmid, h⟩ := Except.bind_eq_ok_iff.1 h
  have hset := setStatus_effects .completed ht
  rw [← Except.ok.inj h]
  exact (hset.trans (Effects.foldlM (fun _ _ _ ht h => spawnBranch_effects ht h) (hset.ready ht)
    hmid)).tail (.emit _ rfl)

/-! ## Tasks -/

theorem spawnMultiInstanceChild_effects {t : Token} (ht : Ready A ctx t) (e : BpmnFlowElement)
    (lc : MultiInstanceLoopCharacteristics) (item : Value) :
    Effects A ctx (spawnMultiInstanceChild ctx t e lc item) :=
  ((Effects.one .newId).tail (.createInScope t ((Effects.one .newId).ready ht).place (.inl rfl) _
    e.id e.type none (some t.id) none)).tail (.enqueue mem_createToken)

theorem foldl_spawnMultiInstanceChild_effects {t : Token} (ht : Ready A ctx t)
    (e : BpmnFlowElement) (lc : MultiInstanceLoopCharacteristics) (items : List Value) :
    Effects A ctx
      (items.foldl (fun ctx item => spawnMultiInstanceChild ctx t e lc item) ctx) := by
  induction items generalizing ctx with
  | nil => exact .refl ctx
  | cons item items ih =>
    have hone := spawnMultiInstanceChild_effects ht e lc item
    exact hone.trans (ih (hone.ready ht))

theorem handleMultiInstanceStart_effects {t : Token} {e : BpmnFlowElement}
    {lc : MultiInstanceLoopCharacteristics} (ht : Ready A ctx t)
    (h : handleMultiInstanceStart d ctx t e lc = .ok ctx') : Effects A ctx ctx' := by
  unfold handleMultiInstanceStart at h
  obtain ⟨scope, -, h⟩ := Except.bind_eq_ok_iff.1 h
  obtain ⟨collection, -, h⟩ := Except.bind_eq_ok_iff.1 h
  simp only at h
  split at h
  · obtain ⟨inst, -, h⟩ := Except.bind_eq_ok_iff.1 h
    have hemit := (setStatus_effects .completed ht).tail
      (.emit (.multiInstanceCompleted inst.id t.id e.id 0) rfl)
    exact hemit.trans (advanceToken_effects (hemit.ready ht) h)
  · rename_i item items
    obtain ⟨inst, -, h⟩ := Except.bind_eq_ok_iff.1 h
    have hnow : Effects A ctx ctx.now.2 := .one .now
    have hupdate := Effects.one (.updateToken _
      (ht.stamp .waiting (some { type := .external }) t.loopState))
    have hwait := hnow.trans hupdate
    split at h
    · have hstamp := ht.stamp .waiting (some { type := .external })
        (some { collection := item :: items, index := 0, iterationsRan := 0 })
      have hloop := (hwait.tail (.updateToken _
        (hupdate.ready ⟨(hnow.ready ht).toGrants, hstamp⟩).toVouches)).tail
          (.emit (.multiInstanceStarted inst.id t.id e.id (items.length + 1) lc.isSequential) rfl)
      exact Except.ok.inj h ▸ hloop.trans
        (spawnMultiInstanceChild_effects (hloop.ready ht) e lc item)
    · obtain ⟨mid, hmid, h⟩ := Except.bind_eq_ok_iff.1 h
      have hinit := (hwait.tail (.emit (.multiInstanceStarted inst.id t.id e.id
        (items.length + 1) lc.isSequential) rfl)).trans (initOutputCollection_effects hmid)
      exact Except.ok.inj h ▸
        hinit.trans (foldl_spawnMultiInstanceChild_effects (hinit.ready ht) e lc _)
  · cases h

theorem completeMultiInstance_effects {t : Token} {e : BpmnFlowElement} {n : Nat}
    (ht : Ready A ctx t) (h : completeMultiInstance d ctx t e n = .ok ctx') :
    Effects A ctx ctx' := by
  unfold completeMultiInstance at h
  obtain ⟨inst, -, h⟩ := Except.bind_eq_ok_iff.1 h
  have hemit := (setStatus_effects .completed ht).tail
    (.emit (.multiInstanceCompleted inst.id t.id e.id n) rfl)
  have hcancel := hemit.trans (cancelTokens_filter_effects (fun x => x.status = .waiting ∧
    x.elementType = .boundaryEvent ∧ x.hostTaskId = some e.id) (hemit.ready ht))
  exact hcancel.trans (moveTokenToFlows_effects (hcancel.ready ht) h)

theorem handleSequentialChildCompletion_effects {c p : Token} {e : BpmnFlowElement}
    {lc : MultiInstanceLoopCharacteristics} (hp : Ready A ctx p)
    (h : handleSequentialChildCompletion d ctx c p e lc = .ok ctx') : Effects A ctx ctx' := by
  unfold handleSequentialChildCompletion at h
  split at h
  · exact Except.ok.inj h ▸ .refl ctx
  · rename_i loopState _
    obtain ⟨holds, -, h⟩ := Except.bind_eq_ok_iff.1 h
    split at h
    · exact completeMultiInstance_effects hp h
    · split at h
      · exact completeMultiInstance_effects hp h
      · rename_i item _
        have hupdate := Effects.one (.updateToken { p with
          loopState := some { loopState with
            index := loopState.index + 1, iterationsRan := loopState.iterationsRan + 1 } }
          ⟨hp.place, hp.times⟩)
        exact Except.ok.inj h ▸
          hupdate.trans (spawnMultiInstanceChild_effects (hupdate.ready hp) e lc item)

theorem handleParallelChildCompletion_effects {c p : Token} {e : BpmnFlowElement}
    {lc : MultiInstanceLoopCharacteristics} (hp : Ready A ctx p)
    (h : handleParallelChildCompletion d ctx c p e lc = .ok ctx') : Effects A ctx ctx' := by
  unfold handleParallelChildCompletion at h
  obtain ⟨holds, -, h⟩ := Except.bind_eq_ok_iff.1 h
  simp only at h
  split at h
  · rw [List.filter_filter] at h
    have hcancel := cancelTokens_filter_effects (fun x => (decide (x.status = .waiting) &&
      decide (x.parentTokenId = some p.id))) hp
    exact hcancel.trans (completeMultiInstance_effects (hcancel.ready hp) h)
  · split at h
    · exact completeMultiInstance_effects hp h
    · exact Except.ok.inj h ▸ .refl ctx

theorem handleMultiInstanceChildCompletion_effects {c : Token} {e : BpmnFlowElement}
    {lc : MultiInstanceLoopCharacteristics} (hc : Ready A ctx c)
    (h : handleMultiInstanceChildCompletion d ctx c e lc = .ok ctx') : Effects A ctx ctx' := by
  unfold handleMultiInstanceChildCompletion at h
  split at h
  · exact Except.ok.inj h ▸ .refl ctx
  · rename_i p hp
    obtain ⟨mid, hmid, h⟩ := Except.bind_eq_ok_iff.1 h
    obtain ⟨parent, -, hget⟩ := Option.bind_eq_some_iff.1 hp
    have hset := (setStatus_effects .completed hc).trans (collectOutput_effects hmid)
    have hpReady := hset.ready (hc.of_get? hget)
    split at h
    · exact hset.trans (handleSequentialChildCompletion_effects hpReady h)
    · exact hset.trans (handleParallelChildCompletion_effects hpReady h)

theorem handleTask_effects {t : Token} {e : BpmnFlowElement}
    {otherwise : Except EngineError ExecutionContext} (ht : Ready A ctx t)
    (hother : ¬ t.Wraps e → otherwise = .ok ctx' → Effects A ctx ctx')
    (h : handleTask d ctx t e otherwise = .ok ctx') : Effects A ctx ctx' := by
  unfold handleTask at h
  split at h
  · exact handleMultiInstanceStart_effects ht h
  · rename_i hnot
    refine hother (fun hw => ?_) h
    obtain ⟨lc, hlc⟩ := Option.isSome_iff_exists.1 hw.1
    exact hnot lc hlc hw.2

/-- The token waits for its work, and boundary tokens are made beside it. -/
theorem armTask_effects {t : Token} (type : WaitConditionType) (hw : type = .userTask → A.user)
    (elementId : String) (ht : Ready A ctx t) :
    Effects A ctx (spawnBoundaryTokens d (suspendToken ctx t type) t elementId) := by
  have hpark : Effects A ctx (suspendToken ctx t type) := suspend_effects hw ht
  exact hpark.trans (spawnBoundaryTokens_effects (hpark.ready ht) elementId)

/-- The token comes to a user task, not as the parent of the children of a multi-instance
activity. -/
def Token.AtUserTask (d : ProcessDefinition) (t : Token) : Prop :=
  ∃ e, d.getElement t.elementId = .ok (.userTask e) ∧ ¬ t.Wraps (.userTask e)

theorem processToken_effects {t : Token} (huser : t.AtUserTask d → A.user) (ht : Ready A ctx t)
    (h : processToken d ctx t = .ok ctx') : Effects A ctx ctx' := by
  unfold processToken at h
  obtain ⟨element, helement, h⟩ := Except.bind_eq_ok_iff.1 h
  cases element with
  | startEvent e => exact advanceToken_effects ht h
  | endEvent e => exact handleEndEvent_effects ht h
  | intermediateCatchEvent e => exact handleIntermediateCatchEvent_effects ht h
  | intermediateThrowEvent e => exact handleIntermediateThrowEvent_effects ht h
  | boundaryEvent e => exact handleBoundaryEventWait_effects ht h
  | serviceTask e =>
    refine handleTask_effects ht (fun _ h => ?_) h
    obtain ⟨inst, -, h⟩ := Except.bind_eq_ok_iff.1 h
    have hemit : Effects A ctx (ctx.emit (.serviceTaskStarted inst.id t.id e.id
        (e.taskType.getD "unknown"))) := .one (.emit _ rfl)
    exact Except.ok.inj h ▸ hemit.trans
      (armTask_effects .external nofun e.id (hemit.ready ht))
  | userTask e =>
    exact handleTask_effects ht (fun hnot h => Except.ok.inj h ▸
      armTask_effects .userTask (fun _ => huser ⟨e, helement, hnot⟩) e.id ht) h
  | scriptTask e =>
    exact handleTask_effects ht (fun _ h => Except.ok.inj h ▸
      suspend_effects (fun hw => by cases hw) ht) h
  | manualTask e =>
    refine handleTask_effects ht (fun _ h => ?_) h
    split at h
    · exact handleMultiInstanceChildCompletion_effects ht h
    · exact advanceToken_effects ht h
  | callActivity e => cases h
  | gateway g =>
    simp only at h
    split at h
    · exact handleExclusiveGateway_effects ht h
    · exact handleParallelGateway_effects ht h
    · exact handleInclusiveGateway_effects ht h
    · exact handleEventBasedGateway_effects ht h
  | subProcess e isTransaction elements flows startEventId => exact handleSubProcess_effects ht h

/-! ## The run loop -/

/-- What is known of the context and of the tokens in its queue. -/
structure Queued (A : Assumed) (ctx : ExecutionContext) : Prop extends A.Grants ctx where
  queue : ∀ t ∈ ctx.pendingQueue, A.Vouches ctx t

theorem Queued.ready {t : Token} (h : Queued A ctx) (ht : t ∈ ctx.pendingQueue) :
    Ready A ctx t :=
  ⟨h.toGrants, h.queue t ht⟩

/-- An effect adds to the queue only what is in the map. -/
theorem Effect.queue (e : Effect A ctx ctx') {t : Token} (ht : t ∈ ctx'.pendingQueue) :
    t ∈ ctx.pendingQueue ∨ t ∈ ctx'.tokenMap.values := by
  cases e with
  | now | newId | emit _ _ | setInstance _ _ | updateToken _ _ | park _ _ _ _
  | createToken _ _ _ _ _ _ _ _ | createInScope _ _ _ _ _ _ _ _ _ | merge _ _ | joins _ _
  | records _ _ => exact .inl ht
  | enqueue hx =>
    refine (List.mem_append.1 ht).imp_right fun ht => ?_
    rw [List.mem_singleton.1 ht]
    exact hx
  | dequeue h => exact .inl (h ▸ List.mem_cons_of_mem _ ht)

theorem Effects.queued (h : Effects A ctx ctx') (hq : Queued A ctx) : Queued A ctx' := by
  refine ⟨h.grants hq.toGrants, ?_⟩
  induction h with
  | refl => exact hq.queue
  | tail h e ih =>
    intro t ht
    have hmid := h.grants hq.toGrants
    have hone := Effects.one e
    rcases e.queue ht with ht | ht
    · exact (hone.ready ⟨hmid, ih t ht⟩).toVouches
    · exact ((hone.grants hmid).of_mem ht).toVouches

theorem runLoop_effects {fuel : Nat} (huser : A.user) (hq : Queued A ctx)
    (h : runLoop d fuel ctx = .ok ctx') : Effects A ctx ctx' := by
  cases hpending : ctx.pendingQueue with
  | nil =>
    rw [runLoop_nil d hpending, Except.ok.injEq] at h
    exact h ▸ .refl ctx
  | cons t rest =>
    induction fuel generalizing ctx t rest with
    | zero => simp [runLoop_zero d hpending] at h
    | succ fuel ih =>
      rw [runLoop_cons d hpending] at h
      obtain ⟨mid, hmid, h⟩ := Except.bind_eq_ok_iff.1 h
      have hpop : Effects A ctx { ctx with pendingQueue := rest } := .one (.dequeue hpending)
      have hready := hpop.ready (hq.ready (hpending ▸ List.mem_cons_self))
      have hturn := hpop.trans (processToken_effects (fun _ => huser) hready hmid)
      cases hpending' : mid.pendingQueue with
      | nil =>
        rw [runLoop_nil d hpending', Except.ok.injEq] at h
        exact h ▸ hturn
      | cons t' rest' => exact hturn.trans (ih (hturn.queued hq) h t' rest' hpending')

/-! ## Command handlers -/

theorem recordCompensationIfNeeded_effects {t : Token} {e : BpmnFlowElement}
    (h : recordCompensationIfNeeded d ctx t e = .ok ctx') : Effects A ctx ctx' := by
  unfold recordCompensationIfNeeded at h
  split at h
  · exact Except.ok.inj h ▸ .refl ctx
  · split at h
    · exact Except.ok.inj h ▸ .refl ctx
    · obtain ⟨inst, hinst, h⟩ := Except.bind_eq_ok_iff.1 h
      rw [← Except.ok.inj h]
      refine (Effects.one .now).tail (.records _ fun r hr => ?_)
      refine (List.mem_append.1 hr).imp_right fun hr => ?_
      rw [List.mem_singleton.1 hr]
      show ctx.inst.map (·.id) = some inst.id
      rw [requireInstance_eq hinst]
      rfl

theorem handleCompensationHandlerCompletion_effects {t throwToken : Token} (ht : Ready A ctx t)
    (hthrow : Ready A ctx throwToken)
    (h : handleCompensationHandlerCompletion d ctx t throwToken = .ok ctx') :
    Effects A ctx ctx' := by
  unfold handleCompensationHandlerCompletion at h
  have hset := setStatus_effects .completed ht
  simp only at h
  split at h
  · obtain ⟨inst, -, h⟩ := Except.bind_eq_ok_iff.1 h
    obtain ⟨element, -, h⟩ := Except.bind_eq_ok_iff.1 h
    have hemit := hset.tail (.emit (.compensationCompleted inst.id throwToken.id
      throwToken.elementId) rfl)
    split at h
    · split at h
      · rename_i outer houter
        exact hemit.trans (fireCancelBoundary_effects ((hemit.ready ht).of_find houter) h)
      · exact Except.ok.inj h ▸ hemit
    · exact hemit.trans (advanceToken_effects (hemit.ready hthrow) h)
  · exact Except.ok.inj h ▸ hset

theorem requireToken_eq {id : Nat} {t : Token} (h : ctx.requireToken id = .ok t) :
    ctx.tokenMap.get? id = some t := by
  unfold requireToken at h
  split at h
  · rename_i hget
    rw [← Except.ok.inj h, hget]
  · cases h

theorem requireWaiting_eq {action : Nat → String} {id : Nat} {instanceId : Option Nat} {t : Token}
    (h : requireWaiting ctx action id instanceId = .ok t) : ctx.tokenMap.get? id = some t := by
  unfold requireWaiting at h
  obtain ⟨token, htoken, h⟩ := Except.bind_eq_ok_iff.1 h
  split at h
  · cases h
  · exact Except.ok.inj h ▸ requireToken_eq htoken

theorem autoResume_effects (h : autoResume ctx = .ok ctx') : Effects A ctx ctx' := by
  unfold autoResume at h
  obtain ⟨inst, hinst, h⟩ := Except.bind_eq_ok_iff.1 h
  split at h
  · exact Except.ok.inj h ▸
      (Effects.one (.setInstance (j := { inst with status := .active }) (requireInstance_eq hinst)
        rfl)).tail (.emit _ rfl)
  · exact Except.ok.inj h ▸ .refl ctx

theorem emitChildCompleted_effects {t : Token} {e : BpmnFlowElement}
    (h : emitChildCompleted ctx t e = .ok ctx') : Effects A ctx ctx' := by
  unfold emitChildCompleted at h
  split at h
  · obtain ⟨inst, -, h⟩ := Except.bind_eq_ok_iff.1 h
    exact Except.ok.inj h ▸ .one (.emit _ rfl)
  · exact Except.ok.inj h ▸ .refl ctx

/-- The throw token of a compensation handler is in the map. -/
theorem mem_of_completionRole {t throwToken : Token} {e : BpmnFlowElement}
    (h : completionRole ctx t e = .handler throwToken) : throwToken ∈ ctx.tokenMap.values := by
  unfold completionRole at h
  split at h
  · cases h
  · rename_i parent hparent
    split at h
    · cases h
    · split at h
      · cases h
        obtain ⟨id, -, hget⟩ := Option.bind_eq_some_iff.1 hparent
        exact KeyedMap.mem_of_get? hget
      · cases h

theorem handleCompleteTask_effects {id : Nat} {vars : Option Variables}
    (hn : A.Grants ctx) (h : handleCompleteTask d ctx id vars = .ok ctx') :
    Effects A ctx ctx' := by
  unfold handleCompleteTask at h
  obtain ⟨token, htoken, h⟩ := Except.bind_eq_ok_iff.1 h
  obtain ⟨resumed, hresumed, h⟩ := Except.bind_eq_ok_iff.1 h
  obtain ⟨merged, hmerged, h⟩ := Except.bind_eq_ok_iff.1 h
  obtain ⟨element, -, h⟩ := Except.bind_eq_ok_iff.1 h
  have hbefore : Effects A ctx merged :=
    (autoResume_effects hresumed).trans (mergeOutput_effects hmerged)
  have ht := hbefore.ready
    (hn.of_mem (KeyedMap.mem_of_get? (requireWaiting_eq htoken)))
  split at h
  · obtain ⟨mid, hmid, h⟩ := Except.bind_eq_ok_iff.1 h
    have hemit := hbefore.trans (emitChildCompleted_effects hmid)
    exact hemit.trans (handleMultiInstanceChildCompletion_effects
      ((emitChildCompleted_effects hmid).ready ht) h)
  · rename_i hrole
    exact hbefore.trans (handleCompensationHandlerCompletion_effects ht
      (ht.of_mem (mem_of_completionRole hrole)) h)
  · obtain ⟨inst, -, h⟩ := Except.bind_eq_ok_iff.1 h
    obtain ⟨recorded, hrecorded, h⟩ := Except.bind_eq_ok_iff.1 h
    have hemit : Effects A merged (merged.emit (.serviceTaskCompleted inst.id id token.elementId
      0)) := .one (.emit _ rfl)
    have hclear := hemit.trans (cancelTokens_filter_effects (fun x => x.status = .waiting ∧
      x.elementType = .boundaryEvent ∧ x.hostTaskId = some token.elementId) (hemit.ready ht))
    have hrecord := hclear.trans (recordCompensationIfNeeded_effects hrecorded)
    exact hbefore.trans (hrecord.trans (advanceToken_effects (hrecord.ready ht) h))

theorem handleFailServiceTask_effects {id : Nat} {code message : String}
    (hn : A.Grants ctx) (h : handleFailServiceTask d ctx id code message = .ok ctx') :
    Effects A ctx ctx' := by
  unfold handleFailServiceTask at h
  obtain ⟨token, htoken, h⟩ := Except.bind_eq_ok_iff.1 h
  obtain ⟨inst, hinst, h⟩ := Except.bind_eq_ok_iff.1 h
  have ht := hn.of_mem (KeyedMap.mem_of_get? (requireWaiting_eq htoken))
  have hfailed : Effects A ctx (ctx.emit (.serviceTaskFailed inst.id token.id token.elementId
    message 1)) := .one (.emit _ rfl)
  simp only at h
  split at h
  · rename_i b _
    have hnow := hfailed.tail .now
    have hcancel := hnow.trans (cancelToken_effects (hnow.ready ht) (hfailed.ready ht).present)
    have hclear := hcancel.trans (cancelTokens_filter_effects (fun x =>
      some x.id ≠ none ∧ x.status = .waiting ∧
        (x.elementId = token.elementId ∨ x.hostTaskId = some token.elementId)) (hcancel.ready ht))
    have hemit := (hclear.tail (.emit (.errorThrown inst.id token.id code true) rfl)).tail
      (.emit (.boundaryEventTriggered inst.id token.id b.id b.cancelActivity) rfl)
    exact hemit.trans (moveTokenToFlows_effects (hemit.ready ht) h)
  · exact Except.ok.inj h ▸ ((hfailed.tail (.setInstance (j := { inst with
      status := .suspended
      errorInfo := some
        { code, message, tokenId := some token.id, elementId := some token.elementId } })
      (requireInstance_eq hinst) rfl)).tail (.emit _ rfl)).tail (.emit _ rfl)

theorem handleFireTimer_effects {id : Nat} (hn : A.Grants ctx)
    (h : handleFireTimer d ctx id = .ok ctx') : Effects A ctx ctx' := by
  unfold handleFireTimer at h
  obtain ⟨token, htoken, h⟩ := Except.bind_eq_ok_iff.1 h
  have ht := hn.of_mem (KeyedMap.mem_of_get? (requireWaiting_eq htoken))
  split at h
  · obtain ⟨element, -, h⟩ := Except.bind_eq_ok_iff.1 h
    have hset := setStatus_effects .completed ht
    cases element with
    | boundaryEvent b =>
      simp only at h
      split at h
      · have hclear := hset.trans (cancelTokens_filter_effects (fun x => some x.id ≠ some id ∧
          x.status = .waiting ∧ (x.elementId = b.attachedToRef ∨
            x.hostTaskId = some b.attachedToRef)) (hset.ready ht))
        exact hclear.trans (moveTokenToFlows_effects (hclear.ready ht) h)
      · exact hset.trans (moveTokenToFlows_effects (hset.ready ht) h)
    | _ => exact hset.trans (moveTokenToFlows_effects (hset.ready ht) h)
  · have hclear := cancelEbgSiblings_effects (w := token) ht
    exact hclear.trans (handleCompleteTask_effects (hclear.grants hn) h)

theorem resumeTarget_effects {vars : Option Variables} {t : Token}
    (ht : Ready A ctx t) (h : resumeTarget d vars ctx t = .ok ctx') :
    Effects A ctx ctx' := by
  unfold resumeTarget at h
  obtain ⟨current, -, h⟩ := Except.bind_eq_ok_iff.1 h
  split at h
  · exact Except.ok.inj h ▸ .refl ctx
  · obtain ⟨mid, hmid, h⟩ := Except.bind_eq_ok_iff.1 h
    have hmerge : Effects A ctx mid := mergeOutput_effects hmid
    have hset := hmerge.trans (setStatus_effects .completed (hmerge.ready ht))
    have hclear := hset.trans (cancelEbgSiblings_effects (w := t) (hset.ready ht))
    exact hclear.trans (advanceTokenFlows_effects (hclear.ready ht) h)

theorem foldlM_resumeTarget_effects {vars : Option Variables} {targets : List Token}
    (ht : ∀ t ∈ targets, Ready A ctx t)
    (h : targets.foldlM (resumeTarget d vars) ctx = .ok ctx') : Effects A ctx ctx' := by
  induction targets generalizing ctx with
  | nil =>
    rw [List.foldlM_nil, Except.pure_eq_ok_iff] at h
    exact h ▸ .refl ctx
  | cons t targets ih =>
    obtain ⟨mid, hmid, h⟩ := Except.foldlM_cons_eq_ok_iff.1 h
    have hone := resumeTarget_effects (ht t List.mem_cons_self) hmid
    exact hone.trans (ih (fun x hx => hone.ready (ht x (List.mem_cons_of_mem t hx))) h)

theorem resumeTargets_effects {isTarget : Token → Bool} {vars : Option Variables}
    (hn : A.Grants ctx) (h : resumeTargets d ctx isTarget vars = .ok ctx') :
    Effects A ctx ctx' :=
  foldlM_resumeTarget_effects
    (fun _ hx => hn.of_mem (List.mem_filter.1 hx).1) h

theorem handleSuspendInstance_effects (h : handleSuspendInstance ctx = .ok ctx') :
    Effects A ctx ctx' := by
  unfold handleSuspendInstance at h
  obtain ⟨inst, hinst, h⟩ := Except.bind_eq_ok_iff.1 h
  split at h
  · cases h
  · exact Except.ok.inj h ▸ (Effects.one (.setInstance (j := { inst with status := .suspended })
      (requireInstance_eq hinst) rfl)).tail (.emit _ rfl)

theorem handleResumeInstance_effects (h : handleResumeInstance ctx = .ok ctx') :
    Effects A ctx ctx' := by
  unfold handleResumeInstance at h
  obtain ⟨inst, hinst, h⟩ := Except.bind_eq_ok_iff.1 h
  split at h
  · cases h
  · exact Except.ok.inj h ▸ (Effects.one (.setInstance (j := { inst with status := .active })
      (requireInstance_eq hinst) rfl)).tail (.emit _ rfl)

theorem handleCancelInstance_effects (hn : A.Grants ctx)
    (h : handleCancelInstance ctx = .ok ctx') : Effects A ctx ctx' := by
  unfold handleCancelInstance at h
  obtain ⟨inst, hinst, h⟩ := Except.bind_eq_ok_iff.1 h
  have hcancel : Effects A ctx (ctx.cancelTokens (ctx.getAllTokens.filter Token.live)) :=
    cancelTokens_effects fun x hx => hn.of_mem (List.mem_filter.1 hx).1
  exact Except.ok.inj h ▸ (hcancel.tail (.setInstance (j := { inst with status := .terminated })
    (requireInstance_eq hinst) rfl)).tail (.emit _ rfl)

/-- Every command but the one that starts an instance. -/
theorem handleCommand_effects {command : EngineCommand} (hgoes : command.goesOn = true)
    (hn : A.Grants ctx) (h : handleCommand d ctx command = .ok ctx') :
    Effects A ctx ctx' := by
  cases command with
  | startProcess _ _ _ => cases hgoes
  | completeServiceTask id vars => exact handleCompleteTask_effects hn h
  | failServiceTask id code message => exact handleFailServiceTask_effects hn h
  | completeUserTask id completedBy vars => exact handleCompleteTask_effects hn h
  | fireTimer id => exact handleFireTimer_effects hn h
  | deliverMessage name vars => exact resumeTargets_effects hn h
  | broadcastSignal name vars => exact resumeTargets_effects hn h
  | suspendInstance => exact handleSuspendInstance_effects h
  | resumeInstance => exact handleResumeInstance_effects h
  | cancelInstance => exact handleCancelInstance_effects hn h

/-! ## One call of execute -/

theorem runLoop_empties {fuel : Nat} (h : runLoop d fuel ctx = .ok ctx') :
    ctx'.pendingQueue = [] := by
  induction fuel generalizing ctx with
  | zero =>
    cases hpending : ctx.pendingQueue with
    | nil =>
      rw [runLoop_nil d hpending, Except.ok.injEq] at h
      exact h ▸ hpending
    | cons t rest => simp [runLoop_zero d hpending] at h
  | succ fuel ih =>
    cases hpending : ctx.pendingQueue with
    | nil =>
      rw [runLoop_nil d hpending, Except.ok.injEq] at h
      exact h ▸ hpending
    | cons t rest =>
      rw [runLoop_cons d hpending] at h
      obtain ⟨mid, -, h⟩ := Except.bind_eq_ok_iff.1 h
      exact ih h

theorem execute_effects (A : Assumed) (huser : A.user) {fuel : Nat} {command : EngineCommand}
    {state : EngineState} {options : ExecuteOptions} {result : EngineResult}
    (hgoes : command.goesOn = true) (hn : A.Grants (ExecutionContext.create (some state) options))
    (h : execute d fuel command (some state) options = .ok result) :
    ∃ (ctx : ExecutionContext) (inst : ProcessInstance),
      Effects A (ExecutionContext.create (some state) options) ctx ∧ ctx.pendingQueue = [] ∧
        ctx.inst = some inst ∧ result.newState = ctx.toState inst ∧ result.events = ctx.events ∧
        result.nextId = ctx.nextId := by
  unfold execute at h
  obtain ⟨mid, hmid, h⟩ := Except.bind_eq_ok_iff.1 h
  obtain ⟨ctx, hctx, h⟩ := Except.bind_eq_ok_iff.1 h
  unfold ExecutionContext.toResult at h
  obtain ⟨inst, hinst, h⟩ := Except.bind_eq_ok_iff.1 h
  have hcommand := handleCommand_effects hgoes hn hmid
  have hqueued : Queued A (ExecutionContext.create (some state) options) :=
    ⟨hn, fun t ht => by cases ht⟩
  rw [← Except.ok.inj h]
  exact ⟨ctx, inst, hcommand.trans (runLoop_effects huser (hcommand.queued hqueued) hctx),
    runLoop_empties hctx, requireInstance_eq hinst, rfl, rfl, rfl⟩

/-! ## The instance -/

theorem Effect.core (e : Effect A ctx ctx') :
    ctx'.inst.map ProcessInstance.core = ctx.inst.map ProcessInstance.core := by
  cases e with
  | setInstance hi hj =>
    rw [hi]
    exact congrArg some hj
  | _ => rfl

theorem Effects.core (h : Effects A ctx ctx') :
    ctx'.inst.map ProcessInstance.core = ctx.inst.map ProcessInstance.core := by
  induction h with
  | refl => rfl
  | tail _ e ih => exact e.core.trans ih

theorem id_of_core {inst inst' : Option ProcessInstance}
    (h : inst'.map ProcessInstance.core = inst.map ProcessInstance.core) :
    inst'.map (·.id) = inst.map (·.id) := by
  have := congrArg (Option.map ProcessInstance.id) h
  simpa [Option.map_map, Function.comp_def, ProcessInstance.core] using this

/-- A record was there before, or is about the instance. -/
theorem Effects.records (h : Effects A ctx ctx') :
    ∀ r ∈ ctx'.compensationList,
      r ∈ ctx.compensationList ∨ ctx.inst.map (·.id) = some r.instanceId := by
  induction h with
  | refl => exact fun r hr => .inl hr
  | tail h e ih =>
    intro r hr
    cases e with
    | records records hrecords =>
      rcases hrecords r hr with hr | hid
      · exact ih r hr
      · exact .inr ((id_of_core h.core).symm.trans hid)
    | _ => exact ih r hr

/-- Whatever the state, `execute` hands the instance on with its id, its definition and its root
scope. -/
theorem execute_core {fuel : Nat} {command : EngineCommand} {state : EngineState}
    {options : ExecuteOptions} {result : EngineResult} (hgoes : command.goesOn = true)
    (h : execute d fuel command (some state) options = .ok result) :
    result.newState.inst.core = state.inst.core := by
  obtain ⟨ctx, inst, heffects, -, hinst, hstate, -, -⟩ :=
    execute_effects { sound := False, user := True } trivial hgoes ⟨False.elim, False.elim⟩ h
  have hcore := heffects.core
  rw [hinst] at hcore
  rw [hstate]
  exact Option.some.inj hcore

/-- The tokens of the new state have distinct ids, and its records are those of the old one or about
the instance. -/
theorem execute_rows {fuel : Nat} {command : EngineCommand} {state : EngineState}
    {options : ExecuteOptions} {result : EngineResult} (hgoes : command.goesOn = true)
    (h : execute d fuel command (some state) options = .ok result) :
    (result.newState.tokens.map (·.id)).Nodup ∧
      ∀ r ∈ result.newState.compensationRecords,
        r ∈ state.compensationRecords ∨ r.instanceId = state.inst.id := by
  obtain ⟨ctx, inst, heffects, -, -, hstate, -, -⟩ :=
    execute_effects { sound := False, user := True } trivial hgoes ⟨False.elim, False.elim⟩ h
  rw [hstate]
  refine ⟨ctx.tokenMap.nodup, fun r hr => (heffects.records r hr).imp_right fun hid => ?_⟩
  exact (Option.some.inj hid).symm

end NexusWorkflow
