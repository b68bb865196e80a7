import NexusWorkflow.Game.Helpers

/-!
# Processing a token plays a turn

Every handler of the run loop follows a rule of the token game: `processToken_turn`.
-/

namespace NexusWorkflow

open ExecutionContext

variable {d : ProcessDefinition}

/-! ## Gateways -/

theorem handleExclusiveGateway_exits {ctx ctx' : ExecutionContext} {token : Token}
    {g : GatewayElement} (hn : ctx.pool.Numbered) (ht : token.id ∈ ctx.pool.ids)
    (hg : g.type = .exclusive) (h : handleExclusiveGateway d ctx token g = .ok ctx') :
    ∃ flows joins, Exits d ctx.pool.joins token.erase (.gateway g) flows joins ∧
      Spawned (Made d) (onFlows token.erase flows) { ctx.pool.finish token.erase with joins }
        ctx'.pool := by
  unfold handleExclusiveGateway at h
  obtain ⟨scope, -, h⟩ := Except.bind_eq_ok_iff.1 h
  obtain ⟨selected, hsel, h⟩ := Except.bind_eq_ok_iff.1 h
  obtain ⟨flow, hflow, rfl⟩ := evaluateExclusiveSplit_mem hsel
  have hput := pool_setStatus_completed ht
  have hmove := moveTokenToFlow_spawned (by rw [hput]; exact hn.put _) h
  rw [hput] at hmove
  exact ⟨_, _, .exclusive g hg hflow, hmove⟩

theorem parallelJoinStart_joinStart {ctx ctx' : ExecutionContext} {gatewayId : String}
    {incoming : List SequenceFlow} {state : ParallelGatewayJoinState}
    (h : parallelJoinStart ctx gatewayId incoming = .ok (state, ctx')) :
    JoinStart ctx.pool.joins gatewayId incoming state ∧
      ∃ n, ctx.pool.nextId ≤ n ∧ ctx'.pool = ctx.pool.spawn [] n := by
  unfold parallelJoinStart getJoinState at h
  cases hj : ctx.joinStateMap.get? gatewayId with
  | none =>
    simp only [hj] at h
    obtain ⟨inst, -, h⟩ := Except.bind_eq_ok_iff.1 h
    obtain ⟨rfl, rfl⟩ := Prod.mk.inj (Except.ok.inj h)
    exact ⟨.fresh hj rfl rfl rfl, _, Nat.le_succ _, ctx.pool_newId⟩
  | some stored =>
    cases stored with
    | parallel stored =>
      simp only [hj] at h
      obtain ⟨rfl, rfl⟩ := Prod.mk.inj (Except.ok.inj h)
      exact ⟨.stored hj, _, le_refl _, Pool.spawn_nil_self.symm⟩
    | inclusive stored =>
      simp only [hj] at h
      cases h

theorem spawn_finish_joins (P : Pool) (t : Token) (n : Nat)
    (joins : KeyedMap GatewayJoinState.gatewayId) :
    ({ P.finish t with joins } : Pool).spawn [] n =
      { (P.spawn [] n).finish t with joins } := by
  simp [Pool.spawn, Pool.finish, Pool.put]

/-- Moving on when the ids up to `n` have been taken for something else. -/
theorem moveTokenToFlows_after {P : Pool} {ctx ctx' : ExecutionContext} {token : Token}
    {flows : List String} {joins : KeyedMap GatewayJoinState.gatewayId} {n : Nat}
    (hn : P.Numbered) (hle : P.nextId ≤ n)
    (hctx : ctx.pool = { (P.spawn [] n).finish token.erase with joins })
    (h : moveTokenToFlows d ctx token flows = .ok ctx') :
    Spawned (Made d) (onFlows token.erase flows) { P.finish token.erase with joins } ctx'.pool := by
  have hnum : ctx.pool.Numbered := by
    rw [hctx]
    have := (hn.spawn (l := []) (n := n)
      ⟨List.nodup_nil, by simp, by simp, by simp, hle⟩).put
        { token.erase with status := .completed }
    exact numbered_of_tokens this rfl rfl
  have hmoves := moveTokenToFlows_spawned hnum h
  rw [hctx] at hmoves
  refine Spawned.of_skip (n := n) ?_ hle
  rwa [spawn_finish_joins]

theorem handleParallelGateway_exits {ctx ctx' : ExecutionContext} {token : Token}
    {g : GatewayElement} (hn : ctx.pool.Numbered) (ht : token.id ∈ ctx.pool.ids)
    (hg : g.type = .parallel) (h : handleParallelGateway d ctx token g = .ok ctx') :
    ∃ flows joins, Exits d ctx.pool.joins token.erase (.gateway g) flows joins ∧
      Spawned (Made d) (onFlows token.erase flows) { ctx.pool.finish token.erase with joins }
        ctx'.pool := by
  have hsplit : (d.getIncomingFlows g.id).length ≤ 1 →
      (do
        let selected ← evaluateParallelSplit g.id (d.getOutgoingFlows g.id)
        moveTokenToFlows d (ctx.setStatus token .completed) token selected) = .ok ctx' →
      ∃ flows joins, Exits d ctx.pool.joins token.erase (.gateway g) flows joins ∧
        Spawned (Made d) (onFlows token.erase flows) { ctx.pool.finish token.erase with joins }
          ctx'.pool := by
    intro hin h
    obtain ⟨selected, hsel, h⟩ := Except.bind_eq_ok_iff.1 h
    unfold evaluateParallelSplit at hsel
    split_ifs at hsel with hout
    obtain rfl := Except.ok.inj hsel
    have hput := pool_setStatus_completed ht
    have hmoves := moveTokenToFlows_spawned (by rw [hput]; exact hn.put _) h
    rw [hput] at hmoves
    exact ⟨_, _, .parallelSplit g hg hin (by simpa using hout), hmoves⟩
  unfold handleParallelGateway at h
  rcases hin : d.getIncomingFlows g.id with _ | ⟨first, _ | ⟨second, rest⟩⟩
  · simp only [hin] at h
    exact hsplit (by simp [hin]) h
  · simp only [hin] at h
    exact hsplit (by simp [hin]) h
  · simp only [hin] at h
    obtain ⟨⟨state, mid⟩, hstart, h⟩ := Except.bind_eq_ok_iff.1 h
    rw [← hin] at hstart
    obtain ⟨hstate, n, hle, hmid⟩ := parallelJoinStart_joinStart hstart
    have hput := pool_setStatus_completed (c := mid) (t := token) (by
      rw [hmid]
      simpa [Pool.ids, Pool.spawn] using ht)
    rw [hmid] at hput
    simp only at h
    by_cases hfires : (evaluateParallelJoin (token.arrivedViaFlowId.getD first.id) state).fires =
      true
    · rw [if_pos hfires] at h
      refine ⟨_, _, .parallelFires g hg hin hstate hfires, ?_⟩
      refine moveTokenToFlows_after (n := n) hn hle ?_ h
      have : ∀ c : ExecutionContext, (c.deleteJoinState g.id).pool =
          { c.pool with joins := c.pool.joins.erase g.id } := fun _ => rfl
      rw [this, hput]
      rfl
    · rw [if_neg hfires] at h
      refine ⟨_, _, .parallelWaits g hg hin hstate (by simpa using hfires), ?_⟩
      rw [← Except.ok.inj h]
      have : ∀ (c : ExecutionContext) (s : GatewayJoinState), (c.saveJoinState s).pool =
          { c.pool with joins := c.pool.joins.set s } := fun _ _ => rfl
      rw [this, hput]
      refine Spawned.of_skip (n := n) ?_ hle
      rw [spawn_finish_joins]
      exact .nil

theorem registerInclusiveJoin_pool {ctx ctx' : ExecutionContext} {activated : List String}
    (h : registerInclusiveJoin d ctx activated = .ok ctx') :
    (findInclusiveJoinIncoming d activated = none ∧ ctx'.pool = ctx.pool) ∨
    ∃ joinId incoming state n, findInclusiveJoinIncoming d activated = some (joinId, incoming) ∧
      state.gatewayId = joinId ∧ state.activatedIncomingFlows = incoming ∧
      state.arrivedFromFlows = [] ∧ ctx.pool.nextId ≤ n ∧
      ctx'.pool =
        { ctx.pool.spawn [] n with joins := ctx.pool.joins.set (.inclusive state) } := by
  unfold registerInclusiveJoin at h
  rcases hf : findInclusiveJoinIncoming d activated with _ | ⟨joinId, incoming⟩
  · simp only [hf, Except.ok.injEq] at h
    exact Or.inl ⟨rfl, h ▸ rfl⟩
  · simp only [hf] at h
    obtain ⟨inst, -, h⟩ := Except.bind_eq_ok_iff.1 h
    refine Or.inr ⟨joinId, incoming,
      { gatewayId := joinId, instanceId := inst.id, activationId := ctx.nextId,
        activatedIncomingFlows := incoming, arrivedFromFlows := [] },
      ctx.pool.nextId + 1, rfl, rfl, rfl, rfl, Nat.le_succ _, ?_⟩
    rw [← ctx.pool_newId, ← Except.ok.inj h]
    rfl

theorem handleInclusiveGateway_exits {ctx ctx' : ExecutionContext} {token : Token}
    {g : GatewayElement} (hn : ctx.pool.Numbered) (ht : token.id ∈ ctx.pool.ids)
    (hg : g.type = .inclusive) (h : handleInclusiveGateway d ctx token g = .ok ctx') :
    ∃ flows joins, Exits d ctx.pool.joins token.erase (.gateway g) flows joins ∧
      Spawned (Made d) (onFlows token.erase flows) { ctx.pool.finish token.erase with joins }
        ctx'.pool := by
  have hsplit : (d.getIncomingFlows g.id).length ≤ 1 →
      (do
        let scope ← ctx.resolveScope token.scopeId
        let activated ← evaluateInclusiveSplit g.id (d.getOutgoingFlows g.id) g.defaultFlow
          (evaluateExpression ctx scope)
        let ctx ← registerInclusiveJoin d ctx activated
        moveTokenToFlows d (ctx.setStatus token .completed) token activated) = .ok ctx' →
      ∃ flows joins, Exits d ctx.pool.joins token.erase (.gateway g) flows joins ∧
        Spawned (Made d) (onFlows token.erase flows) { ctx.pool.finish token.erase with joins }
          ctx'.pool := by
    intro hin h
    obtain ⟨scope, -, h⟩ := Except.bind_eq_ok_iff.1 h
    obtain ⟨activated, hact, h⟩ := Except.bind_eq_ok_iff.1 h
    obtain ⟨mid, hmid, h⟩ := Except.bind_eq_ok_iff.1 h
    obtain ⟨hne, hsub⟩ := evaluateInclusiveSplit_mem hact
    rcases registerInclusiveJoin_pool hmid with ⟨hjoin, hpool⟩ |
      ⟨joinId, incoming, state, n, hjoin, hid, hactivated, harrived, hle, hpool⟩
    · have hput := pool_setStatus_completed (c := mid) (t := token) (by rw [hpool]; exact ht)
      rw [hpool] at hput
      refine ⟨_, _, .inclusiveSplit g hg hin hne hsub hjoin, ?_⟩
      have hmoves := moveTokenToFlows_spawned (by rw [hput]; exact hn.put _) h
      rw [hput] at hmoves
      exact hmoves
    · have hput := pool_setStatus_completed (c := mid) (t := token) (by
        rw [hpool]
        simpa [Pool.ids, Pool.spawn] using ht)
      rw [hpool] at hput
      refine ⟨_, _, .inclusiveSplitJoin g hg hin hne hsub hjoin hid hactivated harrived, ?_⟩
      exact moveTokenToFlows_after (n := n) hn hle (by rw [hput]; rfl) h
  unfold handleInclusiveGateway at h
  rcases hin : d.getIncomingFlows g.id with _ | ⟨first, _ | ⟨second, rest⟩⟩
  · simp only [hin] at h
    exact hsplit (by simp [hin]) h
  · simp only [hin] at h
    exact hsplit (by simp [hin]) h
  · simp only [hin, getJoinState] at h
    cases hj : ctx.joinStateMap.get? g.id with
    | none => simp [hj] at h
    | some stored =>
      cases stored with
      | parallel stored => simp [hj] at h
      | inclusive state =>
        have hput := pool_setStatus_completed ht
        simp only [hj] at h
        by_cases hfires :
            (evaluateInclusiveJoin (token.arrivedViaFlowId.getD first.id) state).fires = true
        · rw [if_pos hfires] at h
          refine ⟨_, _, .inclusiveFires g hg hin hj hfires, ?_⟩
          have hpool : ((ctx.setStatus token .completed).deleteJoinState g.id).pool =
              { ctx.pool.finish token.erase with joins := ctx.pool.joins.erase g.id } := by
            rw [← hput]
            rfl
          have hmoves := moveTokenToFlows_spawned (by
            rw [hpool]
            exact numbered_of_tokens (hn.put _) rfl rfl) h
          rw [hpool] at hmoves
          exact hmoves
        · rw [if_neg hfires] at h
          refine ⟨_, _, .inclusiveWaits g hg hin hj (by simpa using hfires), ?_⟩
          rw [← Except.ok.inj h]
          have : ∀ (c : ExecutionContext) (s : GatewayJoinState), (c.saveJoinState s).pool =
              { c.pool with joins := c.pool.joins.set s } := fun _ _ => rfl
          rw [this, hput]
          exact .nil

theorem handleEventBasedGateway_spawned {ctx ctx' : ExecutionContext} {token : Token}
    {g : GatewayElement} (hn : ctx.pool.Numbered) (ht : token.id ∈ ctx.pool.ids)
    (h : handleEventBasedGateway d ctx token g = .ok ctx') :
    validateEventBasedGateway g d = .ok () ∧
      Spawned (Made d) ((d.getOutgoingFlows g.id).map (.branch token.erase))
        (ctx.pool.finish token.erase) ctx'.pool := by
  unfold handleEventBasedGateway at h
  obtain ⟨⟨⟩, hvalid, h⟩ := Except.bind_eq_ok_iff.1 h
  obtain ⟨mid, hmid, h⟩ := Except.bind_eq_ok_iff.1 h
  have hput := pool_setStatus_completed ht
  rw [← Except.ok.inj h, pool_emit_of_cancelledIds _ rfl, ← hput]
  exact ⟨hvalid, spawned_map_iff.2 (Spawned.of_foldlM
    (fun _ _ _ hn h => spawned_map_iff.1 (spawnBranch_spawned hn h))
    (by rw [hput]; exact hn.put _) hmid)⟩

/-! ## Waiting -/

theorem suspendToken_pool {c : ExecutionContext} {t : Token} (type : WaitConditionType)
    (ht : t.id ∈ c.pool.ids) :
    (suspendToken c t type).pool = c.pool.park t.erase { type } t.erase.loopState :=
  c.pool_suspend _ ht

theorem handleIntermediateCatchEvent_parks {ctx ctx' : ExecutionContext} {token : Token}
    {e : EventElement} (ht : token.id ∈ ctx.pool.ids)
    (h : handleIntermediateCatchEvent ctx token e = .ok ctx') :
    ∃ condition, Parks d ctx.pool token.erase (.intermediateCatchEvent e) condition
        token.erase.loopState [] ctx.pool.records ∧
      ctx'.pool = ctx.pool.park token.erase condition token.erase.loopState := by
  unfold handleIntermediateCatchEvent at h
  cases htype : e.eventDefinition.type <;> simp only [htype, Except.ok.injEq, reduceCtorEq] at h
  all_goals
    rw [← h, ctx.pool_suspend _ ht]
    exact ⟨_, .catchEvent e (by simp only [EventDefinition.catchCondition, htype]), rfl⟩

theorem handleBoundaryEventWait_parks {ctx ctx' : ExecutionContext} {token : Token}
    {b : BoundaryEventElement} (ht : token.id ∈ ctx.pool.ids)
    (h : handleBoundaryEventWait ctx token b = .ok ctx') :
    ∃ condition, b.waitCondition = some condition ∧
      ctx'.pool = ctx.pool.park token.erase condition token.erase.loopState := by
  unfold handleBoundaryEventWait at h
  cases htype : b.eventDefinition.type <;> simp only [htype, Except.ok.injEq, reduceCtorEq] at h
  all_goals
    rw [← h, ctx.pool_suspend _ ht]
    exact ⟨_, by simp only [BoundaryEventElement.waitCondition, htype], rfl⟩

theorem handleSubProcess_parks {ctx ctx' : ExecutionContext} {token : Token} {e : BpmnElement}
    {isTransaction : Bool} {startEventId : String} (elements : List BpmnFlowElement)
    (flows : List SequenceFlow) (hn : ctx.pool.Numbered) (ht : token.id ∈ ctx.pool.ids)
    (he : e.id = token.elementId)
    (h : handleSubProcess d ctx token e isTransaction startEventId = .ok ctx') :
    ∃ origins, Parks d ctx.pool token.erase
      (.subProcess e isTransaction elements flows startEventId)
        { type := .external } token.erase.loopState origins ctx.pool.records ∧
      Spawned (Made d) origins
        (ctx.pool.park token.erase { type := .external } token.erase.loopState) ctx'.pool := by
  refine ⟨_, .subProcess e isTransaction elements flows startEventId, ?_⟩
  unfold handleSubProcess at h
  obtain ⟨inst, -, h⟩ := Except.bind_eq_ok_iff.1 h
  simp only at h
  set inScope := ctx.newId.2.saveScope
    { id := ctx.newId.1, parentScopeId := some token.scopeId, vars := ∅ } with hinScope
  have h1 : inScope.pool = ctx.pool.spawn [] (ctx.pool.nextId + 1) := ctx.pool_newId
  have h2 := suspendToken_pool (c := inScope) (t := token) .external (by
    rw [h1]
    simpa [Pool.ids, Pool.spawn] using ht)
  rw [h1] at h2
  have hle : ctx.pool.nextId ≤ ctx.pool.nextId + 1 := Nat.le_succ _
  have hpark : (ctx.pool.spawn [] (ctx.pool.nextId + 1)).park token.erase { type := .external }
      token.erase.loopState = (ctx.pool.park token.erase { type := .external }
        token.erase.loopState).spawn [] (ctx.pool.nextId + 1) := by
    simp [Pool.spawn, Pool.park, Pool.put]
  rw [hpark] at h2
  have hn2 : (suspendToken inScope token .external).pool.Numbered := by
    rw [h2]
    exact (hn.put _).spawn ⟨List.nodup_nil, by simp, by simp, by simp, hle⟩
  refine Spawned.of_skip (n := ctx.pool.nextId + 1) ?_ hle
  rw [← h2]
  set parked := suspendToken inScope token .external with hparked
  have hinner : ∀ {c : ExecutionContext}, c.pool.Numbered →
      Spawned (Made d) [.inner token.erase startEventId] c.pool
        (((c.emit (.subProcessStarted inst.id token.id e.id)).createToken inst.id startEventId
          .startEvent ctx.newId.1 none none (some e.id)).2.enqueuePending
            ((c.emit (.subProcessStarted inst.id token.id e.id)).createToken inst.id startEventId
          .startEvent ctx.newId.1 none none (some e.id)).1).pool := by
    intro c hc
    have hp : (c.emit (.subProcessStarted inst.id token.id e.id)).pool = c.pool :=
      pool_emit_of_cancelledIds _ rfl
    rw [← hp] at hc ⊢
    refine spawned_place hc ?_
    exact ⟨inst.id, ctx.newId.1, by rw [he]; rfl⟩
  rw [← Except.ok.inj h]
  cases isTransaction with
  | false => exact hinner hn2
  | true =>
    have hb := spawnBoundaryTokens_spawned (d := d) hn2 token e.id
    exact hb.append (hinner (hb.numbered hn2))

theorem consumeRecords_spec (ctx : ExecutionContext) (target : Option String) :
    consumeRecords ctx target = (consumed ctx.compensationList target,
      { ctx with compensationList := spared ctx.compensationList target }) := by
  cases target <;> rfl

theorem spared_of_consumed_nil {records : List CompensationRecord} {target : Option String}
    (h : consumed records target = []) : spared records target = records := by
  cases target with
  | none => exact (latestFirst_eq_nil_iff.1 h).symm
  | some activity =>
    have hno := List.filter_eq_nil_iff.1 (latestFirst_eq_nil_iff.1 h)
    exact List.filter_eq_self.2 fun r hr => by simpa using hno r hr

/-- A compensation throw event passes or parks. -/
theorem handleCompensationThrow_turn {ctx ctx' : ExecutionContext} {token : Token}
    {e : EventElement} (hn : ctx.pool.Numbered) (ht : token.id ∈ ctx.pool.ids)
    (he : d.getElement token.erase.elementId = .ok (.intermediateThrowEvent e))
    (hcomp : e.eventDefinition.type = .compensation)
    (h : handleCompensationThrow d ctx token e = .ok ctx') :
    ∃ Q origins, Turn d ctx.pool token.erase Q origins ∧ Spawned (Made d) origins Q ctx'.pool := by
  unfold handleCompensationThrow at h
  obtain ⟨inst, -, h⟩ := Except.bind_eq_ok_iff.1 h
  simp only at h
  set target := truthy e.eventDefinition.compensationActivityRef with htarget
  rw [consumeRecords_spec ctx target] at h
  simp only at h
  set records := consumed ctx.compensationList target with hrecords
  set kept := spared ctx.compensationList target with hkept
  set taken : ExecutionContext := { ctx with compensationList := kept } with htaken
  have hpool : taken.pool = { ctx.pool with records := kept } := rfl
  have hnum : taken.pool.Numbered := hn
  by_cases hrec : records.isEmpty = true
  · have hnil : records = [] := List.isEmpty_iff.1 hrec
    have hkept : taken.pool = ctx.pool := by
      rw [hpool, hkept, spared_of_consumed_nil hnil]
      rfl
    rw [if_pos hrec] at h
    have htold : (taken.emit (.compensationTriggered inst.id token.id e.id
        (truthy e.eventDefinition.compensationActivityRef) [])).pool = ctx.pool := by
      rw [pool_emit_of_cancelledIds _ rfl, hkept]
    have hadv := advanceToken_spawned (by rw [htold]; exact hn) (by rw [htold]; exact ht) h
    rw [htold] at hadv
    exact ⟨_, _, .pass he (.throwEvent e) fun _ => hnil, hadv⟩
  · rw [if_neg hrec] at h
    have hpark := suspendToken_pool (c := taken) (t := token) .external ht
    have hfind : ∀ id x, d.elements.find? (fun e => e.id = id) = some x → x.id = id :=
      fun id x hx => by simpa using List.find?_some hx
    have hstart := startHandler_spawned (d := d) hfind inst.id token none records
      (a := (suspendToken taken token .external, []))
      (by rw [hpark]; exact hnum.put _)
    rw [← Except.ok.inj h, pool_emit_of_cancelledIds _ rfl]
    simp only at hstart
    rw [hpark] at hstart
    have hne : records ≠ [] := fun h => hrec (List.isEmpty_iff.2 h)
    exact ⟨_, _, .park he (.throwEvent e hcomp hne), hstart⟩

/-! ## Multi-instance activities -/

theorem put_put (P : Pool) {a b : Token} (h : a.id = b.id) : (P.put a).put b = P.put b := by
  simp only [Pool.put, List.map_map]
  congr 1
  apply List.map_congr_left
  intro x _
  by_cases hx : x.id = a.id
  · simp [Pool.update, hx, h]
  · simp [Pool.update, hx]

theorem handleMultiInstanceStart_turn {ctx ctx' : ExecutionContext} {token : Token}
    {e : BpmnFlowElement} {lc : MultiInstanceLoopCharacteristics} (hn : ctx.pool.Numbered)
    (ht : token.id ∈ ctx.pool.ids) (he : d.getElement token.erase.elementId = .ok e)
    (hlc : e.loopCharacteristics = some lc) (hparent : token.erase.parentTokenId = none)
    (h : handleMultiInstanceStart d ctx token e lc = .ok ctx') :
    ∃ Q origins, Turn d ctx.pool token.erase Q origins ∧ Spawned (Made d) origins Q ctx'.pool := by
  unfold handleMultiInstanceStart at h
  obtain ⟨scope, -, h⟩ := Except.bind_eq_ok_iff.1 h
  obtain ⟨collection, -, h⟩ := Except.bind_eq_ok_iff.1 h
  split at h
  · obtain ⟨inst, -, h⟩ := Except.bind_eq_ok_iff.1 h
    have hput := pool_setStatus_completed ht
    have htold : ((ctx.setStatus token .completed).emit
        (.multiInstanceCompleted inst.id token.id e.id 0)).pool = ctx.pool.finish token.erase := by
      rw [pool_emit_of_cancelledIds _ rfl, hput]
    have hadv := advanceToken_spawned (by rw [htold]; exact hn.put _)
      (by rw [htold, Pool.finish, Pool.ids_put]; exact ht) h
    rw [htold, show (ctx.pool.finish token.erase).finish token.erase =
      ctx.pool.finish token.erase from put_put _ rfl] at hadv
    have hnone : e.NothingToCompensate ctx.pool.records := by
      cases e <;> trivial
    exact ⟨_, _, .pass he (.emptyLoop e hlc hparent) hnone, hadv⟩
  · rename_i item items
    simp only at h
    obtain ⟨inst, -, h⟩ := Except.bind_eq_ok_iff.1 h
    set waiting : Token := { token with
      status := .waiting, waitingFor := some { type := .external }, updatedAt := ctx.now.1 }
      with hwaiting
    have hput : (ctx.now.2.updateToken waiting).pool =
        ctx.pool.park token.erase { type := .external } token.erase.loopState :=
      ctx.now.2.pool_updateToken (t := waiting) ht
    by_cases hseq : lc.isSequential = true
    · rw [if_pos hseq] at h
      set loop : LoopState := { collection := item :: items, index := 0, iterationsRan := 0 }
        with hloop
      have hput' : ((ctx.now.2.updateToken waiting).updateToken
          { waiting with loopState := some loop }).pool =
          ctx.pool.park token.erase { type := .external } (some loop) := by
        rw [pool_updateToken _ (by
          rw [hput, Pool.park, Pool.ids_put]
          exact ht), hput]
        exact put_put _ rfl
      rw [← Except.ok.inj h]
      refine ⟨_, _, .park he (.sequential e hlc hparent hseq loop), ?_⟩
      rw [← show (((ctx.now.2.updateToken waiting).updateToken
          { waiting with loopState := some loop }).emit (.multiInstanceStarted inst.id token.id e.id
            (items.length + 1) lc.isSequential)).pool =
          ctx.pool.park token.erase { type := .external } (some loop) by
        rw [pool_emit_of_cancelledIds _ rfl, hput']]
      refine spawnMultiInstanceChild_spawned ?_ token e lc item
      rw [pool_emit_of_cancelledIds _ rfl, hput']
      exact hn.put _
    · rw [if_neg hseq] at h
      obtain ⟨mid, hmid, h⟩ := Except.bind_eq_ok_iff.1 h
      have hpool : mid.pool = ctx.pool.park token.erase
          { type := .external } token.erase.loopState := by
        rw [pool_initOutputCollection hmid, pool_emit_of_cancelledIds _ rfl, hput]
      have hchildren : Spawned (Made d)
          ((item :: items).map fun _ => Origin.child token.erase e) mid.pool
          ((item :: items).foldl
            (fun ctx item => spawnMultiInstanceChild ctx token e lc item) mid).pool := by
        refine spawned_map_iff.2 (Spawned.of_foldl (fun ctx item hn => ?_) ?_)
        · exact spawned_map_iff.1 (spawnMultiInstanceChild_spawned hn token e lc item)
        · rw [hpool]
          exact hn.put _
      rw [hpool, List.map_const', List.length_cons] at hchildren
      rw [← Except.ok.inj h]
      exact ⟨_, _, .park he (.parallel e hlc hparent (by simpa using hseq) items.length), hchildren⟩
  · cases h

theorem pool_cancelBoundaryTokensFor (ctx : ExecutionContext) (elementId : String) :
    (cancelBoundaryTokensFor ctx elementId).pool = ctx.pool.clearBoundaries elementId :=
  ctx.pool_cancelTokens fun _ => rfl

theorem completeMultiInstance_spawned {ctx ctx' : ExecutionContext} {parent : Token}
    {e : BpmnFlowElement} {iterationsRan : Nat} (hn : ctx.pool.Numbered)
    (hp : parent.id ∈ ctx.pool.ids)
    (h : completeMultiInstance d ctx parent e iterationsRan = .ok ctx') :
    Spawned (Made d) (onFlows parent.erase e.outgoingFlows)
      (ctx.pool.closeLoop parent.erase e.id) ctx'.pool := by
  unfold completeMultiInstance at h
  obtain ⟨inst, -, h⟩ := Except.bind_eq_ok_iff.1 h
  have hput := pool_setStatus_completed hp
  have hclosed : (cancelBoundaryTokensFor ((ctx.setStatus parent .completed).emit
      (.multiInstanceCompleted inst.id parent.id e.id iterationsRan)) e.id).pool =
      ctx.pool.closeLoop parent.erase e.id := by
    rw [pool_cancelBoundaryTokensFor, pool_emit_of_cancelledIds _ rfl, hput]
    rfl
  have hmoves := moveTokenToFlows_spawned (by
    rw [hclosed]
    exact (hn.put _).cancelAll _) h
  rwa [hclosed] at hmoves

theorem handleMultiInstanceChildCompletion_childDone {ctx ctx' : ExecutionContext} {child : Token}
    {e : BpmnFlowElement} {lc : MultiInstanceLoopCharacteristics} (hn : ctx.pool.Numbered)
    (hc : child.id ∈ ctx.pool.ids)
    (h : handleMultiInstanceChildCompletion d ctx child e lc = .ok ctx') :
    ∃ Q origins, ChildDone child.erase e lc ctx.pool Q origins ∧
      Spawned (Made d) origins Q ctx'.pool := by
  unfold handleMultiInstanceChildCompletion at h
  have hparent : (child.parentTokenId.bind ctx.tokenMap.get?).map Token.erase =
      child.erase.parentTokenId.bind ctx.pool.get? := by
    rw [Token.parentTokenId_erase]
    cases child.parentTokenId with
    | none => rfl
    | some id => exact pool_get? ctx id
  cases hp : child.parentTokenId.bind ctx.tokenMap.get? with
  | none =>
    rw [hp] at hparent
    simp only [hp, Except.ok.injEq] at h
    rw [← h]
    exact ⟨_, _, .orphan hparent.symm, .nil⟩
  | some parent =>
    rw [hp] at hparent
    simp only [hp] at h
    obtain ⟨mid, hmid, h⟩ := Except.bind_eq_ok_iff.1 h
    have hpool : mid.pool = ctx.pool.finish child.erase := by
      rw [pool_collectOutput hmid, pool_setStatus_completed hc]
    have hnum : mid.pool.Numbered := by
      rw [hpool]
      exact hn.put _
    have hpid : parent.id ∈ mid.pool.ids := by
      rw [hpool, Pool.finish, Pool.ids_put]
      obtain ⟨id, -, hget⟩ := Option.bind_eq_some_iff.1 hp
      exact mem_ids_of_get? hget
    by_cases hseq : lc.isSequential = true
    · rw [if_pos hseq] at h
      unfold handleSequentialChildCompletion at h
      cases hloop : parent.loopState with
      | none =>
        simp only [hloop, Except.ok.injEq] at h
        rw [← h, hpool]
        exact ⟨_, _, .noLoop hparent.symm hseq hloop, .nil⟩
      | some loop =>
        have hsome : parent.erase.loopState.isSome := by simp [hloop]
        simp only [hloop] at h
        obtain ⟨holds, -, h⟩ := Except.bind_eq_ok_iff.1 h
        cases holds with
        | true =>
          have hdone := completeMultiInstance_spawned hnum hpid h
          rw [hpool] at hdone
          exact ⟨_, _, .lastItem hparent.symm hseq hsome, hdone⟩
        | false =>
          simp only [Bool.false_eq_true, if_false] at h
          cases hnext : loop.collection[loop.index + 1]? with
          | none =>
            simp only [hnext] at h
            have hdone := completeMultiInstance_spawned hnum hpid h
            rw [hpool] at hdone
            exact ⟨_, _, .lastItem hparent.symm hseq hsome, hdone⟩
          | some item =>
            simp only [hnext, Except.ok.injEq] at h
            set looped : Token := { parent with
              loopState := some { loop with
                index := loop.index + 1, iterationsRan := loop.iterationsRan + 1 } } with hlooped
            have hput := mid.pool_updateToken (t := looped) hpid
            have hchild := spawnMultiInstanceChild_spawned (d := d) (c := mid.updateToken looped)
              (by rw [hput]; exact hnum.put _) parent e lc item
            rw [hput, hpool] at hchild
            rw [← h]
            exact ⟨_, _, .next hparent.symm hseq hsome _, hchild⟩
    · have hpar : lc.isSequential = false := by simpa using hseq
      rw [if_neg hseq] at h
      unfold handleParallelChildCompletion at h
      obtain ⟨holds, hcond, h⟩ := Except.bind_eq_ok_iff.1 h
      cases holds with
      | true =>
        have hsome : truthy lc.completionCondition ≠ none := by
          intro hnone
          unfold completionConditionHolds at hcond
          simp [hnone] at hcond
        simp only [if_true] at h
        have hcancel := mid.pool_cancelTokens
          (p := fun x => x.parentTokenId = some parent.id ∧ x.status = .waiting) fun _ => rfl
        have hfilter : (mid.getAllTokens.filter fun t => t.parentTokenId = some parent.id).filter
            (fun t => t.status = .waiting) = mid.getAllTokens.filter
              fun x => x.parentTokenId = some parent.id ∧ x.status = .waiting := by
          rw [List.filter_filter]
          congr 1
          funext x
          simp [Bool.and_comm]
        rw [hfilter] at h
        have hdone := completeMultiInstance_spawned (by rw [hcancel]; exact hnum.cancelAll _)
          (by rw [hcancel, Pool.ids_cancelAll]; exact hpid) h
        rw [hcancel, hpool] at hdone
        exact ⟨_, _, .condition hparent.symm hpar hsome, hdone⟩
      | false =>
        simp only [Bool.false_eq_true, if_false] at h
        have hall := all_finished_iff mid parent.id
        rw [hpool] at hall
        split_ifs at h with hfin
        · have hdone := completeMultiInstance_spawned hnum hpid h
          rw [hpool] at hdone
          exact ⟨_, _, .allDone hparent.symm hpar (hall.1 hfin), hdone⟩
        · rw [← Except.ok.inj h, hpool]
          exact ⟨_, _, .wait hparent.symm hpar fun hc => hfin (hall.2 hc), .nil⟩

/-! ## The run loop -/

theorem handleTask_cases {ctx ctx' : ExecutionContext} {token : Token} {e : BpmnFlowElement}
    {otherwise : Except EngineError ExecutionContext}
    (h : handleTask d ctx token e otherwise = .ok ctx') :
    (∃ lc, e.loopCharacteristics = some lc ∧ token.erase.parentTokenId = none ∧
      handleMultiInstanceStart d ctx token e lc = .ok ctx') ∨
    ((e.loopCharacteristics = none ∨ token.erase.parentTokenId ≠ none) ∧ otherwise = .ok ctx') := by
  unfold handleTask at h
  rw [Token.parentTokenId_erase]
  cases hlc : e.loopCharacteristics with
  | none => exact Or.inr ⟨Or.inl rfl, by simpa only [hlc] using h⟩
  | some lc =>
    cases hp : token.parentTokenId with
    | none => exact Or.inl ⟨lc, rfl, rfl, by simpa only [hlc, hp] using h⟩
    | some p => exact Or.inr ⟨Or.inr (by simp), by simpa only [hlc, hp] using h⟩

/-- What the run loop does to a token is a turn of the token game. -/
theorem processToken_turn {ctx ctx' : ExecutionContext} {token : Token} (hn : ctx.pool.Numbered)
    (ht : token.id ∈ ctx.pool.ids) (h : processToken d ctx token = .ok ctx') :
    ∃ Q origins, Turn d ctx.pool token.erase Q origins ∧ Spawned (Made d) origins Q ctx'.pool := by
  unfold processToken at h
  obtain ⟨e, he, h⟩ := Except.bind_eq_ok_iff.1 h
  replace he : d.getElement token.erase.elementId = .ok e := he
  have hid : e.id = token.elementId := ProcessDefinition.getElement_id he
  cases e with
  | startEvent e => exact ⟨_, _, .pass he (.startEvent e) trivial, advanceToken_spawned hn ht h⟩
  | endEvent e =>
    obtain ⟨Q, origins, hQ, hsp⟩ := handleEndEvent_ends hn ht h
    exact ⟨Q, origins, .ends he hQ, hsp⟩
  | intermediateCatchEvent e =>
    obtain ⟨condition, hpark, hpool⟩ := handleIntermediateCatchEvent_parks ht h
    exact ⟨_, _, .park he hpark, by rw [hpool]; exact .nil⟩
  | intermediateThrowEvent e =>
    simp only [handleIntermediateThrowEvent] at h
    split_ifs at h with htype
    · exact handleCompensationThrow_turn hn ht he htype h
    · exact ⟨_, _, .pass he (.throwEvent e) fun hcomp => absurd hcomp htype,
        advanceToken_spawned hn ht h⟩
  | boundaryEvent b =>
    obtain ⟨condition, hawaits, hpool⟩ := handleBoundaryEventWait_parks ht h
    exact ⟨_, _, .park he (.boundaryEvent b hawaits), by rw [hpool]; exact .nil⟩
  | serviceTask e =>
    rcases handleTask_cases h with ⟨lc, hlc, hparent, h⟩ | ⟨hno, h⟩
    · exact handleMultiInstanceStart_turn hn ht he hlc hparent h
    · obtain ⟨inst, -, h⟩ := Except.bind_eq_ok_iff.1 h
      have htold : (ctx.emit (.serviceTaskStarted inst.id token.id e.id
          (e.taskType.getD "unknown"))).pool = ctx.pool := pool_emit_of_cancelledIds _ rfl
      have hpark := suspendToken_pool (c := ctx.emit (.serviceTaskStarted inst.id token.id e.id
        (e.taskType.getD "unknown"))) (t := token) .external (by rw [htold]; exact ht)
      rw [htold] at hpark
      have hsp := spawnBoundaryTokens_spawned (d := d) (by rw [hpark]; exact hn.put _) token e.id
      rw [hpark] at hsp
      rw [← Except.ok.inj h]
      exact ⟨_, _, .park he (.serviceTask e hno), hsp⟩
  | userTask e =>
    rcases handleTask_cases h with ⟨lc, hlc, hparent, h⟩ | ⟨hno, h⟩
    · exact handleMultiInstanceStart_turn hn ht he hlc hparent h
    · have hpark := suspendToken_pool .userTask ht
      have hsp := spawnBoundaryTokens_spawned (d := d) (by rw [hpark]; exact hn.put _) token e.id
      rw [hpark] at hsp
      rw [← Except.ok.inj h]
      exact ⟨_, _, .park he (.userTask e hno), hsp⟩
  | scriptTask e =>
    rcases handleTask_cases h with ⟨lc, hlc, hparent, h⟩ | ⟨hno, h⟩
    · exact handleMultiInstanceStart_turn hn ht he hlc hparent h
    · rw [← Except.ok.inj h]
      exact ⟨_, _, .park he (.scriptTask e hno), suspendToken_pool .external ht ▸ .nil⟩
  | manualTask e =>
    rcases handleTask_cases h with ⟨lc, hlc, hparent, h⟩ | ⟨hno, h⟩
    · exact handleMultiInstanceStart_turn hn ht he hlc hparent h
    · cases hlc : e.loopCharacteristics with
      | none =>
        have h : advanceToken d ctx token (.manualTask e) = .ok ctx' := by
          cases hp : token.parentTokenId <;> simpa only [hp, hlc] using h
        exact ⟨_, _, .pass he (.manualTask e hlc) trivial, advanceToken_spawned hn ht h⟩
      | some lc =>
        have hparent : token.erase.parentTokenId ≠ none := by
          rcases hno with hno | hno
          · rw [show (BpmnFlowElement.manualTask e).loopCharacteristics = e.loopCharacteristics
              from rfl, hlc] at hno
            cases hno
          · exact hno
        obtain ⟨p, hp⟩ := Option.ne_none_iff_exists'.1 hparent
        have h : handleMultiInstanceChildCompletion d ctx token (.manualTask e) lc = .ok ctx' := by
          rw [Token.parentTokenId_erase] at hp
          simpa only [hp, hlc] using h
        obtain ⟨Q, origins, hQ, hsp⟩ := handleMultiInstanceChildCompletion_childDone hn ht h
        exact ⟨Q, origins, .child he hlc hparent hQ, hsp⟩
  | callActivity e => cases h
  | gateway g =>
    cases hg : g.type <;> simp only [hg] at h
    · obtain ⟨flows, joins, hexit, hsp⟩ := handleExclusiveGateway_exits hn ht hg h
      exact ⟨_, _, .pass he hexit trivial, hsp⟩
    · obtain ⟨flows, joins, hexit, hsp⟩ := handleParallelGateway_exits hn ht hg h
      exact ⟨_, _, .pass he hexit trivial, hsp⟩
    · obtain ⟨flows, joins, hexit, hsp⟩ := handleInclusiveGateway_exits hn ht hg h
      exact ⟨_, _, .pass he hexit trivial, hsp⟩
    · obtain ⟨hvalid, hsp⟩ := handleEventBasedGateway_spawned hn ht h
      exact ⟨_, _, .branch he hg hvalid, hsp⟩
  | subProcess e isTransaction elements flows startEventId =>
    obtain ⟨origins, hpark, hsp⟩ := handleSubProcess_parks elements flows hn ht hid h
    exact ⟨_, _, .park he hpark, hsp⟩

end NexusWorkflow
