import NexusWorkflow.Game.Play

/-!
# The helpers on the pool

What the functions that the handlers and the commands share do to the pool: those that make tokens,
those that change nothing the pool knows of, the look-ups, and the ends of a scope.
-/

namespace NexusWorkflow

open ExecutionContext

variable {d : ProcessDefinition}

/-! ## Elements and their ids -/

mutual

theorem BpmnFlowElement.findInside_id {e : BpmnFlowElement} {id : String} {r : BpmnFlowElement}
    (h : e.findInside id = some r) : r.id = id := by
  cases e with
  | subProcess e t elements flows s => exact findElementInTree_id (l := elements) h
  | _ => simp [BpmnFlowElement.findInside] at h

/-- The search gives an element of the id asked for. -/
theorem findElementInTree_id {l : List BpmnFlowElement} {id : String} {r : BpmnFlowElement}
    (h : findElementInTree l id = some r) : r.id = id := by
  cases l with
  | nil => simp [findElementInTree] at h
  | cons e rest =>
    rw [findElementInTree] at h
    split_ifs at h with he
    · exact Option.some.inj h ▸ he
    · rcases Option.or_eq_some_iff.1 h with h | ⟨-, h⟩
      · exact BpmnFlowElement.findInside_id h
      · exact findElementInTree_id h

end

theorem ProcessDefinition.getElement_id {id : String} {e : BpmnFlowElement}
    (h : d.getElement id = .ok e) : e.id = id := by
  unfold ProcessDefinition.getElement at h
  rcases hf : findElementInTree d.elements id with _ | r
  · simp [hf] at h
  · simp only [hf, Except.ok.injEq] at h
    exact h ▸ findElementInTree_id hf

/-! ## Making tokens -/

theorem spawned_map_iff {α β : Type} {R : β → Token → Prop} {g : α → β} {items : List α}
    {P P' : Pool} : Spawned R (items.map g) P P' ↔ Spawned (fun a => R (g a)) items P P' := by
  simp only [Spawned, List.forall₂_map_left_iff]

/-- Ids that are taken for something else do not matter. -/
theorem Spawned.of_skip {α : Type} {R : α → Token → Prop} {items : List α} {P P' : Pool} {n : Nat}
    (h : Spawned R items (P.spawn [] n) P') (hn : P.nextId ≤ n) : Spawned R items P P' := by
  have hskip : Spawned R [] P (P.spawn [] n) :=
    ⟨[], n, .nil, ⟨List.nodup_nil, by simp, by simp, by simp, hn⟩, rfl⟩
  exact hskip.append h

/-- A token made by `createToken` and enqueued, for any origin that it fits. -/
theorem spawned_place {ctx : ExecutionContext} (hn : ctx.pool.Numbered) {o : Origin}
    {instanceId : Nat} {elementId : String} {elementType : BpmnElementType} {scopeId : Nat}
    {via : Option String} {parent : Option Nat} {tag : Option String}
    (h : Made d o
      (newToken ctx.pool.nextId instanceId elementId elementType scopeId via parent tag)) :
    Spawned (Made d) [o] ctx.pool
      ((ctx.createToken instanceId elementId elementType scopeId via parent tag).2.enqueuePending
        (ctx.createToken instanceId elementId elementType scopeId via parent tag).1).pool := by
  rw [pool_place ctx hn]
  exact Spawned.single h rfl (le_refl _) (Nat.lt_succ_self _)

theorem pool_enqueue_emit (ctx : ExecutionContext) (token : Token) {event : ExecutionEvent}
    (h : cancelledIds [event] = []) :
    ((ctx.emit event).enqueuePending token).pool = (ctx.enqueuePending token).pool := by
  simp only [enqueuePending, emit, pool]
  rw [cancelledIds, List.filterMap_append, ← cancelledIds, ← cancelledIds, h, List.append_nil]

theorem moveTokenToFlow_spawned {ctx ctx' : ExecutionContext} {src : Token} {flowId : String}
    (hn : ctx.pool.Numbered) (h : moveTokenToFlow d ctx src flowId = .ok ctx') :
    Spawned (Made d) [.flow src.erase flowId] ctx.pool ctx'.pool := by
  unfold moveTokenToFlow at h
  obtain ⟨flow, hflow, h⟩ := Except.bind_eq_ok_iff.1 h
  obtain ⟨element, helement, h⟩ := Except.bind_eq_ok_iff.1 h
  have hmade : Made d (.flow src.erase flowId) (newToken ctx.pool.nextId src.instanceId element.id
      element.type src.scopeId (some flowId) none (truthy src.subProcessInstanceId)) :=
    ⟨flow, element, hflow, helement, rfl⟩
  rw [← Except.ok.inj h, pool_enqueue_emit _ _ rfl]
  exact spawned_place hn hmade

theorem moveTokenToFlows_spawned {ctx ctx' : ExecutionContext} {t : Token} {flows : List String}
    (hn : ctx.pool.Numbered) (h : moveTokenToFlows d ctx t flows = .ok ctx') :
    Spawned (Made d) (onFlows t.erase flows) ctx.pool ctx'.pool :=
  spawned_map_iff.2 (Spawned.of_foldlM
    (fun _ _ _ hn h => spawned_map_iff.1 (moveTokenToFlow_spawned hn h)) hn h)

theorem advanceToken_spawned {ctx ctx' : ExecutionContext} {token : Token} {e : BpmnFlowElement}
    (hn : ctx.pool.Numbered) (ht : token.id ∈ ctx.pool.ids)
    (h : advanceToken d ctx token e = .ok ctx') :
    Spawned (Made d) (onFlows token.erase e.outgoingFlows) (ctx.pool.finish token.erase)
      ctx'.pool := by
  have hput := ctx.pool_setStatus .completed ht
  rw [← show (ctx.setStatus token .completed).pool = ctx.pool.finish token.erase from hput]
  exact moveTokenToFlows_spawned (by rw [hput]; exact hn.put _) h

theorem spawnBoundaryTokens_spawned {ctx : ExecutionContext} (hn : ctx.pool.Numbered)
    (host : Token) (elementId : String) :
    Spawned (Made d) ((d.armedBoundaries elementId).map (.boundary host.erase)) ctx.pool
      (spawnBoundaryTokens d ctx host elementId).pool := by
  refine spawned_map_iff.2 (Spawned.of_foldl (fun ctx b hn => spawned_map_iff.1 ?_) hn)
  have hmade : Made d (.boundary host.erase b) (newToken ctx.pool.nextId host.instanceId b.id
      .boundaryEvent host.scopeId none none (truthy host.subProcessInstanceId)) := rfl
  exact spawned_place hn hmade

theorem spawnMultiInstanceChild_spawned {c : ExecutionContext} (hn : c.pool.Numbered)
    (parent : Token) (e : BpmnFlowElement) (lc : MultiInstanceLoopCharacteristics) (item : Value) :
    Spawned (Made d) [.child parent.erase e] c.pool
      (spawnMultiInstanceChild c parent e lc item).pool := by
  have hle : c.pool.nextId ≤ c.pool.nextId + 1 := Nat.le_succ _
  refine Spawned.of_skip (n := c.pool.nextId + 1) ?_ hle
  rw [← c.pool_newId]
  have hn' : c.newId.2.pool.Numbered := by
    rw [c.pool_newId]
    exact hn.spawn ⟨List.nodup_nil, by simp, by simp, by simp, hle⟩
  have hmade : Made d (.child parent.erase e) (newToken c.newId.2.pool.nextId parent.instanceId
      e.id e.type c.nextId none (some parent.id)) := ⟨c.nextId, rfl⟩
  exact spawned_place hn' hmade

/-- The loop over the compensation records. -/
theorem startHandler_spawned {find : String → Option BpmnFlowElement}
    (hfind : ∀ id e, find id = some e → e.id = id) (instanceId : Nat) (source : Token)
    (tag : Option String) (records : List CompensationRecord)
    {a : ExecutionContext × List CompensationRecord} (hn : a.1.pool.Numbered) :
    Spawned (Made d) (handlersFor find source.erase tag records) a.1.pool
      (records.foldl (startHandler find instanceId source tag) a).1.pool := by
  induction records generalizing a with
  | nil => exact Spawned.nil
  | cons r records ih =>
    rw [List.foldl_cons]
    cases hf : find r.handlerId with
    | none =>
      have hskip : startHandler find instanceId source tag a r = a := by
        simp only [startHandler, hf]
      rw [hskip, handlersFor, List.filterMap_cons_none (by simp [hf])]
      exact ih hn
    | some e =>
      have hmade : Made d (.handler source.erase e tag) (newToken a.1.pool.nextId instanceId
          r.handlerId e.type source.scopeId none (some source.id) tag) :=
        ⟨instanceId, by rw [hfind _ _ hf]; rfl⟩
      have hone : Spawned (Made d) [.handler source.erase e tag] a.1.pool
          (startHandler find instanceId source tag a r).1.pool := by
        simp only [startHandler, hf]
        rw [pool_enqueue_emit _ _ rfl]
        exact spawned_place hn hmade
      rw [handlersFor, List.filterMap_cons_some (by rw [hf]; rfl)]
      exact hone.append (ih (hone.numbered hn))

theorem spawnBranch_spawned {ctx ctx' : ExecutionContext} {token : Token} {flow : SequenceFlow}
    (hn : ctx.pool.Numbered) (h : spawnBranch d token ctx flow = .ok ctx') :
    Spawned (Made d) [.branch token.erase flow] ctx.pool ctx'.pool := by
  unfold spawnBranch at h
  obtain ⟨e, he, h⟩ := Except.bind_eq_ok_iff.1 h
  have hmade : Made d (.branch token.erase flow) (newToken ctx.pool.nextId token.instanceId e.id
      e.type token.scopeId (some flow.id) (some token.id)) := ⟨e, he, rfl⟩
  rw [← Except.ok.inj h, pool_enqueue_emit _ _ rfl]
  exact spawned_place hn hmade

/-! ## Steps that the pool does not see -/

theorem pool_mergeVariables {ctx ctx' : ExecutionContext} {scopeId : Nat} {vars : Variables}
    (h : ctx.mergeVariables scopeId vars = .ok ctx') : ctx'.pool = ctx.pool := by
  unfold mergeVariables at h
  cases hs : ctx.scopeMap.get? scopeId with
  | none => simp [hs] at h
  | some scope =>
    simp only [hs, Except.ok.injEq] at h
    rw [← h, pool_saveScope]

theorem pool_mergeOutput {ctx ctx' : ExecutionContext} {scopeId : Nat} {vars : Option Variables}
    (h : ctx.mergeOutput scopeId vars = .ok ctx') : ctx'.pool = ctx.pool := by
  unfold mergeOutput at h
  cases vars with
  | none => rw [Except.ok.inj h]
  | some vars =>
    simp only at h
    split_ifs at h
    · rw [Except.ok.inj h]
    · exact pool_mergeVariables h

theorem pool_propagateInner {ctx ctx' : ExecutionContext} {inner : List Token} {outer : Token}
    (h : propagateInner ctx inner outer = .ok ctx') : ctx'.pool = ctx.pool := by
  unfold propagateInner at h
  cases hi : inner.head? with
  | none =>
    simp only [hi, Except.ok.injEq] at h
    rw [h]
  | some first =>
    simp only [hi] at h
    obtain ⟨vars, -, h⟩ := Except.bind_eq_ok_iff.1 h
    exact pool_mergeOutput h

theorem pool_initOutputCollection {ctx ctx' : ExecutionContext} {token : Token}
    {lc : MultiInstanceLoopCharacteristics} (h : initOutputCollection ctx token lc = .ok ctx') :
    ctx'.pool = ctx.pool := by
  unfold initOutputCollection at h
  cases hc : truthy lc.outputCollection with
  | none =>
    simp only [hc, Except.ok.injEq] at h
    rw [h]
  | some name =>
    simp only [hc] at h
    exact pool_mergeVariables h

theorem pool_collectOutput {ctx ctx' : ExecutionContext} {child parent : Token}
    {lc : MultiInstanceLoopCharacteristics} (h : collectOutput ctx child parent lc = .ok ctx') :
    ctx'.pool = ctx.pool := by
  unfold collectOutput at h
  split at h
  · obtain ⟨scope, -, h⟩ := Except.bind_eq_ok_iff.1 h
    split at h
    · rw [Except.ok.inj h]
    · obtain ⟨scope, -, h⟩ := Except.bind_eq_ok_iff.1 h
      exact pool_mergeVariables h
  · rw [Except.ok.inj h]

theorem pool_emitChildCompleted {ctx ctx' : ExecutionContext} {token : Token} {e : BpmnFlowElement}
    (h : emitChildCompleted ctx token e = .ok ctx') : ctx'.pool = ctx.pool := by
  unfold emitChildCompleted at h
  split_ifs at h
  · obtain ⟨inst, -, h⟩ := Except.bind_eq_ok_iff.1 h
    rw [← Except.ok.inj h, pool_emit_of_cancelledIds _ rfl]
  · rw [Except.ok.inj h]

theorem status_of_requireInstance {ctx : ExecutionContext} {inst : ProcessInstance}
    (h : ctx.requireInstance = .ok inst) : ctx.pool.status = some inst.status := by
  unfold requireInstance at h
  cases hi : ctx.inst with
  | none => simp [hi] at h
  | some i =>
    simp only [hi, Except.ok.injEq] at h
    simp [pool, hi, h]

theorem pool_completeInstance {ctx ctx' : ExecutionContext} (h : completeInstance ctx = .ok ctx') :
    ctx'.pool = { ctx.pool with status := some .completed } := by
  unfold completeInstance at h
  obtain ⟨inst, -, h⟩ := Except.bind_eq_ok_iff.1 h
  rw [← Except.ok.inj h, pool_emit_of_cancelledIds _ rfl, pool_setInstance]
  rfl

/-! ## Looking tokens up -/

theorem pool_get? (ctx : ExecutionContext) (id : Nat) :
    (ctx.tokenMap.get? id).map Token.erase = ctx.pool.get? id :=
  ctx.find?_pool fun _ => rfl

theorem pool_waitingAt (ctx : ExecutionContext) (elementId : String) :
    (ctx.getAllTokens.find? fun t => t.elementId = elementId ∧ t.status = .waiting).map
    Token.erase =
      ctx.pool.waitingAt elementId :=
  ctx.find?_pool fun _ => rfl

theorem any_live_iff (ctx : ExecutionContext) (s : String) :
    (ctx.getAllTokens.filter fun t => t.subProcessInstanceId = some s).any Token.live = true ↔
      ctx.pool.Busy s := by
  rw [List.any_filter, ctx.any_pool (fun _ => rfl)]
  simp [Pool.Busy]

theorem all_finished_iff (ctx : ExecutionContext) (parent : Nat) :
    ((ctx.getAllTokens.filter fun t => t.parentTokenId = some parent).all
      fun t => t.status = .completed || t.status = .cancelled) = true ↔
      ctx.pool.ChildrenFinished parent := by
  simp only [List.all_filter, List.all_eq_true, pool, getAllTokens, Pool.ChildrenFinished,
    List.forall_mem_map]
  simp [Token.Finished, imp_iff_not_or]

theorem mem_ids_of_get? {ctx : ExecutionContext} {id : Nat} {t : Token}
    (h : ctx.tokenMap.get? id = some t) : t.id ∈ ctx.pool.ids :=
  ctx.mem_ids (KeyedMap.mem_of_get? h)

theorem mem_ids_of_find? {ctx : ExecutionContext} {p : Token → Bool} {t : Token}
    (h : ctx.getAllTokens.find? p = some t) : t.id ∈ ctx.pool.ids :=
  ctx.mem_ids (List.mem_of_find?_eq_some h)

/-! ## Scopes that end -/

theorem pool_setStatus_completed {c : ExecutionContext} {t : Token} (ht : t.id ∈ c.pool.ids) :
    (c.setStatus t .completed).pool = c.pool.finish t.erase :=
  c.pool_setStatus .completed ht

theorem checkSubProcessCompletion_subEnd {ctx ctx' : ExecutionContext} {s : String}
    (hn : ctx.pool.Numbered) (h : checkSubProcessCompletion d ctx s = .ok ctx') :
    ∃ Q origins, SubEnd d s ctx.pool Q origins ∧ Spawned (Made d) origins Q ctx'.pool := by
  have hbusy := any_live_iff ctx s
  have hwait := pool_waitingAt ctx s
  unfold checkSubProcessCompletion at h
  simp only at h
  split_ifs at h with hlive
  · rw [← Except.ok.inj h]
    exact ⟨_, _, .busy (hbusy.1 hlive), .nil⟩
  · have hidle : ¬ ctx.pool.Busy s := fun hb => hlive (hbusy.2 hb)
    cases hf : ctx.getAllTokens.find? fun t => t.elementId = s ∧ t.status = .waiting with
    | none =>
      rw [hf] at hwait
      simp only [hf, Except.ok.injEq] at h
      rw [← h]
      exact ⟨_, _, .orphan hidle hwait.symm, .nil⟩
    | some outer =>
      rw [hf] at hwait
      simp only [hf] at h
      obtain ⟨inst, -, h⟩ := Except.bind_eq_ok_iff.1 h
      obtain ⟨mid, hmid, h⟩ := Except.bind_eq_ok_iff.1 h
      obtain ⟨e, he, h⟩ := Except.bind_eq_ok_iff.1 h
      have hpool : (mid.emit (.subProcessCompleted inst.id outer.id s)).pool = ctx.pool := by
        rw [pool_emit_of_cancelledIds _ rfl, pool_propagateInner hmid]
      have hadv := advanceToken_spawned (by rw [hpool]; exact hn)
        (by rw [hpool]; exact mem_ids_of_find? hf) h
      rw [hpool] at hadv
      exact ⟨_, _, .complete hidle hwait.symm he, hadv⟩

theorem fireCancelBoundary_fireCancel {c ctx' : ExecutionContext} {outer : Token} {s : String}
    (hn : c.pool.Numbered) (ho : outer.id ∈ c.pool.ids)
    (h : fireCancelBoundary d c outer s = .ok ctx') :
    ∃ Q origins, FireCancel d s outer.erase c.pool Q origins ∧
      Spawned (Made d) origins Q ctx'.pool := by
  unfold fireCancelBoundary at h
  cases hb : (d.findBoundariesFor s).find? (·.eventDefinition.type = .cancel) with
  | none =>
    simp only [hb, Except.ok.injEq] at h
    rw [← h]
    exact ⟨_, _, .none hb, .nil⟩
  | some b =>
    have hwait := pool_waitingAt c b.id
    simp only [hb] at h
    cases hf : c.getAllTokens.find? fun t => t.elementId = b.id ∧ t.status = .waiting with
    | none =>
      rw [hf] at hwait
      simp only [hf, Except.ok.injEq] at h
      rw [← h]
      exact ⟨_, _, .unarmed hb hwait.symm, .nil⟩
    | some w =>
      rw [hf] at hwait
      simp only [hf] at h
      set fired := c.setStatus w .completed with hfired
      have h1 : fired.pool = c.pool.finish w.erase := pool_setStatus_completed (mem_ids_of_find? hf)
      set told := fired.emit (.boundaryEventTriggered outer.instanceId w.id b.id true) with htold
      have h2 : told.pool = c.pool.finish w.erase := by
        rw [htold, pool_emit_of_cancelledIds _ rfl, h1]
      have hmem : outer.id ∈ told.now.2.pool.ids := by
        rw [pool_now, h2, Pool.finish, Pool.ids_put]
        exact ho
      have h3 := told.now.2.pool_cancelToken told.now.1 hmem
      rw [pool_now, h2] at h3
      have hmoves := moveTokenToFlows_spawned (t := w)
        (by rw [h3]; exact (hn.put _).put _) h
      rw [h3] at hmoves
      exact ⟨_, _, .fire hb hwait.symm, hmoves⟩

theorem latestFirst_eq_nil_iff {records : List CompensationRecord} :
    latestFirst records = [] ↔ records = [] := by
  rw [← List.length_eq_zero_iff, latestFirst, List.length_insertionSort, List.length_eq_zero_iff]

theorem handleTransactionCancel_txCancel {ctx ctx' : ExecutionContext} {token : Token} {s : String}
    (hn : ctx.pool.Numbered) (htag : truthy token.subProcessInstanceId = some s)
    (h : handleTransactionCancel d ctx token = .ok ctx') :
    ∃ Q origins, TxCancel d s token.erase ctx.pool Q origins ∧
      Spawned (Made d) origins Q ctx'.pool := by
  unfold handleTransactionCancel at h
  simp only [htag] at h
  obtain ⟨inst, -, h⟩ := Except.bind_eq_ok_iff.1 h
  set cleared := ctx.cancelTokens (ctx.getAllTokens.filter fun t =>
    t.id ≠ token.id ∧ t.subProcessInstanceId = some s ∧ t.live) with hcleared
  have hc : cleared.pool = ctx.pool.cancelAll fun t =>
      t.id ≠ token.id ∧ t.subProcessInstanceId = some s ∧ t.live :=
    ctx.pool_cancelTokens fun _ => rfl
  have hrecords : cleared.compensationList = ctx.pool.records := congrArg Pool.records hc
  have hwait := pool_waitingAt cleared s
  set emptied := cleared.consumeAllCompensationRecords.2 with hemptied
  have he : emptied.pool = ctx.pool.clearScope s token.erase := by
    have : emptied.pool = { cleared.pool with records := [] } := rfl
    rw [this, hc]
    rfl
  have hwait' : cleared.pool.waitingAt s = (ctx.pool.clearScope s token.erase).waitingAt s := by
    rw [← he]
    rfl
  have hne : emptied.pool.Numbered := by
    rw [he]
    exact numbered_of_tokens (hn.cancelAll _) rfl rfl
  have hstart := startHandler_spawned (d := d)
      (fun _ _ => findElementInTree_id (l := d.elements)) inst.id
    token (some s) (latestFirst cleared.compensationList) (a := (emptied, [])) hne
  simp only [consumeAllCompensationRecords] at h
  cases hr : latestFirst cleared.compensationList with
  | cons r rest =>
    have hP : ctx.pool.records ≠ [] := by
      rw [← hrecords]
      intro hnil
      rw [latestFirst_eq_nil_iff.2 hnil] at hr
      cases hr
    rw [hr] at h
    simp only [Except.ok.injEq] at h
    rw [← h, pool_emit_of_cancelledIds _ rfl]
    rw [hr, he] at hstart
    refine ⟨_, _, .compensate hP, ?_⟩
    rw [← hrecords, hr]
    exact hstart
  | nil =>
    have hP : ctx.pool.records = [] := by
      rw [← hrecords]
      exact latestFirst_eq_nil_iff.1 hr
    rw [hr] at h
    simp only [List.foldl_nil] at h
    cases hf : cleared.getAllTokens.find? fun t => t.elementId = s ∧ t.status = .waiting with
    | none =>
      rw [hf] at hwait
      simp only [hf, Except.ok.injEq] at h
      rw [← h, pool_emit_of_cancelledIds _ rfl]
      refine ⟨_, _, .orphan hP (hwait' ▸ hwait.symm), ?_⟩
      rw [← he]
      exact .nil
    | some outer =>
      rw [hf] at hwait
      simp only [hf] at h
      have htold : (emptied.emit (.transactionCancelled inst.id token.id s [])).pool =
          ctx.pool.clearScope s token.erase := by
        rw [pool_emit_of_cancelledIds _ rfl, he]
      have hmem : outer.id ∈ emptied.pool.ids := by
        have : emptied.pool.ids = cleared.pool.ids := rfl
        rw [this]
        exact mem_ids_of_find? hf
      obtain ⟨Q, origins, hfire, hsp⟩ := fireCancelBoundary_fireCancel
        (c := emptied.emit (.transactionCancelled inst.id token.id s []))
        (by rw [htold, ← he]; exact hne) (by rw [htold, ← he]; exact hmem) h
      rw [htold] at hfire
      exact ⟨Q, origins, .fire hP (hwait' ▸ hwait.symm) hfire, hsp⟩

theorem handleEndEvent_ends {ctx ctx' : ExecutionContext} {token : Token} {e : EventElement}
    (hn : ctx.pool.Numbered) (ht : token.id ∈ ctx.pool.ids)
    (h : handleEndEvent d ctx token e = .ok ctx') :
    ∃ Q origins, Ends d token.erase (ctx.pool.finish token.erase) e Q origins ∧
      Spawned (Made d) origins Q ctx'.pool := by
  have h1 := pool_setStatus_completed ht
  have hn1 : (ctx.setStatus token .completed).pool.Numbered := by
    rw [h1]
    exact hn.put _
  unfold handleEndEvent at h
  generalize ctx.setStatus token .completed = done at h h1 hn1
  rw [← h1]
  simp only at h
  by_cases hcancel : e.eventDefinition.type = .cancel
  · rw [if_pos hcancel] at h
    cases htag : truthy token.erase.subProcessInstanceId with
    | none =>
      unfold handleTransactionCancel at h
      rw [← Token.subProcessInstanceId_erase] at h
      simp only [htag, Except.ok.injEq] at h
      rw [← h]
      exact ⟨_, _, .cancelTop e hcancel htag, .nil⟩
    | some s =>
      obtain ⟨Q, origins, hQ, hsp⟩ := handleTransactionCancel_txCancel hn1 htag h
      exact ⟨Q, origins, .cancel e hcancel htag hQ, hsp⟩
  rw [if_neg hcancel] at h
  by_cases hterm : e.eventDefinition.type = .terminate
  · rw [if_pos hterm] at h
    have hkill := done.pool_foldl_cancel (p := fun t => t.id ≠ token.id ∧ t.live) (fun _ => rfl)
      (fun ctx => ctx.now) fun _ => rfl
    rw [pool_completeInstance h]
    refine ⟨_, _, .terminate e hterm, ?_⟩
    rw [show done.pool.cancelAll (fun x => x.id ≠ token.erase.id ∧ x.live) = _ from hkill.symm]
    exact .nil
  · rw [if_neg hterm] at h
    cases htag : truthy token.erase.subProcessInstanceId with
    | some s =>
      rw [← Token.subProcessInstanceId_erase] at h
      simp only [htag] at h
      obtain ⟨Q, origins, hQ, hsp⟩ := checkSubProcessCompletion_subEnd hn1 h
      exact ⟨Q, origins, .inner e hcancel hterm htag hQ, hsp⟩
    | none =>
      rw [← Token.subProcessInstanceId_erase] at h
      have hiff : (done.getAllTokens.filter Token.live).length = 0 ∧ done.pendingCount = 0 ↔
          (∀ x ∈ done.pool.tokens, x.live = false) ∧ done.pool.pending = [] := by
        simp [pool, getAllTokens, pendingCount]
      simp only [htag] at h
      split_ifs at h with hlast
      · rw [pool_completeInstance h]
        exact ⟨_, _, .last e hcancel hterm htag (hiff.1 hlast).1 (hiff.1 hlast).2, .nil⟩
      · rw [← Except.ok.inj h]
        exact ⟨_, _, .more e hcancel hterm htag (fun hl => hlast (hiff.2 hl)), .nil⟩

end NexusWorkflow
