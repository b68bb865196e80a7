import NexusWorkflow.Game.TurnRefinement

/-!
# Commands follow the token game

`handleCommand_commanded`: what a command handler does, up to its call of the run loop.
-/

namespace NexusWorkflow

open ExecutionContext

variable {d : ProcessDefinition}

/-! ## The addressed token -/

theorem requireToken_ok {ctx : ExecutionContext} {id : Nat} {token : Token}
    (h : ctx.requireToken id = .ok token) : ctx.tokenMap.get? id = some token := by
  unfold requireToken at h
  cases hg : ctx.tokenMap.get? id with
  | none => simp [hg] at h
  | some t =>
    simp only [hg, Except.ok.injEq] at h
    rw [h]

theorem requireWaiting_ok {ctx : ExecutionContext} {action : Nat → String} {id : Nat}
    {instanceId : Option Nat} {token : Token}
    (h : requireWaiting ctx action id instanceId = .ok token) :
    ctx.tokenMap.get? id = some token ∧ token.status = .waiting := by
  unfold requireWaiting at h
  obtain ⟨t, ht, h⟩ := Except.bind_eq_ok_iff.1 h
  split_ifs at h with hs
  obtain rfl := Except.ok.inj h
  exact ⟨requireToken_ok ht, by simpa using hs⟩

/-- The addressed token is one of the pool. -/
structure Addressed (ctx : ExecutionContext) (id : Nat) (token : Token) : Prop where
  mem : token.erase ∈ ctx.pool.tokens
  id_eq : token.erase.id = id
  waiting : token.erase.status = .waiting

theorem requireWaiting_addressed {ctx : ExecutionContext} {action : Nat → String} {id : Nat}
    {instanceId : Option Nat} {token : Token}
    (h : requireWaiting ctx action id instanceId = .ok token) : Addressed ctx id token := by
  obtain ⟨hget, hwaiting⟩ := requireWaiting_ok h
  have hid : token.id = id := KeyedMap.key_of_get? hget
  exact ⟨ctx.mem_pool (KeyedMap.mem_of_get? hget), hid, hwaiting⟩

theorem Addressed.mem_ids {ctx : ExecutionContext} {id : Nat} {token : Token}
    (h : Addressed ctx id token) : token.id ∈ ctx.pool.ids :=
  List.mem_map.2 ⟨token.erase, h.mem, rfl⟩

/-! ## Completing -/

theorem pool_autoResume {ctx ctx' : ExecutionContext} (h : autoResume ctx = .ok ctx') :
    ctx'.pool = ctx.pool.autoResume := by
  unfold NexusWorkflow.autoResume at h
  obtain ⟨inst, hinst, h⟩ := Except.bind_eq_ok_iff.1 h
  have hstatus := status_of_requireInstance hinst
  split_ifs at h with hs
  · rw [← Except.ok.inj h, pool_emit_of_cancelledIds _ rfl, pool_setInstance]
    simp [Pool.autoResume, hstatus, hs]
  · have hne : ctx.pool.status ≠ some .suspended := by simpa [hstatus] using hs
    rw [← Except.ok.inj h, Pool.autoResume, if_neg hne]

/-- The role of the token, its throw token without time stamps. -/
def CompletionRole.erase : CompletionRole → CompletionRole
  | .handler throwToken => .handler throwToken.erase
  | role => role

theorem pool_role (ctx : ExecutionContext) (token : Token) (e : BpmnFlowElement) :
    (completionRole ctx token e).erase = ctx.pool.role token.erase e := by
  have hparent : (token.parentTokenId.bind ctx.tokenMap.get?).map Token.erase =
      token.erase.parentTokenId.bind ctx.pool.get? := by
    rw [Token.parentTokenId_erase]
    cases token.parentTokenId with
    | none => rfl
    | some id => exact pool_get? ctx id
  unfold completionRole Pool.role
  rw [← hparent]
  cases token.parentTokenId.bind ctx.tokenMap.get? with
  | none => rfl
  | some parent =>
    by_cases hsource : (parent.elementType = .intermediateThrowEvent
      ∨ parent.elementType = .endEvent) ∧ e.isForCompensation
    all_goals
      cases e.loopCharacteristics with
      | none => simp [hsource, Option.filter, CompletionRole.erase]
      | some lc =>
        by_cases hsame : parent.elementId = token.elementId <;>
          simp [hsource, hsame, Option.filter, CompletionRole.erase]

theorem mem_ids_of_role {ctx : ExecutionContext} {token throwToken : Token} {e : BpmnFlowElement}
    (h : completionRole ctx token e = .handler throwToken) : throwToken.id ∈ ctx.pool.ids := by
  unfold completionRole at h
  cases hp : token.parentTokenId.bind ctx.tokenMap.get? with
  | none => simp [hp] at h
  | some parent =>
    obtain ⟨id, -, hget⟩ := Option.bind_eq_some_iff.1 hp
    simp only [hp] at h
    split at h
    · cases h
    · split_ifs at h
      · cases h
        exact mem_ids_of_get? hget

theorem handleCompensationHandlerCompletion_handlerDone {ctx ctx' : ExecutionContext}
    {h throwToken : Token} (hn : ctx.pool.Numbered) (hh : h.id ∈ ctx.pool.ids)
    (hth : throwToken.id ∈ ctx.pool.ids)
    (hok : handleCompensationHandlerCompletion d ctx h throwToken = .ok ctx') :
    ∃ Q origins, HandlerDone d h.erase throwToken.erase ctx.pool Q origins ∧
      Spawned (Made d) origins Q ctx'.pool := by
  have hput := pool_setStatus_completed hh
  have hth1 : throwToken.id ∈ (ctx.setStatus h .completed).pool.ids := by
    rw [hput, Pool.finish, Pool.ids_put]
    exact hth
  have hn1 : (ctx.setStatus h .completed).pool.Numbered := by
    rw [hput]
    exact hn.put _
  unfold handleCompensationHandlerCompletion at hok
  generalize ctx.setStatus h .completed = done at hok hput hth1 hn1
  have hall := all_finished_iff done throwToken.erase.id
  rw [hput] at hall
  simp only at hok
  split_ifs at hok with hfin
  · obtain ⟨inst, -, hok⟩ := Except.bind_eq_ok_iff.1 hok
    have htold : (done.emit (.compensationCompleted inst.id throwToken.id
        throwToken.elementId)).pool = ctx.pool.finish h.erase := by
      rw [pool_emit_of_cancelledIds _ rfl, hput]
    generalize done.emit (.compensationCompleted inst.id throwToken.id
      throwToken.elementId) = told at hok htold
    have hnt : told.pool.Numbered := by
      rw [htold, ← hput]
      exact hn1
    have htht : throwToken.id ∈ told.pool.ids := by
      rw [htold, ← hput]
      exact hth1
    obtain ⟨e, he, hok⟩ := Except.bind_eq_ok_iff.1 hok
    replace he : d.getElement throwToken.erase.elementId = .ok e := he
    have hadvance : (e.isCancelEnd = false ∨ truthy throwToken.erase.subProcessInstanceId = none) →
        advanceToken d told throwToken e = .ok ctx' →
        ∃ Q origins, HandlerDone d h.erase throwToken.erase ctx.pool Q origins ∧
          Spawned (Made d) origins Q ctx'.pool := by
      intro hc hadv
      have hsp := advanceToken_spawned hnt htht hadv
      rw [htold] at hsp
      exact ⟨_, _, .advance (hall.1 hfin) he hc, hsp⟩
    cases hc : e.isCancelEnd with
    | false =>
      simp only [hc] at hok
      exact hadvance (Or.inl hc) hok
    | true =>
      cases htag : truthy throwToken.erase.subProcessInstanceId with
      | none =>
        rw [← Token.subProcessInstanceId_erase] at hok
        simp only [hc, htag] at hok
        exact hadvance (Or.inr htag) hok
      | some s =>
        rw [← Token.subProcessInstanceId_erase] at hok
        simp only [hc, htag] at hok
        have hwait := pool_waitingAt told s
        rw [htold] at hwait
        cases hf : told.getAllTokens.find? fun t => t.elementId = s ∧ t.status = .waiting with
        | none =>
          rw [hf] at hwait
          simp only [hf, Except.ok.injEq] at hok
          rw [← hok, htold]
          exact ⟨_, _, .orphan (hall.1 hfin) he hc htag hwait.symm, .nil⟩
        | some outer =>
          rw [hf] at hwait
          simp only [hf] at hok
          obtain ⟨Q, origins, hfire, hsp⟩ :=
            fireCancelBoundary_fireCancel hnt (mem_ids_of_find? hf) hok
          rw [htold] at hfire
          exact ⟨Q, origins, .fire (hall.1 hfin) he hc htag hwait.symm hfire, hsp⟩
  · rw [← Except.ok.inj hok, hput]
    exact ⟨_, _, .wait fun hc => hfin (hall.2 hc), .nil⟩

theorem recordCompensationIfNeeded_pool {ctx ctx' : ExecutionContext} {token : Token}
    {e : BpmnFlowElement} (h : recordCompensationIfNeeded d ctx token e = .ok ctx') :
    ∃ records, Recorded d token.erase e ctx.pool.records records ∧
      ctx'.pool = { ctx.pool with records } := by
  unfold recordCompensationIfNeeded at h
  split at h
  · rename_i hfind
    refine ⟨ctx.pool.records, .none ?_, by rw [← Except.ok.inj h]⟩
    rw [ProcessDefinition.compensationHandler, hfind, Option.bind_none]
  · rename_i compBoundary hfind
    have hhandler : d.compensationHandler e.id =
        truthy compBoundary.eventDefinition.compensationActivityRef := by
      rw [ProcessDefinition.compensationHandler, hfind, Option.bind_some]
    split at h
    · rename_i hnone
      exact ⟨ctx.pool.records, .none (hhandler.trans hnone), by rw [← Except.ok.inj h]⟩
    · rename_i handlerId hsome
      obtain ⟨inst, -, h⟩ := Except.bind_eq_ok_iff.1 h
      rw [← Except.ok.inj h]
      exact ⟨_, .file (hhandler.trans hsome) rfl rfl, rfl⟩

theorem handleCompleteTask_complete {ctx ctx' : ExecutionContext} {id : Nat}
    {vars : Option Variables} (hn : ctx.pool.Numbered)
    (h : handleCompleteTask d ctx id vars = .ok ctx') :
    ∃ token Q origins, Addressed ctx id token ∧ Complete d ctx.pool token.erase Q origins ∧
      Spawned (Made d) origins Q ctx'.pool := by
  unfold handleCompleteTask at h
  obtain ⟨token, htoken, h⟩ := Except.bind_eq_ok_iff.1 h
  have haddr := requireWaiting_addressed htoken
  obtain ⟨resumed, hresumed, h⟩ := Except.bind_eq_ok_iff.1 h
  obtain ⟨merged, hmerged, h⟩ := Except.bind_eq_ok_iff.1 h
  obtain ⟨e, he, h⟩ := Except.bind_eq_ok_iff.1 h
  replace he : d.getElement token.erase.elementId = .ok e := he
  have hpool : merged.pool = ctx.pool.autoResume := by
    rw [pool_mergeOutput hmerged, pool_autoResume hresumed]
  have hnum : merged.pool.Numbered := by
    rw [hpool]
    exact hn
  have hmem : token.id ∈ merged.pool.ids := by
    rw [hpool]
    exact haddr.mem_ids
  have hrole := pool_role merged token e
  rw [hpool, show ctx.pool.autoResume.role token.erase e = ctx.pool.role token.erase e from rfl]
    at hrole
  refine ⟨token, ?_⟩
  cases hr : completionRole merged token e with
  | child lc =>
    rw [hr] at hrole
    simp only [hr] at h
    obtain ⟨told, htold, h⟩ := Except.bind_eq_ok_iff.1 h
    have htold := pool_emitChildCompleted htold
    obtain ⟨Q, origins, hdone, hsp⟩ := handleMultiInstanceChildCompletion_childDone
      (by rw [htold]; exact hnum) (by rw [htold]; exact hmem) h
    rw [htold, hpool] at hdone
    exact ⟨Q, origins, haddr, .child he hrole.symm hdone, hsp⟩
  | handler throwToken =>
    have hth := mem_ids_of_role hr
    rw [hr] at hrole
    simp only [hr] at h
    obtain ⟨Q, origins, hdone, hsp⟩ :=
      handleCompensationHandlerCompletion_handlerDone hnum hmem hth h
    rw [hpool] at hdone
    exact ⟨Q, origins, haddr, .handler he hrole.symm hdone, hsp⟩
  | plain =>
    rw [hr] at hrole
    simp only [hr] at h
    obtain ⟨inst, -, h⟩ := Except.bind_eq_ok_iff.1 h
    obtain ⟨recorded, hrecorded, h⟩ := Except.bind_eq_ok_iff.1 h
    obtain ⟨records, hrecords, hrec⟩ := recordCompensationIfNeeded_pool hrecorded
    have hbefore : (cancelBoundaryTokensFor (merged.emit (.serviceTaskCompleted inst.id id
        token.elementId 0)) token.elementId).pool =
        ctx.pool.autoResume.clearBoundaries token.erase.elementId := by
      rw [pool_cancelBoundaryTokensFor, pool_emit_of_cancelledIds _ rfl, hpool]
      rfl
    rw [hbefore] at hrecords hrec
    have hcleared : recorded.pool =
        { ctx.pool.autoResume.clearBoundaries token.erase.elementId with records } := hrec
    have hadv := advanceToken_spawned
      (by rw [hcleared]; exact numbered_of_tokens (hn.cancelAll _) rfl rfl)
      (by
        rw [hcleared]
        have : token.id ∈ (ctx.pool.autoResume.clearBoundaries token.erase.elementId).ids := by
          rw [Pool.clearBoundaries, Pool.ids_cancelAll]
          exact haddr.mem_ids
        exact this) h
    rw [hcleared] at hadv
    exact ⟨_, _, haddr, .plain he hrole.symm hrecords, hadv⟩

/-! ## Timers and failures -/

theorem pool_cancelHostTaskAndBoundaries (ctx : ExecutionContext) (attachedToRef : String)
    (firing : Option Nat) :
    (cancelHostTaskAndBoundaries ctx attachedToRef firing).pool =
      ctx.pool.clearHost attachedToRef firing :=
  ctx.pool_cancelTokens fun _ => rfl

theorem pool_cancelEbgSiblings (ctx : ExecutionContext) (winner : Token) :
    (cancelEbgSiblings ctx winner).pool = ctx.pool.clearSiblings winner.erase := by
  unfold cancelEbgSiblings Pool.clearSiblings
  rw [Token.parentTokenId_erase]
  cases winner.parentTokenId with
  | none => rfl
  | some parent => exact ctx.pool_cancelTokens fun _ => rfl

theorem clearSiblings_numbered {P : Pool} (h : P.Numbered) (w : Token) :
    (P.clearSiblings w).Numbered := by
  unfold Pool.clearSiblings
  cases w.parentTokenId with
  | none => exact h
  | some parent => exact h.cancelAll _

theorem handleFailServiceTask_deed {ctx ctx' : ExecutionContext} {id : Nat} {code message : String}
    (hn : ctx.pool.Numbered) (hok : handleFailServiceTask d ctx id code message = .ok ctx') :
    ∃ Q origins, Deed d ctx.pool (.failServiceTask id code message) Q origins ∧
      Spawned (Made d) origins Q ctx'.pool := by
  unfold handleFailServiceTask at hok
  obtain ⟨token, htoken, hrest⟩ := Except.bind_eq_ok_iff.1 hok
  have haddr := requireWaiting_addressed htoken
  obtain rfl := haddr.id_eq
  obtain ⟨inst, -, h⟩ := Except.bind_eq_ok_iff.1 hrest
  simp only at h
  have htold : (ctx.emit (.serviceTaskFailed inst.id token.id token.elementId message 1)).pool =
      ctx.pool := pool_emit_of_cancelledIds _ rfl
  generalize ctx.emit (.serviceTaskFailed inst.id token.id token.elementId message 1) = told
    at h htold
  cases hb : d.findMatchingErrorBoundary token.elementId code with
  | some b =>
    simp only [hb] at h
    have h1 := told.now.2.pool_cancelToken (t := token) told.now.1 (by
      rw [pool_now, htold]
      exact haddr.mem_ids)
    rw [pool_now, htold] at h1
    have h2 : (cancelHostTaskAndBoundaries (told.now.2.cancelToken token told.now.1)
        token.elementId none).pool =
        (ctx.pool.cancelOne token.erase).clearHost token.erase.elementId none := by
      rw [pool_cancelHostTaskAndBoundaries, h1]
      rfl
    have hmoves := moveTokenToFlows_spawned (t := token) (by
      rw [pool_emit_of_cancelledIds _ rfl, pool_emit_of_cancelledIds _ rfl, h2]
      exact (hn.put _).cancelAll _) h
    rw [pool_emit_of_cancelledIds _ rfl, pool_emit_of_cancelledIds _ rfl, h2] at hmoves
    exact ⟨_, _, .failCaught message haddr.mem haddr.waiting hb, hmoves⟩
  | none =>
    simp only [hb, Except.ok.injEq] at h
    refine ⟨_, _, .failUncaught message haddr.mem haddr.waiting hb, ?_⟩
    rw [← h, pool_emit_of_cancelledIds _ rfl, pool_emit_of_cancelledIds _ rfl, pool_setInstance,
      htold]
    exact .nil

theorem Addressed.eq_of_id {ctx : ExecutionContext} {id : Nat} {token : Token} {x : Token}
    (h : Addressed ctx id token) (hx : x ∈ ctx.pool.tokens) (hid : x.id = id) :
    x = token.erase :=
  List.inj_on_of_nodup_map ctx.nodup_pool hx h.mem (hid.trans h.id_eq.symm)

theorem handleFireTimer_deed {ctx ctx' : ExecutionContext} {id : Nat} (hn : ctx.pool.Numbered)
    (h : handleFireTimer d ctx id = .ok ctx') :
    ∃ Q origins, Deed d ctx.pool (.fireTimer id) Q origins ∧
      Spawned (Made d) origins Q ctx'.pool := by
  unfold handleFireTimer at h
  obtain ⟨token, htoken, h⟩ := Except.bind_eq_ok_iff.1 h
  have haddr := requireWaiting_addressed htoken
  obtain rfl := haddr.id_eq
  by_cases htype : token.elementType = .boundaryEvent
  · rw [if_pos htype] at h
    obtain ⟨e, he, h⟩ := Except.bind_eq_ok_iff.1 h
    replace he : d.getElement token.erase.elementId = .ok e := he
    have hput := pool_setStatus_completed haddr.mem_ids
    generalize ctx.setStatus token .completed = done at h hput
    have hplain : (∀ b, e = .boundaryEvent b → b.cancelActivity = false) →
        moveTokenToFlows d done token e.outgoingFlows = .ok ctx' →
        ∃ Q origins, Deed d ctx.pool (.fireTimer token.erase.id) Q origins ∧
          Spawned (Made d) origins Q ctx'.pool := by
      intro hb h
      have hmoves := moveTokenToFlows_spawned (by rw [hput]; exact hn.put _) h
      rw [hput] at hmoves
      exact ⟨_, _, .fireBoundary haddr.mem haddr.waiting htype he hb, hmoves⟩
    cases e with
    | boundaryEvent b =>
      by_cases hb : b.cancelActivity = true
      · simp only [if_pos hb] at h
        have hcancel := pool_cancelHostTaskAndBoundaries done b.attachedToRef (some token.erase.id)
        rw [hput] at hcancel
        have hmoves := moveTokenToFlows_spawned (by
          rw [hcancel]
          exact (hn.put _).cancelAll _) h
        rw [hcancel] at hmoves
        exact ⟨_, _, .fireInterrupting haddr.mem haddr.waiting htype he hb, hmoves⟩
      · simp only [if_neg hb] at h
        refine hplain ?_ h
        rintro b' ⟨⟩
        simpa using hb
    | _ => exact hplain (by rintro b ⟨⟩) h
  · rw [if_neg htype] at h
    have hcancel := pool_cancelEbgSiblings ctx token
    obtain ⟨w, Q, origins, hw, hQ, hsp⟩ := handleCompleteTask_complete
      (by rw [hcancel]; exact clearSiblings_numbered hn _) h
    -- the winner itself is not cancelled
    have hmem : token.erase ∈ (cancelEbgSiblings ctx token).pool.tokens := by
      rw [hcancel, Pool.clearSiblings]
      cases token.erase.parentTokenId with
      | none => exact haddr.mem
      | some parent =>
        refine List.mem_map.2 ⟨token.erase, haddr.mem, ?_⟩
        simp [Pool.kill]
    rw [hcancel, ← hw.eq_of_id hmem rfl] at hQ
    exact ⟨Q, origins, .fireCatch haddr.mem haddr.waiting htype hQ, hsp⟩

/-! ## Messages and signals -/

theorem get?_id {P : Pool} {id : Nat} {x : Token} (h : P.get? id = some x) : x.id = id := by
  unfold Pool.get? at h
  simpa using List.find?_some h

theorem waiting_of_mem_put {P : Pool} {t x : Token} (ht : t.status ≠ .waiting)
    (hx : x ∈ (P.put t).tokens) (hwaiting : x.status = .waiting) : x ∈ P.tokens := by
  rcases Pool.mem_put hx with rfl | ⟨hx, -⟩
  · exact absurd hwaiting ht
  · exact hx

theorem waiting_of_mem_cancelAll {P : Pool} {p : Token → Bool} {x : Token}
    (hx : x ∈ (P.cancelAll p).tokens) (hwaiting : x.status = .waiting) : x ∈ P.tokens := by
  rcases Pool.mem_cancelAll hx with ⟨hx, -⟩ | ⟨y, -, -, rfl⟩
  · exact hx
  · cases hwaiting

theorem waiting_of_mem_clearSiblings {P : Pool} {w x : Token}
    (hx : x ∈ (P.clearSiblings w).tokens) (hwaiting : x.status = .waiting) : x ∈ P.tokens := by
  unfold Pool.clearSiblings at hx
  cases hp : w.parentTokenId with
  | none =>
    rw [hp] at hx
    exact hx
  | some parent =>
    rw [hp] at hx
    exact waiting_of_mem_cancelAll hx hwaiting

theorem waiting_of_spawned {α : Type} {R : α → Token → Prop} {items : List α} {P P' : Pool}
    (h : Spawned R items P P') {x : Token} (hx : x ∈ P'.tokens) (hwaiting : x.status = .waiting) :
    x ∈ P.tokens := by
  obtain ⟨news, n, -, hfresh, rfl⟩ := h
  rcases List.mem_append.1 hx with hx | hx
  · exact hx
  · rw [hfresh.active x hx] at hwaiting
    cases hwaiting

theorem resumeTarget_resume {ctx ctx' : ExecutionContext} {token : Token} {vars : Option Variables}
    (hn : ctx.pool.Numbered) (h : resumeTarget d vars ctx token = .ok ctx') :
    (∃ x, ctx.pool.get? token.erase.id = some x ∧ x.status ≠ .waiting ∧ ctx' = ctx) ∨
    ∃ x Q origins, ctx.pool.get? token.erase.id = some x ∧ x.status = .waiting ∧
      Resume d ctx.pool token.erase Q origins ∧ Spawned (Made d) origins Q ctx'.pool := by
  unfold resumeTarget at h
  obtain ⟨current, hcurrent, h⟩ := Except.bind_eq_ok_iff.1 h
  have hget := requireToken_ok hcurrent
  have hx : ctx.pool.get? token.erase.id = some current.erase := by
    rw [← pool_get?, show token.erase.id = token.id from rfl, hget]
    rfl
  by_cases hs : current.status ≠ .waiting
  · rw [if_pos hs] at h
    exact Or.inl ⟨_, hx, hs, (Except.ok.inj h).symm⟩
  · rw [if_neg hs] at h
    obtain ⟨merged, hmerged, h⟩ := Except.bind_eq_ok_iff.1 h
    simp only at h
    have hpool := pool_mergeOutput hmerged
    have hid : token.id ∈ merged.pool.ids := by
      rw [hpool]
      have : current.id = token.id := KeyedMap.key_of_get? hget
      exact this ▸ mem_ids_of_get? hget
    have hput := pool_setStatus_completed hid
    rw [hpool] at hput
    have hcancel := pool_cancelEbgSiblings (merged.setStatus token .completed) token
    rw [hput] at hcancel
    unfold advanceTokenFlows at h
    obtain ⟨e, he, h⟩ := Except.bind_eq_ok_iff.1 h
    have hmoves := moveTokenToFlows_spawned (by
      rw [hcancel]
      exact clearSiblings_numbered (hn.put _) _) h
    rw [hcancel] at hmoves
    exact Or.inr ⟨_, _, _, hx, by simpa using hs, .mk he, hmoves⟩

theorem resumeTargets_resumes {ctx ctx' : ExecutionContext} {vars : Option Variables}
    {P : Pool} (hP : P.ids.Nodup) {targets : List Token} (hn : ctx.pool.Numbered)
    (htargets : ∀ w ∈ targets, w.erase ∈ P.tokens ∧ w.status = .waiting)
    (hold : ∀ x ∈ ctx.pool.tokens, x.status = .waiting → x ∈ P.tokens)
    (h : targets.foldlM (resumeTarget d vars) ctx = .ok ctx') :
    Resumes d (targets.map Token.erase) ctx.pool ctx'.pool := by
  induction targets generalizing ctx with
  | nil =>
    rw [List.foldlM_nil, Except.pure_eq_ok_iff] at h
    exact h ▸ .nil _
  | cons w rest ih =>
    obtain ⟨mid, hmid, hlater⟩ := Except.foldlM_cons_eq_ok_iff.1 h
    have hrest := fun x hx => htargets x (List.mem_cons_of_mem w hx)
    rcases resumeTarget_resume hn hmid with ⟨x, hx, hs, heq⟩ | ⟨x, Q, origins, hx, hs, hres, hsp⟩
    · subst heq
      exact .skip hx hs (ih hn hrest hold hlater)
    · have hxm : x ∈ ctx.pool.tokens := List.mem_of_find?_eq_some hx
      have hxid : x.id = w.erase.id := get?_id hx
      have hw := htargets w List.mem_cons_self
      have hxw : x = w.erase := List.inj_on_of_nodup_map hP (hold x hxm hs) hw.1 hxid
      refine .resume (hxw ▸ hxm) hw.2 hres hsp (ih ?_ hrest ?_ hlater)
      · obtain ⟨he⟩ := hres
        exact hsp.numbered (clearSiblings_numbered (hn.put _) _)
      · intro y hy hys
        obtain ⟨he⟩ := hres
        have := waiting_of_mem_clearSiblings (waiting_of_spawned hsp hy hys) hys
        exact hold y (waiting_of_mem_put (by simp) this hys) hys

theorem resumeTargets_pool {ctx ctx' : ExecutionContext} {isTarget : Token → Bool}
    {vars : Option Variables} (hn : ctx.pool.Numbered) (hp : ∀ t, isTarget t.erase = isTarget t)
    (h : resumeTargets d ctx isTarget vars = .ok ctx') :
    Resumes d (ctx.pool.tokens.filter fun t => t.status = .waiting && isTarget t) ctx.pool
      ctx'.pool := by
  have hfilter := ctx.filter_pool (p := fun t => t.status = .waiting && isTarget t)
    fun t => by rw [hp]; rfl
  rw [← hfilter]
  refine resumeTargets_resumes ctx.nodup_pool hn (fun w hw => ?_) (fun _ hx _ => hx) h
  have hw := List.mem_filter.1 hw
  refine ⟨ctx.mem_pool hw.1, ?_⟩
  have := hw.2
  simp only [Bool.and_eq_true, decide_eq_true_eq] at this
  exact this.1

/-! ## All commands -/

theorem handleStartProcess_deed {ctx ctx' : ExecutionContext} {vars : Option Variables}
    {correlationKey businessKey : Option String} (hn : ctx.pool.Numbered)
    (h : handleStartProcess d ctx vars correlationKey businessKey = .ok ctx') :
    Spawned (Made d) [.start] { ctx.pool with status := some .active } ctx'.pool := by
  unfold handleStartProcess at h
  simp only at h
  obtain ⟨e, he, h⟩ := Except.bind_eq_ok_iff.1 h
  rw [← Except.ok.inj h]
  have hle : ctx.pool.nextId ≤ ctx.pool.nextId + 2 := by omega
  refine Spawned.of_skip (n := ctx.pool.nextId + 2) ?_ hle
  set placed := ((((ctx.now.2.newId.2.newId.2.saveScope
    { id := ctx.now.2.newId.2.newId.1, vars := vars.getD ∅ }).setInstance
    { id := ctx.now.2.newId.1, definitionId := d.id, definitionVersion := d.version,
      status := .active, rootScopeId := ctx.now.2.newId.2.newId.1, startedAt := ctx.now.1,
      correlationKey, businessKey }).emit
    (.processInstanceStarted ctx.now.2.newId.1 d.id d.version))) with hplaced
  have hpool : placed.pool =
      ({ ctx.pool with status := some .active } : Pool).spawn [] (ctx.pool.nextId + 2) := by
    rw [hplaced, pool_emit_of_cancelledIds _ rfl]
    simp [newId, now, saveScope, setInstance, pool, Pool.spawn]
  have hnum : placed.pool.Numbered := by
    rw [hpool]
    exact (numbered_of_tokens (Q := { ctx.pool with status := some .active }) hn rfl rfl).spawn
      ⟨List.nodup_nil, by simp, by simp, by simp, hle⟩
  rw [← hpool]
  exact spawned_place hnum ⟨_, e, _, he, rfl⟩

/-- What a command handler does is a move of the token game. -/
theorem handleCommand_commanded {ctx ctx' : ExecutionContext} {command : EngineCommand}
    (hn : ctx.pool.Numbered) (h : handleCommand d ctx command = .ok ctx') :
    Commanded d ctx.pool command ctx'.pool := by
  cases command with
  | startProcess vars correlationKey businessKey =>
    exact .deed (.startProcess vars correlationKey businessKey) (handleStartProcess_deed hn h)
  | completeServiceTask id vars =>
    obtain ⟨w, Q, origins, hw, hQ, hsp⟩ := handleCompleteTask_complete hn h
    obtain rfl := hw.id_eq
    exact .deed (.completeServiceTask vars hw.mem hw.waiting hQ) hsp
  | failServiceTask id code message =>
    obtain ⟨Q, origins, hQ, hsp⟩ := handleFailServiceTask_deed hn h
    exact .deed hQ hsp
  | completeUserTask id completedBy vars =>
    obtain ⟨w, Q, origins, hw, hQ, hsp⟩ := handleCompleteTask_complete hn h
    obtain rfl := hw.id_eq
    exact .deed (.completeUserTask completedBy vars hw.mem hw.waiting hQ) hsp
  | fireTimer id =>
    obtain ⟨Q, origins, hQ, hsp⟩ := handleFireTimer_deed hn h
    exact .deed hQ hsp
  | deliverMessage name vars =>
    exact .deliverMessage name vars (resumeTargets_pool hn (fun _ => rfl) h)
  | broadcastSignal name vars =>
    exact .broadcastSignal name vars (resumeTargets_pool hn (fun _ => rfl) h)
  | suspendInstance =>
    simp only [handleCommand, handleSuspendInstance] at h
    obtain ⟨inst, hinst, h⟩ := Except.bind_eq_ok_iff.1 h
    have hstatus := status_of_requireInstance hinst
    split_ifs at h with hs
    rw [← Except.ok.inj h, pool_emit_of_cancelledIds _ rfl, pool_setInstance]
    exact .deed (.suspendInstance (by rw [hstatus]; simpa using hs)) .nil
  | resumeInstance =>
    simp only [handleCommand, handleResumeInstance] at h
    obtain ⟨inst, hinst, h⟩ := Except.bind_eq_ok_iff.1 h
    have hstatus := status_of_requireInstance hinst
    split_ifs at h with hs
    rw [← Except.ok.inj h, pool_emit_of_cancelledIds _ rfl, pool_setInstance]
    exact .deed (.resumeInstance (by rw [hstatus]; simpa using hs)) .nil
  | cancelInstance =>
    simp only [handleCommand, handleCancelInstance] at h
    obtain ⟨inst, -, h⟩ := Except.bind_eq_ok_iff.1 h
    rw [← Except.ok.inj h, pool_emit_of_cancelledIds _ rfl, pool_setInstance,
      ctx.pool_cancelTokens fun _ => rfl]
    exact .deed .cancelInstance .nil

end NexusWorkflow
