import NexusWorkflow.Game.Helpers
import NexusWorkflow.Game.Coherence
import NexusWorkflow.Model.Persist

/-!
# Effects on the context

What a handler can do to a context besides its moves in the token game: a list of kinds of changes.
Each handler is a sequence of them, `Effects`, so that a property of contexts is kept by the engine
once it is kept by each kind.  Some changes are made on behalf of a token that has to be in the
token map.  Of a state that was put together from rows of different versions this cannot be said,
and that it can is assumed where it is needed.
-/

namespace NexusWorkflow

open ExecutionContext

/-- The instance without what the engine changes about it. -/
def ProcessInstance.core (i : ProcessInstance) : ProcessInstance :=
  { i with status := .active, completedAt := none, errorInfo := none }

/-- The event says that a token waits. -/
def ExecutionEvent.isTokenWaiting : ExecutionEvent → Bool
  | .tokenWaiting _ _ _ _ => true
  | _ => false

namespace ExecutionContext

/-- The instance of a new token: that of the token it is made for, or that of the context. -/
def Owns (ctx : ExecutionContext) (source : Token) (instanceId : Nat) : Prop :=
  instanceId = source.instanceId ∨ ctx.inst.map (·.id) = some instanceId

/-- The times of the token are in order, and the clock will show nothing before them. -/
def Times (ctx : ExecutionContext) (t : Token) : Prop :=
  t.createdAt ≤ t.updatedAt ∧ ∀ n, ctx.readings ≤ n → t.updatedAt ≤ ctx.options.now n

/-- The clock does not go back, and the times of all tokens are in order. -/
structure Timed (ctx : ExecutionContext) : Prop where
  clock : Monotone ctx.options.now
  tokens : ∀ x ∈ ctx.tokenMap.values, ctx.Times x

end ExecutionContext

/-- What is assumed about a call. -/
structure Assumed where
  /-- The tokens on whose behalf changes are made are in the map. -/
  sound : Prop
  /-- A token may start to wait for a user. -/
  user : Prop
  /-- The clock does not go back. -/
  timed : Prop := False

/-- What is known of a token on whose behalf a change is made. -/
structure Assumed.Vouches (A : Assumed) (ctx : ExecutionContext) (t : Token) : Prop where
  place : A.sound → ctx.pool.Holds t.erase
  times : A.timed → ctx.Times t

inductive Effect (A : Assumed) (ctx : ExecutionContext) : ExecutionContext → Prop
  | now : Effect A ctx ctx.now.2
  | newId : Effect A ctx ctx.newId.2
  | emit (event : ExecutionEvent) (h : event.isTokenWaiting = false) :
      Effect A ctx (ctx.emit event)
  | setInstance {i j : ProcessInstance} (hi : ctx.inst = some i) (hj : j.core = i.core) :
      Effect A ctx (ctx.setInstance j)
  | updateToken (t : Token) (ht : A.Vouches ctx t) : Effect A ctx (ctx.updateToken t)
  | park (t : Token) (condition : WaitCondition) (hw : condition.type = .userTask → A.user)
      (ht : A.Vouches ctx t) :
      Effect A ctx (suspendTokenWithCondition ctx t condition)
  | createToken (source : Token) (hs : A.sound → ctx.pool.Holds source.erase) {instanceId : Nat}
      (hi : ctx.Owns source instanceId) (elementId : String) (elementType : BpmnElementType)
      (via : Option String) (parent : Option Nat) (tag : Option String) :
      Effect A ctx
        (ctx.createToken instanceId elementId elementType source.scopeId via parent tag).2
  | createInScope (source : Token) (hs : A.sound → ctx.pool.Holds source.erase) {instanceId : Nat}
      (hi : ctx.Owns source instanceId) (scope : VariableScope) (elementId : String)
      (elementType : BpmnElementType) (via : Option String) (parent : Option Nat)
      (tag : Option String) :
      Effect A ctx ((ctx.saveScope scope).createToken instanceId elementId elementType scope.id
        via parent tag).2
  | enqueue {t : Token} (ht : t ∈ ctx.tokenMap.values) : Effect A ctx (ctx.enqueuePending t)
  | dequeue {t : Token} {rest : List Token} (h : ctx.pendingQueue = t :: rest) :
      Effect A ctx { ctx with pendingQueue := rest }
  | merge {scope : VariableScope} (h : ctx.scopeMap.get? scope.id = some scope) (vars : Variables) :
      Effect A ctx (ctx.saveScope { scope with vars })
  | joins (joins : KeyedMap GatewayJoinState.gatewayId)
      (h : ∀ s ∈ joins.values, (∃ s₀ ∈ ctx.joinStateMap.values, s₀.key = s.key) ∨
        ctx.inst.map (·.id) = some s.key.2) :
      Effect A ctx { ctx with joinStateMap := joins }
  | records (records : List CompensationRecord)
      (h : ∀ r ∈ records, r ∈ ctx.compensationList ∨ ctx.inst.map (·.id) = some r.instanceId) :
      Effect A ctx { ctx with compensationList := records }

/-- Any number of effects. -/
inductive Effects (A : Assumed) : ExecutionContext → ExecutionContext → Prop
  | refl (ctx : ExecutionContext) : Effects A ctx ctx
  | tail {ctx mid ctx' : ExecutionContext} (h : Effects A ctx mid)
      (e : Effect A mid ctx') : Effects A ctx ctx'

variable {d : ProcessDefinition} {A : Assumed} {ctx mid ctx' c : ExecutionContext}

namespace Effects

theorem one (e : Effect A ctx ctx') : Effects A ctx ctx' := .tail (.refl ctx) e

theorem trans (h : Effects A ctx mid) (h' : Effects A mid ctx') :
    Effects A ctx ctx' := by
  induction h' with
  | refl => exact h
  | tail _ e ih => exact .tail ih e

end Effects

/-! ## Tokens stay in the map -/

/-- What is known of the context before a change. -/
structure Assumed.Grants (A : Assumed) (ctx : ExecutionContext) : Prop where
  numbered : A.sound → ctx.pool.Numbered
  timed : A.timed → ctx.Timed

/-- What is known of the context and of a token before a change. -/
structure Ready (A : Assumed) (ctx : ExecutionContext) (t : Token) : Prop
    extends A.Grants ctx, A.Vouches ctx t

theorem Assumed.Grants.of_mem {t : Token} (h : A.Grants ctx) (ht : t ∈ ctx.tokenMap.values) :
    Ready A ctx t :=
  ⟨h, fun _ => Pool.holds_of_mem (mem_pool _ ht), fun htime => (h.timed htime).tokens t ht⟩

theorem Ready.of_mem {t x : Token} (h : Ready A ctx t) (hx : x ∈ ctx.tokenMap.values) :
    Ready A ctx x :=
  h.toGrants.of_mem hx

theorem Ready.of_find {t x : Token} {p : Token → Bool} (h : Ready A ctx t)
    (hx : ctx.getAllTokens.find? p = some x) : Ready A ctx x :=
  h.of_mem (List.mem_of_find?_eq_some hx)

theorem Ready.of_get? {t x : Token} {id : Nat} (h : Ready A ctx t)
    (hx : ctx.tokenMap.get? id = some x) : Ready A ctx x :=
  h.of_mem (KeyedMap.mem_of_get? hx)

/-- A token that is stamped with the present time. -/
theorem Ready.stamp {t : Token} (h : Ready A ctx t) (status : TokenStatus)
    (waitingFor : Option WaitCondition) (loopState : Option LoopState) :
    A.Vouches ctx.now.2 { t with status, waitingFor, loopState, updatedAt := ctx.now.1 } where
  place hs := h.place hs
  times ht := by
    refine ⟨(h.times ht).1.trans ((h.times ht).2 _ (le_refl _)), fun n hn => ?_⟩
    exact (h.timed ht).clock (Nat.le_of_succ_le hn)

theorem Pool.Holds.put {P : Pool} {t x : Token} (hx : P.Holds x) (ht : P.Holds t)
    (hP : P.ids.Nodup) : (P.put t).Holds x := by
  obtain ⟨y, hy, hyx⟩ := Pool.holds_iff.1 hx
  obtain ⟨z, hz, hzt⟩ := Pool.holds_iff.1 ht
  by_cases hid : y.id = t.id
  · have hyz : y = z := Pool.eq_of_id hP hy hz (hid.trans (Token.id_of_bare hzt).symm)
    refine Pool.holds_iff.2 ⟨t, List.mem_map.2 ⟨y, hy, if_pos hid⟩, ?_⟩
    rw [← hyx, hyz, hzt]
  · exact Pool.holds_iff.2 ⟨y, Pool.mem_put_of_ne hy hid, hyx⟩

theorem Effect.keeps_update {t x : Token} (hn : ctx.pool.Numbered)
    (ht : ctx.pool.Holds t.erase) (hx : ctx.pool.Holds x.erase) :
    (ctx.updateToken t).pool.Numbered ∧ (ctx.updateToken t).pool.Holds x.erase := by
  rw [pool_updateToken ctx (t := t) ht.mem_ids]
  exact ⟨hn.put _, hx.put ht ctx.nodup_pool⟩

/-- A new token is filed. -/
theorem mem_createToken {instanceId : Nat} {elementId : String} {elementType : BpmnElementType}
    {scopeId : Nat} {via : Option String} {parent : Option Nat} {tag : Option String} :
    (ctx.createToken instanceId elementId elementType scopeId via parent tag).1 ∈
      (ctx.createToken instanceId elementId elementType scopeId via parent tag).2.tokenMap.values :=
  KeyedMap.mem_set.2 (.inl rfl)

/-- It is filed after the others. -/
theorem values_createToken (hn : ctx.pool.Numbered) (instanceId : Nat) (elementId : String)
    (elementType : BpmnElementType) (scopeId : Nat) (via : Option String) (parent : Option Nat)
    (tag : Option String) :
    (ctx.createToken instanceId elementId elementType scopeId via parent tag).2.tokenMap.values =
      ctx.tokenMap.values ++
        [(ctx.createToken instanceId elementId elementType scopeId via parent tag).1] := by
  refine KeyedMap.values_set_of_notMem fun hm => ?_
  obtain ⟨t, ht, hid⟩ := List.mem_map.1 hm
  have hlt : t.id < ctx.nextId := hn t.erase (ctx.mem_pool ht)
  have heq : t.id = ctx.nextId := hid
  omega

theorem Effect.keeps_create {x : Token} (hn : ctx.pool.Numbered) (hx : ctx.pool.Holds x.erase)
    (instanceId : Nat) (elementId : String) (elementType : BpmnElementType) (scopeId : Nat)
    (via : Option String) (parent : Option Nat) (tag : Option String) :
    (ctx.createToken instanceId elementId elementType scopeId via parent tag).2.pool.Numbered ∧
    (ctx.createToken instanceId elementId elementType scopeId via parent tag).2.pool.Holds
      x.erase := by
  have hvalues := values_createToken hn instanceId elementId elementType scopeId via parent tag
  have htokens : (ctx.createToken instanceId elementId elementType scopeId via parent
      tag).2.pool.tokens = ctx.pool.tokens ++
        [(ctx.createToken instanceId elementId elementType scopeId via parent tag).1.erase] := by
    rw [ExecutionContext.pool, hvalues, List.map_append]
    rfl
  constructor
  · intro t ht
    rw [htokens, List.mem_append, List.mem_singleton] at ht
    rcases ht with ht | rfl
    · exact (hn t ht).trans (Nat.lt_succ_self _)
    · exact Nat.lt_succ_self _
  · obtain ⟨y, hy, hyx⟩ := Pool.holds_iff.1 hx
    exact Pool.holds_iff.2 ⟨y, by rw [htokens]; exact List.mem_append_left _ hy, hyx⟩

/-- An effect keeps every token that is in the map at its place. -/
theorem Effect.keeps (e : Effect A ctx ctx') (hs : A.sound) (hn : ctx.pool.Numbered) :
    ctx'.pool.Numbered ∧ ∀ t : Token, ctx.pool.Holds t.erase → ctx'.pool.Holds t.erase := by
  cases e with
  | now | emit _ _ | setInstance _ _ | enqueue _ | dequeue _ | merge _ _ | joins _ _
  | records _ _ => exact ⟨hn, fun _ ht => ht⟩
  | newId => exact ⟨fun t ht => (hn t ht).trans (Nat.lt_succ_self _), fun _ ht => ht⟩
  | updateToken t ht =>
    exact ⟨(Effect.keeps_update hn (ht.place hs) (ht.place hs)).1,
      fun _ hx => (Effect.keeps_update hn (ht.place hs) hx).2⟩
  | park t condition _ ht =>
    have hn' : ctx.now.2.pool.Numbered := hn
    have hupdate := fun x => Effect.keeps_update (t := { t with
      status := .waiting, waitingFor := some condition, updatedAt := ctx.now.1 }) (x := x) hn'
      (ht.place hs)
    exact ⟨(hupdate t (ht.place hs)).1, fun _ hx => (hupdate _ hx).2⟩
  | createToken _ hsource _ _ _ _ _ _ =>
    exact ⟨(Effect.keeps_create hn (hsource hs) _ _ _ _ _ _ _).1,
      fun _ hx => (Effect.keeps_create hn hx _ _ _ _ _ _ _).2⟩
  | createInScope _ hsource _ scope _ _ _ _ _ =>
    have hn' : (ctx.saveScope scope).pool.Numbered := hn
    exact ⟨(Effect.keeps_create hn' (hsource hs) _ _ _ _ _ _ _).1,
      fun _ hx => (Effect.keeps_create hn' hx _ _ _ _ _ _ _).2⟩

theorem Effects.keeps (h : Effects A ctx ctx') (hs : A.sound) (hn : ctx.pool.Numbered) :
    ctx'.pool.Numbered ∧ ∀ t : Token, ctx.pool.Holds t.erase → ctx'.pool.Holds t.erase := by
  induction h with
  | refl => exact ⟨hn, fun _ ht => ht⟩
  | tail _ e ih =>
    obtain ⟨hn', hkeep⟩ := e.keeps hs ih.1
    exact ⟨hn', fun t ht => hkeep t (ih.2 t ht)⟩

namespace ExecutionContext.Timed

theorem now (h : ctx.Timed) : ctx.now.2.Timed :=
  ⟨h.clock, fun x hx => ⟨(h.tokens x hx).1, fun n hn => (h.tokens x hx).2 n (Nat.le_of_succ_le hn)⟩⟩

theorem updateToken {t : Token} (h : ctx.Timed) (ht : ctx.Times t) : (ctx.updateToken t).Timed := by
  refine ⟨h.clock, fun x hx => ?_⟩
  rcases KeyedMap.mem_set.1 hx with rfl | ⟨hx, -⟩
  · exact ht
  · exact h.tokens x hx

theorem createToken (h : ctx.Timed) (instanceId : Nat) (elementId : String)
    (elementType : BpmnElementType) (scopeId : Nat) (via : Option String) (parent : Option Nat)
    (tag : Option String) :
    (ctx.createToken instanceId elementId elementType scopeId via parent tag).2.Timed := by
  have hid : ctx.newId.2.Timed := ⟨h.clock, h.tokens⟩
  refine hid.now.now.updateToken ⟨h.clock (Nat.le_succ _), fun n hn => ?_⟩
  exact h.clock (Nat.le_of_succ_le hn)

end ExecutionContext.Timed

/-- Time passes, and the times stay in order. -/
theorem Effect.keepsTimes (e : Effect A ctx ctx') (ht : A.timed) (h : ctx.Timed) :
    ctx'.Timed ∧ ctx'.options = ctx.options ∧ ctx.readings ≤ ctx'.readings := by
  cases e with
  | now => exact ⟨h.now, rfl, Nat.le_succ _⟩
  | newId | emit _ _ | setInstance _ _ | enqueue _ | dequeue _ | merge _ _ | joins _ _
  | records _ _ => exact ⟨⟨h.clock, h.tokens⟩, rfl, le_refl _⟩
  | updateToken t hv => exact ⟨h.updateToken (hv.times ht), rfl, le_refl _⟩
  | park t condition _ hv =>
    obtain ⟨hle, hlater⟩ := hv.times ht
    have hupdate := h.now.updateToken (t := { t with
      status := .waiting, waitingFor := some condition, updatedAt := ctx.now.1 })
      ⟨hle.trans (hlater _ (le_refl _)), fun n hn => h.clock (Nat.le_of_succ_le hn)⟩
    exact ⟨⟨hupdate.clock, hupdate.tokens⟩, rfl, Nat.le_succ _⟩
  | createToken _ _ _ _ _ _ _ _ =>
    exact ⟨h.createToken _ _ _ _ _ _ _, rfl, (Nat.le_succ _).trans (Nat.le_succ _)⟩
  | createInScope _ _ _ scope _ _ _ _ _ =>
    have hscope : (ctx.saveScope scope).Timed := ⟨h.clock, h.tokens⟩
    exact ⟨hscope.createToken _ _ _ _ _ _ _, rfl, (Nat.le_succ _).trans (Nat.le_succ _)⟩

theorem Effects.keepsTimes (h : Effects A ctx ctx') (ht : A.timed) (hctx : ctx.Timed) :
    ctx'.Timed ∧ ctx'.options = ctx.options ∧ ctx.readings ≤ ctx'.readings := by
  induction h with
  | refl => exact ⟨hctx, rfl, le_refl _⟩
  | tail _ e ih =>
    obtain ⟨hmid, hoptions, hle⟩ := ih
    obtain ⟨hctx', hoptions', hle'⟩ := e.keepsTimes ht hmid
    exact ⟨hctx', hoptions'.trans hoptions, hle.trans hle'⟩

/-- What the times of a token were, they still are later. -/
theorem Effects.times (h : Effects A ctx ctx') (ht : A.timed) (hctx : ctx.Timed) {t : Token}
    (htimes : ctx.Times t) : ctx'.Times t := by
  obtain ⟨-, hoptions, hle⟩ := h.keepsTimes ht hctx
  refine ⟨htimes.1, fun n hn => ?_⟩
  rw [hoptions]
  exact htimes.2 n (hle.trans hn)

theorem Effects.grants (h : Effects A ctx ctx') (hctx : A.Grants ctx) : A.Grants ctx' :=
  ⟨fun hs => (h.keeps hs (hctx.numbered hs)).1, fun ht => (h.keepsTimes ht (hctx.timed ht)).1⟩

theorem Effects.ready (h : Effects A ctx ctx') {t : Token} (ht : Ready A ctx t) :
    Ready A ctx' t :=
  ⟨h.grants ht.toGrants, fun hs => (h.keeps hs (ht.numbered hs)).2 t (ht.place hs),
    fun htime => h.times htime (ht.timed htime) (ht.times htime)⟩

theorem Effects.foldlM {α : Type} {f : ExecutionContext → α → Except EngineError ExecutionContext}
    {t : Token} (hf : ∀ c c' a, Ready A c t → f c a = .ok c' → Effects A c c') {l : List α}
    (ht : Ready A ctx t) (h : l.foldlM f ctx = .ok ctx') : Effects A ctx ctx' := by
  induction l generalizing ctx with
  | nil =>
    rw [List.foldlM_nil, Except.pure_eq_ok_iff] at h
    exact h ▸ .refl ctx
  | cons a l ih =>
    obtain ⟨mid, hmid, h⟩ := Except.foldlM_cons_eq_ok_iff.1 h
    have hone := hf ctx mid a ht hmid
    exact hone.trans (ih (hone.ready ht) h)

/-! ## Moving and cancelling tokens -/

theorem moveTokenToFlow_effects {t : Token} {flowId : String} (ht : Ready A ctx t)
    (h : moveTokenToFlow d ctx t flowId = .ok ctx') : Effects A ctx ctx' := by
  unfold moveTokenToFlow at h
  obtain ⟨flow, -, h⟩ := Except.bind_eq_ok_iff.1 h
  obtain ⟨element, -, h⟩ := Except.bind_eq_ok_iff.1 h
  rw [← Except.ok.inj h]
  exact ((Effects.one (.createToken t ht.place (.inl rfl) element.id element.type (some flowId) none
    (truthy t.subProcessInstanceId))).tail (.emit _ rfl)).tail (.enqueue mem_createToken)

theorem moveTokenToFlows_effects {t : Token} {flows : List String} (ht : Ready A ctx t)
    (h : moveTokenToFlows d ctx t flows = .ok ctx') : Effects A ctx ctx' :=
  Effects.foldlM (fun _ _ _ ht h => moveTokenToFlow_effects ht h) ht h

theorem setStatus_effects {t : Token} (status : TokenStatus) (ht : Ready A ctx t) :
    Effects A ctx (ctx.setStatus t status) :=
  (Effects.one .now).tail (.updateToken _ (ht.stamp status t.waitingFor t.loopState))

theorem advanceToken_effects {t : Token} {e : BpmnFlowElement} (ht : Ready A ctx t)
    (h : advanceToken d ctx t e = .ok ctx') : Effects A ctx ctx' := by
  have hset := setStatus_effects .completed ht
  exact hset.trans (moveTokenToFlows_effects (hset.ready ht) h)

theorem advanceTokenFlows_effects {t : Token} (ht : Ready A ctx t)
    (h : advanceTokenFlows d ctx t = .ok ctx') : Effects A ctx ctx' := by
  unfold advanceTokenFlows at h
  obtain ⟨element, -, h⟩ := Except.bind_eq_ok_iff.1 h
  exact moveTokenToFlows_effects ht h

/-- The time is not before that of the token, and the clock will show nothing before it. -/
def Assumed.Present (A : Assumed) (ctx : ExecutionContext) (t : Token) (now : Time) : Prop :=
  A.timed → t.createdAt ≤ now ∧ ∀ n, ctx.readings ≤ n → now ≤ ctx.options.now n

theorem Effects.present (h : Effects A ctx ctx') (hctx : A.Grants ctx) {t : Token} {now : Time}
    (hnow : A.Present ctx t now) : A.Present ctx' t now := by
  intro ht
  obtain ⟨-, hoptions, hle⟩ := h.keepsTimes ht (hctx.timed ht)
  refine ⟨(hnow ht).1, fun n hn => ?_⟩
  rw [hoptions]
  exact (hnow ht).2 n (hle.trans hn)

theorem Ready.present {t : Token} (h : Ready A ctx t) : A.Present ctx.now.2 t ctx.now.1 :=
  fun ht => (h.stamp t.status t.waitingFor t.loopState).times ht

theorem cancelToken_effects {t : Token} {now : Time} (ht : Ready A ctx t)
    (hnow : A.Present ctx t now) : Effects A ctx (ctx.cancelToken t now) :=
  (Effects.one (.updateToken { t with status := .cancelled, updatedAt := now }
    ⟨ht.place, hnow⟩)).tail (.emit _ rfl)

/-- A loop that cancels tokens, whatever it does with the clock. -/
theorem foldl_cancel_effects {f : ExecutionContext → Token → ExecutionContext}
    (hf : ∀ c t, Ready A c t → Effects A c (f c t)) {tokens : List Token}
    (ht : ∀ t ∈ tokens, Ready A ctx t) : Effects A ctx (tokens.foldl f ctx) := by
  induction tokens generalizing ctx with
  | nil => exact .refl ctx
  | cons t tokens ih =>
    have hone := hf ctx t (ht t List.mem_cons_self)
    exact hone.trans (ih fun x hx => hone.ready (ht x (List.mem_cons_of_mem t hx)))

theorem foldl_cancelToken_effects {tokens : List Token} {now : Time}
    (ht : ∀ t ∈ tokens, Ready A ctx t ∧ A.Present ctx t now) :
    Effects A ctx (tokens.foldl (fun c t => c.cancelToken t now) ctx) := by
  induction tokens generalizing ctx with
  | nil => exact .refl ctx
  | cons t tokens ih =>
    obtain ⟨hready, hpresent⟩ := ht t List.mem_cons_self
    have hone := cancelToken_effects hready hpresent
    refine hone.trans (ih fun x hx => ?_)
    obtain ⟨hx, hxnow⟩ := ht x (List.mem_cons_of_mem t hx)
    exact ⟨hone.ready hx, hone.present hready.toGrants hxnow⟩

theorem cancelTokens_effects {tokens : List Token} (ht : ∀ t ∈ tokens, Ready A ctx t) :
    Effects A ctx (ctx.cancelTokens tokens) :=
  have hnow : Effects A ctx ctx.now.2 := .one .now
  hnow.trans (foldl_cancelToken_effects fun t hx => ⟨hnow.ready (ht t hx), (ht t hx).present⟩)

/-- The tokens to cancel are chosen from the map. -/
theorem cancelTokens_filter_effects {t : Token} (p : Token → Bool) (ht : Ready A ctx t) :
    Effects A ctx (ctx.cancelTokens (ctx.getAllTokens.filter p)) :=
  cancelTokens_effects fun _ hx => ht.of_mem (List.mem_filter.1 hx).1

theorem cancelEbgSiblings_effects {t w : Token} (ht : Ready A ctx t) :
    Effects A ctx (cancelEbgSiblings ctx w) := by
  unfold cancelEbgSiblings
  cases w.parentTokenId with
  | none => exact .refl ctx
  | some parent => exact cancelTokens_filter_effects _ ht

theorem spawnBoundaryTokens_effects {t : Token} (ht : Ready A ctx t) (elementId : String) :
    Effects A ctx (spawnBoundaryTokens d ctx t elementId) := by
  unfold spawnBoundaryTokens
  generalize (d.findBoundariesFor elementId).filter _ = boundaries
  induction boundaries generalizing ctx with
  | nil => exact .refl ctx
  | cons b boundaries ih =>
    have hone := (Effects.one (.createToken t ht.place (.inl rfl) b.id .boundaryEvent none none
      (truthy t.subProcessInstanceId))).tail (.enqueue mem_createToken)
    exact hone.trans (ih (hone.ready ht))

theorem requireInstance_eq {inst : ProcessInstance} (h : ctx.requireInstance = .ok inst) :
    ctx.inst = some inst := by
  unfold requireInstance at h
  cases hi : ctx.inst with
  | none => simp [hi] at h
  | some i =>
    simp only [hi, Except.ok.injEq] at h
    rw [h]

theorem completeInstance_effects (h : completeInstance ctx = .ok ctx') : Effects A ctx ctx' := by
  unfold completeInstance at h
  obtain ⟨inst, hinst, h⟩ := Except.bind_eq_ok_iff.1 h
  rw [← Except.ok.inj h]
  exact ((Effects.one .now).tail (.setInstance (j := { inst with
    status := .completed, completedAt := some ctx.now.1 }) (requireInstance_eq hinst) rfl)).tail
      (.emit _ rfl)

/-! ## Variables -/

theorem mergeVariables_effects {scopeId : Nat} {vars : Variables}
    (h : ctx.mergeVariables scopeId vars = .ok ctx') : Effects A ctx ctx' := by
  unfold mergeVariables at h
  cases hs : ctx.scopeMap.get? scopeId with
  | none => simp [hs] at h
  | some scope =>
    simp only [hs, Except.ok.injEq] at h
    rw [← h]
    refine .one (.merge ?_ _)
    rw [KeyedMap.key_of_get? hs, hs]

theorem mergeOutput_effects {scopeId : Nat} {vars : Option Variables}
    (h : ctx.mergeOutput scopeId vars = .ok ctx') : Effects A ctx ctx' := by
  unfold mergeOutput at h
  cases vars with
  | none => exact Except.ok.inj h ▸ .refl ctx
  | some vars =>
    by_cases he : vars.values.isEmpty
    · simp only [he, if_true, Except.ok.injEq] at h
      exact h ▸ .refl ctx
    · simp only [he] at h
      exact mergeVariables_effects h

theorem propagateInner_effects {inner : List Token} {outer : Token}
    (h : propagateInner ctx inner outer = .ok ctx') : Effects A ctx ctx' := by
  unfold propagateInner at h
  cases hi : inner.head? with
  | none =>
    simp only [hi, Except.ok.injEq] at h
    exact h ▸ .refl ctx
  | some first =>
    simp only [hi] at h
    obtain ⟨vars, -, h⟩ := Except.bind_eq_ok_iff.1 h
    exact mergeOutput_effects h

theorem initOutputCollection_effects {t : Token} {lc : MultiInstanceLoopCharacteristics}
    (h : initOutputCollection ctx t lc = .ok ctx') : Effects A ctx ctx' := by
  unfold initOutputCollection at h
  cases ho : truthy lc.outputCollection with
  | none =>
    simp only [ho, Except.ok.injEq] at h
    exact h ▸ .refl ctx
  | some name =>
    simp only [ho] at h
    exact mergeVariables_effects h

theorem collectOutput_effects {child parent : Token} {lc : MultiInstanceLoopCharacteristics}
    (h : collectOutput ctx child parent lc = .ok ctx') : Effects A ctx ctx' := by
  unfold collectOutput at h
  split at h
  · obtain ⟨childScope, -, h⟩ := Except.bind_eq_ok_iff.1 h
    split at h
    · exact Except.ok.inj h ▸ .refl ctx
    · obtain ⟨parentScope, -, h⟩ := Except.bind_eq_ok_iff.1 h
      exact mergeVariables_effects h
  · exact Except.ok.inj h ▸ .refl ctx

end NexusWorkflow
