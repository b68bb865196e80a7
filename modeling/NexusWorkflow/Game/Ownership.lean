import NexusWorkflow.Game.HandlerEffects

/-!
# What belongs to an instance

Every row of an engine state carries the id of the instance, and its scopes are the root scope and
those of its tokens, in the order in which the tokens came.  So the scopes can be found again from
the tokens.
-/

namespace NexusWorkflow

open ExecutionContext

/-! ## Ids without their repetitions -/

theorem values_set_id (m : KeyedMap (id : Nat → Nat)) (x : Nat) :
    (m.set x).values = if x ∈ m.values then m.values else m.values ++ [x] := by
  have hmap : m.values.map id = m.values := List.map_id _
  by_cases hx : x ∈ m.values
  · rw [KeyedMap.values_set_of_mem (by simpa using hx), if_pos hx]
    refine (List.map_congr_left fun y _ => ?_).trans hmap
    unfold KeyedMap.replace
    split
    · rename_i hy
      exact hy.symm
    · rfl
  · rw [KeyedMap.values_set_of_notMem (by simpa using hx), if_neg hx]

theorem distinct_concat (l : List Nat) (x : Nat) :
    distinct (l ++ [x]) = if x ∈ distinct l then distinct l else distinct l ++ [x] := by
  unfold distinct KeyedMap.ofList
  rw [List.foldl_append, List.foldl_cons, List.foldl_nil, values_set_id]

theorem mem_distinct {l : List Nat} {x : Nat} : x ∈ distinct l ↔ x ∈ l := by
  induction l using List.reverseRec with
  | nil => simp [distinct, KeyedMap.ofList]
  | append_singleton l y ih =>
    rw [distinct_concat, List.mem_append, List.mem_singleton]
    split
    · rename_i hy
      constructor
      · exact fun hx => .inl (ih.1 hx)
      · rintro (hx | rfl)
        · exact ih.2 hx
        · exact hy
    · rw [List.mem_append, List.mem_singleton, ih]

theorem nodup_distinct (l : List Nat) : (distinct l).Nodup := by
  have := (KeyedMap.ofList l : KeyedMap (id : Nat → Nat)).nodup
  rwa [List.map_id] at this

theorem distinct_concat_of_mem {l : List Nat} {x : Nat} (h : x ∈ l) :
    distinct (l ++ [x]) = distinct l := by
  rw [distinct_concat, if_pos (mem_distinct.2 h)]

/-! ## Owned and tidy states -/

/-- All rows are those of the instance. -/
structure EngineState.Owned (state : EngineState) : Prop where
  tokens : ∀ t ∈ state.tokens, t.instanceId = state.inst.id
  joins : ∀ s ∈ state.gatewayJoinStates, s.key.2 = state.inst.id
  records : ∀ r ∈ state.compensationRecords, r.instanceId = state.inst.id

/-- Moreover no key occurs twice, and the scopes are the ones in use. -/
structure EngineState.Tidy (state : EngineState) : Prop extends state.Owned where
  tokenIds : (state.tokens.map (·.id)).Nodup
  gatewayIds : (state.gatewayJoinStates.map (·.gatewayId)).Nodup
  scopes : state.scopes.map (·.id) =
    distinct (state.inst.rootScopeId :: state.tokens.map (·.scopeId))

/-- The context holds an instance and rows that belong to it. -/
def ExecutionContext.Owned (ctx : ExecutionContext) : Prop :=
  ∃ inst, ctx.inst = some inst ∧ (ctx.toState inst).Owned

/-- The context holds a tidy state. -/
def ExecutionContext.Tidy (ctx : ExecutionContext) : Prop :=
  ∃ inst, ctx.inst = some inst ∧ (ctx.toState inst).Tidy

variable {user timed : Prop} {ctx ctx' : ExecutionContext}

theorem holds_iff_values {t : Token} :
    ctx.pool.Holds t.erase ↔ ∃ x ∈ ctx.tokenMap.values, x.erase.bare = t.erase.bare := by
  rw [Pool.holds_iff]
  simp only [pool, List.mem_map]
  constructor
  · rintro ⟨_, ⟨x, hx, rfl⟩, hbare⟩
    exact ⟨x, hx, hbare⟩
  · rintro ⟨x, hx, hbare⟩
    exact ⟨x.erase, ⟨x, hx, rfl⟩, hbare⟩

/-- Where a token is filed anew, what does not depend on its course stays as it is. -/
theorem map_values_updateToken {α : Type} {f : Token → α}
    (hf : ∀ x t : Token, x.erase.bare = t.erase.bare → f x = f t) {t : Token}
    (ht : ctx.pool.Holds t.erase) :
    (ctx.updateToken t).tokenMap.values.map f = ctx.tokenMap.values.map f := by
  obtain ⟨y, hy, hbare⟩ := holds_iff_values.1 ht
  have hid : y.erase.id = t.erase.id := Token.id_of_bare hbare
  have hmem : t.id ∈ ctx.tokenMap.values.map Token.id := List.mem_map.2 ⟨y, hy, hid⟩
  rw [show (ctx.updateToken t).tokenMap.values = _ from KeyedMap.values_set_of_mem hmem,
    List.map_map]
  refine List.map_congr_left fun x hx => ?_
  rw [Function.comp_apply, KeyedMap.replace]
  split
  · rename_i hxt
    have hxy : x = y := KeyedMap.eq_of_key_eq hx hy (hxt.trans hid.symm)
    rw [hxy]
    exact (hf y t hbare).symm
  · rfl

theorem instanceId_of_bare {x t : Token} (h : x.erase.bare = t.erase.bare) :
    x.instanceId = t.instanceId := by
  have := congrArg Token.instanceId h
  exact this

theorem scopeId_of_bare {x t : Token} (h : x.erase.bare = t.erase.bare) :
    x.scopeId = t.scopeId := by
  have := congrArg Token.scopeId h
  exact this

/-! ## Ownership -/

section

variable {inst : ProcessInstance}

theorem EngineState.Owned.updateToken (h : (ctx.toState inst).Owned) {t : Token}
    (ht : ctx.pool.Holds t.erase) : ((ctx.updateToken t).toState inst).Owned := by
  have hinst := map_values_updateToken (fun x t => instanceId_of_bare) ht
  refine ⟨fun x hx => ?_, h.joins, h.records⟩
  have hx : x.instanceId ∈ (ctx.updateToken t).tokenMap.values.map (·.instanceId) :=
    List.mem_map_of_mem hx
  rw [hinst] at hx
  obtain ⟨y, hy, heq⟩ := List.mem_map.1 hx
  rw [← heq]
  exact h.tokens y hy

theorem EngineState.Owned.createToken (h : (ctx.toState inst).Owned) (hn : ctx.pool.Numbered)
    {instanceId : Nat} (hid : instanceId = inst.id) (elementId : String)
    (elementType : BpmnElementType) (scopeId : Nat) (via : Option String) (parent : Option Nat)
    (tag : Option String) :
    ((ctx.createToken instanceId elementId elementType scopeId via parent tag).2.toState
      inst).Owned := by
  have hvalues := values_createToken hn instanceId elementId elementType scopeId via parent tag
  refine ⟨fun x hx => ?_, h.joins, h.records⟩
  have hx : x ∈ (ctx.createToken instanceId elementId elementType scopeId via parent
    tag).2.tokenMap.values := hx
  rw [hvalues, List.mem_append, List.mem_singleton] at hx
  rcases hx with hx | rfl
  · exact h.tokens x hx
  · exact hid

/-- A new token is one of the instance. -/
theorem EngineState.Owned.owner (h : (ctx.toState inst).Owned) (hinst : ctx.inst = some inst)
    {source : Token} {instanceId : Nat} (hs : ctx.pool.Holds source.erase)
    (hi : ctx.Owns source instanceId) : instanceId = inst.id := by
  rcases hi with rfl | hi
  · obtain ⟨x, hx, hbare⟩ := holds_iff_values.1 hs
    exact (instanceId_of_bare hbare).symm.trans (h.tokens x hx)
  · rw [hinst] at hi
    exact (Option.some.inj hi).symm

end

theorem Effect.owned (e : Effect ⟨True, user, timed⟩ ctx ctx') (hn : ctx.pool.Numbered)
    (h : ctx.Owned) : ctx'.Owned := by
  obtain ⟨inst, hinst, h⟩ := h
  cases e with
  | now | newId | emit _ _ | enqueue _ | dequeue _ => exact ⟨inst, hinst, h⟩
  | merge _ _ => exact ⟨inst, hinst, h.tokens, h.joins, h.records⟩
  | @setInstance i j hi hj =>
    obtain rfl : i = inst := Option.some.inj (hi.symm.trans hinst)
    have hid : j.core.id = i.core.id := by rw [hj]
    exact ⟨j, rfl, fun t ht => (h.tokens t ht).trans hid.symm,
      fun s hs => (h.joins s hs).trans hid.symm, fun r hr => (h.records r hr).trans hid.symm⟩
  | updateToken t ht => exact ⟨inst, hinst, h.updateToken (ht.place trivial)⟩
  | park t condition _ ht =>
    have h' : (ctx.now.2.toState inst).Owned := h
    exact ⟨inst, hinst, h'.updateToken (t := { t with
      status := .waiting, waitingFor := some condition, updatedAt := ctx.now.1 })
        (ht.place trivial)⟩
  | createToken source hs hi _ _ _ _ _ =>
    exact ⟨inst, hinst, h.createToken hn (h.owner hinst (hs trivial) hi) _ _ _ _ _ _⟩
  | createInScope source hs hi scope _ _ _ _ _ =>
    have h' : ((ctx.saveScope scope).toState inst).Owned := ⟨h.tokens, h.joins, h.records⟩
    exact ⟨inst, hinst, h'.createToken hn (h.owner hinst (hs trivial) hi) _ _ _ _ _ _⟩
  | joins joins hjoins =>
    refine ⟨inst, hinst, h.tokens, fun s hs => ?_, h.records⟩
    rcases hjoins s hs with ⟨s₀, hs₀, hkey⟩ | hid
    · rw [← hkey]
      exact h.joins s₀ hs₀
    · rw [hinst] at hid
      exact (Option.some.inj hid).symm
  | records records hrecords =>
    refine ⟨inst, hinst, h.tokens, h.joins, fun r hr => ?_⟩
    rcases hrecords r hr with hr | hid
    · exact h.records r hr
    · rw [hinst] at hid
      exact (Option.some.inj hid).symm

theorem Effects.owned (h : Effects ⟨True, user, timed⟩ ctx ctx') (hn : ctx.pool.Numbered)
    (ho : ctx.Owned) : ctx'.Owned := by
  induction h with
  | refl => exact ho
  | tail h e ih => exact e.owned (h.keeps trivial hn).1 ih

theorem Effect.nextId_le {A : Assumed} (e : Effect A ctx ctx') : ctx.nextId ≤ ctx'.nextId := by
  cases e <;> first | exact le_refl _ | exact Nat.le_succ _

theorem Effects.nextId_le {A : Assumed} (h : Effects A ctx ctx') : ctx.nextId ≤ ctx'.nextId := by
  induction h with
  | refl => exact le_refl _
  | tail _ e ih => exact ih.trans e.nextId_le

/-! ## Scopes -/

/-- The scopes of the context are those in use. -/
def ExecutionContext.Scoped (ctx : ExecutionContext) : Prop :=
  ∃ inst, ctx.inst = some inst ∧ ctx.scopeMap.values.map (·.id) =
    distinct (inst.rootScopeId :: ctx.tokenMap.values.map (·.scopeId))

theorem Effect.scoped (e : Effect ⟨True, user, timed⟩ ctx ctx') (hn : ctx.pool.Numbered)
    (h : ctx.Scoped) : ctx'.Scoped := by
  obtain ⟨inst, hinst, h⟩ := h
  cases e with
  | now | newId | emit _ _ | enqueue _ | dequeue _ | joins _ _ | records _ _ =>
    exact ⟨inst, hinst, h⟩
  | @setInstance i j hi hj =>
    obtain rfl : i = inst := Option.some.inj (hi.symm.trans hinst)
    have hroot : j.core.rootScopeId = i.core.rootScopeId := by rw [hj]
    refine ⟨j, rfl, h.trans ?_⟩
    show _ = distinct (j.core.rootScopeId :: _)
    rw [hroot]
    rfl
  | updateToken t ht =>
    refine ⟨inst, hinst, h.trans ?_⟩
    rw [map_values_updateToken (fun x t => scopeId_of_bare) (ht.place trivial)]
  | park t condition _ ht =>
    refine ⟨inst, hinst, h.trans ?_⟩
    have hupdate := map_values_updateToken (t := { t with
      status := .waiting, waitingFor := some condition, updatedAt := ctx.now.1 })
      (fun x t => scopeId_of_bare) (ht.place trivial)
    exact congrArg (fun l => distinct (inst.rootScopeId :: l)) hupdate.symm
  | createToken source hs hi elementId elementType via parent tag =>
    -- the new token stands in the scope of a token that is there
    refine ⟨inst, hinst, h.trans ?_⟩
    obtain ⟨x, hx, hbare⟩ := holds_iff_values.1 (hs trivial)
    rw [values_createToken hn, List.map_append, ← List.cons_append]
    refine (distinct_concat_of_mem ?_).symm
    show source.scopeId ∈ _
    rw [← scopeId_of_bare hbare]
    exact List.mem_cons_of_mem _ (List.mem_map_of_mem hx)
  | createInScope source hs hi scope elementId elementType via parent tag =>
    refine ⟨inst, hinst, ?_⟩
    have hn' : (ctx.saveScope scope).pool.Numbered := hn
    rw [values_createToken hn', List.map_append, ← List.cons_append]
    refine Eq.trans ?_ (distinct_concat _ scope.id).symm
    show _ = if scope.id ∈ distinct (inst.rootScopeId :: ctx.tokenMap.values.map (·.scopeId)) then
      distinct (inst.rootScopeId :: ctx.tokenMap.values.map (·.scopeId)) else
      distinct (inst.rootScopeId :: ctx.tokenMap.values.map (·.scopeId)) ++ [scope.id]
    rw [← h]
    show (ctx.scopeMap.set scope).values.map (·.id) = _
    by_cases hs : scope.id ∈ ctx.scopeMap.values.map VariableScope.id
    · rw [if_pos hs, KeyedMap.values_set_of_mem hs, List.map_map]
      exact List.map_congr_left fun x _ => KeyedMap.key_replace scope x
    · rw [if_neg hs, KeyedMap.values_set_of_notMem hs, List.map_append]
      rfl
  | @merge scope hscope vars =>
    refine ⟨inst, hinst, Eq.trans ?_ h⟩
    have hmem : scope.id ∈ ctx.scopeMap.values.map VariableScope.id :=
      List.mem_map_of_mem (KeyedMap.mem_of_get? hscope)
    show (ctx.scopeMap.set { scope with vars }).values.map (·.id) = ctx.scopeMap.values.map (·.id)
    rw [show (ctx.scopeMap.set { scope with vars }).values = _ from
      KeyedMap.values_set_of_mem hmem, List.map_map]
    exact List.map_congr_left fun x _ => KeyedMap.key_replace { scope with vars } x

theorem Effects.scoped (h : Effects ⟨True, user, timed⟩ ctx ctx') (hn : ctx.pool.Numbered)
    (hs : ctx.Scoped) : ctx'.Scoped := by
  induction h with
  | refl => exact hs
  | tail h e ih => exact e.scoped (h.keeps trivial hn).1 ih

theorem tidy_iff : ctx.Tidy ↔ ctx.Owned ∧ ctx.Scoped := by
  constructor
  · rintro ⟨inst, hinst, h⟩
    exact ⟨⟨inst, hinst, h.toOwned⟩, ⟨inst, hinst, h.scopes⟩⟩
  · rintro ⟨⟨inst, hinst, howned⟩, ⟨inst', hinst', hscopes⟩⟩
    obtain rfl : inst' = inst := Option.some.inj (hinst'.symm.trans hinst)
    exact ⟨inst', hinst, howned, ctx.tokenMap.nodup, ctx.joinStateMap.nodup, hscopes⟩

/-- Effects keep a context tidy. -/
theorem Effects.tidy (h : Effects ⟨True, user, timed⟩ ctx ctx') (hn : ctx.pool.Numbered)
    (ht : ctx.Tidy) : ctx'.Tidy :=
  tidy_iff.2 ⟨h.owned hn (tidy_iff.1 ht).1, h.scoped hn (tidy_iff.1 ht).2⟩

/-! ## One call -/

theorem EngineState.Tidy.create {state : EngineState} (h : state.Tidy) (options : ExecuteOptions) :
    (ExecutionContext.create (some state) options).tokenMap.values = state.tokens ∧
      (ExecutionContext.create (some state) options).toState state.inst = state := by
  have htokens := KeyedMap.values_ofList h.tokenIds
  have hnd : (state.scopes.map VariableScope.id).Nodup := h.scopes ▸ nodup_distinct _
  have hscopes := KeyedMap.values_ofList hnd
  have hjoins := KeyedMap.values_ofList h.gatewayIds
  refine ⟨htokens, ?_⟩
  cases state
  simp only [toState, ExecutionContext.create, Option.map_some, Option.getD_some, htokens, hscopes,
    hjoins]

variable {d : ProcessDefinition} {fuel : Nat} {options : ExecuteOptions} {result : EngineResult}

/-- A call on a tidy state with smaller ids: the new state is tidy, and it has all the old
tokens. -/
theorem execute_tidy {command : EngineCommand} {state : EngineState} (hgoes : command.goesOn = true)
    (htidy : state.Tidy) (hids : ∀ t ∈ state.tokens, t.id < options.firstId)
    (h : execute d fuel command (some state) options = .ok result) :
    result.newState.Tidy ∧ (∀ t ∈ result.newState.tokens, t.id < result.nextId) ∧
      ∀ t ∈ state.tokens, ∃ t' ∈ result.newState.tokens, t'.id = t.id := by
  obtain ⟨htokens, hstate⟩ := htidy.create options
  have hn : (ExecutionContext.create (some state) options).pool.Numbered := by
    intro t ht
    obtain ⟨x, hx, rfl⟩ := List.mem_map.1 ht
    rw [htokens] at hx
    exact hids x hx
  obtain ⟨ctx, inst, heffects, -, hinst, hnew, -, hnext⟩ :=
    execute_effects ⟨True, True, False⟩ trivial hgoes ⟨fun _ => hn, False.elim⟩ h
  have hstart : (ExecutionContext.create (some state) options).Tidy :=
    ⟨state.inst, rfl, hstate.symm ▸ htidy⟩
  obtain ⟨inst', hinst', htidy'⟩ := heffects.tidy hn hstart
  obtain rfl : inst' = inst := Option.some.inj (hinst'.symm.trans hinst)
  obtain ⟨hnumbered, hkeep⟩ := heffects.keeps trivial hn
  rw [hnew, hnext]
  refine ⟨htidy', fun t ht => hnumbered t.erase (ctx.mem_pool ht), fun t ht => ?_⟩
  have hhold := hkeep t (Pool.holds_of_mem (mem_pool _ (htokens ▸ ht)))
  obtain ⟨x, hx, hbare⟩ := holds_iff_values.1 hhold
  have hid : x.erase.id = t.erase.id := Token.id_of_bare hbare
  exact ⟨x, hx, hid⟩

/-- A new instance has one scope and one token in it. -/
theorem handleStartProcess_tidy {vars : Option Variables}
    {correlationKey businessKey : Option String} (h : handleStartProcess d
    (ExecutionContext.create none options) vars correlationKey businessKey =
      .ok ctx) : ctx.Tidy ∧ Queued ⟨True, True, False⟩ ctx ∧
        ctx.inst.map (·.id) = some options.firstId ∧ options.firstId < ctx.nextId := by
  unfold handleStartProcess at h
  obtain ⟨element, -, h⟩ := Except.bind_eq_ok_iff.1 h
  have htokens : ctx.tokenMap.values = [{
      id := options.firstId + 2, instanceId := options.firstId, elementId := element.id,
      elementType := element.type, status := .active, scopeId := options.firstId + 1,
      createdAt := options.now 1, updatedAt := options.now 2 }] := by
    rw [← Except.ok.inj h]
    rfl
  have hqueue : ctx.pendingQueue = ctx.tokenMap.values := by
    rw [htokens, ← Except.ok.inj h]
    rfl
  have hnext : ctx.nextId = options.firstId + 3 := by
    rw [← Except.ok.inj h]
    rfl
  have hnumbered : ctx.pool.Numbered := by
    intro t ht
    obtain ⟨x, hx, rfl⟩ := List.mem_map.1 ht
    rw [htokens, List.mem_singleton] at hx
    rw [hx]
    show options.firstId + 2 < ctx.nextId
    omega
  have hgrants : Assumed.Grants ⟨True, True, False⟩ ctx := ⟨fun _ => hnumbered, False.elim⟩
  refine ⟨⟨_, by rw [← Except.ok.inj h]; rfl, ⟨?_, ?_, ?_⟩, ctx.tokenMap.nodup,
    ctx.joinStateMap.nodup, ?_⟩, ⟨hgrants, fun t ht => (hgrants.of_mem (hqueue ▸ ht)).toVouches⟩,
    by rw [← Except.ok.inj h]; rfl, by omega⟩
  · intro t ht
    have ht : t ∈ ctx.tokenMap.values := ht
    rw [htokens, List.mem_singleton] at ht
    rw [ht]
    rfl
  · intro s hs
    have hs : s ∈ ctx.joinStateMap.values := hs
    rw [← Except.ok.inj h] at hs
    cases hs
  · intro r hr
    have hr : r ∈ ctx.compensationList := hr
    rw [← Except.ok.inj h] at hr
    cases hr
  · show ctx.scopeMap.values.map (·.id) = distinct (_ :: ctx.tokenMap.values.map (·.scopeId))
    rw [htokens, ← Except.ok.inj h]
    exact (distinct_concat_of_mem (l := [options.firstId + 1]) List.mem_cons_self).symm

theorem execute_start_tidy {vars : Option Variables} {correlationKey businessKey : Option String}
    (h : execute d fuel (.startProcess vars correlationKey businessKey) none options = .ok result) :
    result.newState.Tidy ∧ (∀ t ∈ result.newState.tokens, t.id < result.nextId) ∧
      result.newState.inst.id = options.firstId ∧ options.firstId < result.nextId := by
  unfold execute at h
  obtain ⟨mid, hmid, h⟩ := Except.bind_eq_ok_iff.1 h
  obtain ⟨ctx, hctx, h⟩ := Except.bind_eq_ok_iff.1 h
  unfold ExecutionContext.toResult at h
  obtain ⟨inst, hinst, h⟩ := Except.bind_eq_ok_iff.1 h
  obtain ⟨htidy, hqueued, hid, hlt⟩ := handleStartProcess_tidy hmid
  have heffects := runLoop_effects trivial hqueued hctx
  have hn := hqueued.numbered trivial
  obtain ⟨inst', hinst', htidy'⟩ := heffects.tidy hn htidy
  obtain rfl : inst' = inst := Option.some.inj (hinst'.symm.trans (requireInstance_eq hinst))
  have hcore := id_of_core heffects.core
  rw [hinst', hid] at hcore
  rw [← Except.ok.inj h]
  exact ⟨htidy', fun t ht => (heffects.keeps trivial hn).1 t.erase (ctx.mem_pool ht),
    Option.some.inj hcore, hlt.trans_le heffects.nextId_le⟩

end NexusWorkflow
