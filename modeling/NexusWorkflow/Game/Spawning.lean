import NexusWorkflow.Game.Pool

/-!
# Cancelling and spawning

What the loops of the engine do to the pool: a loop of cancellations is one `cancelAll`, and a loop
that makes one token after the other is one `spawn`, of tokens that the relation `Spawned` describes
one by one.
-/

namespace NexusWorkflow

open ExecutionContext

/-! ## Cancelling -/

namespace Pool

variable (P : Pool)

/-- Cancel one token, and report it. -/
def cancelOne (t : Token) : Pool :=
  { P.put { t with status := .cancelled } with cancelled := P.cancelled ++ [t.id] }

/-- The token of a list that has the id of `x`, cancelled; `x` itself if there is none. -/
def killFrom (l : List Token) (x : Token) : Token :=
  ((l.find? (·.id = x.id)).map fun t => { t with status := TokenStatus.cancelled }).getD x

theorem foldl_cancelOne (l : List Token) (hl : (l.map (·.id)).Nodup) :
    l.foldl cancelOne P =
      { P with
        tokens := P.tokens.map (killFrom l)
        cancelled := P.cancelled ++ l.map (·.id) } := by
  induction l generalizing P with
  | nil =>
    have h : killFrom [] = id := rfl
    simp [h]
  | cons t l ih =>
    rw [List.map_cons, List.nodup_cons] at hl
    rw [List.foldl_cons, ih _ hl.2]
    simp only [cancelOne, put, List.map_map, List.append_assoc, List.map_cons,
      List.singleton_append]
    congr 1
    apply List.map_congr_left
    intro x _
    by_cases hx : x.id = t.id
    · have hno : l.find? (·.id = t.id) = none := by
        simp only [List.find?_eq_none, decide_eq_true_eq]
        exact fun y hy hyt => hl.1 (List.mem_map.2 ⟨y, hy, hyt⟩)
      simp [killFrom, update, hx, hno]
    · have ht : ¬ t.id = x.id := fun h => hx h.symm
      simp [killFrom, update, hx, ht]

theorem killFrom_filter {l : List Token} (hl : (l.map (·.id)).Nodup) (p : Token → Bool) {x : Token}
    (hx : x ∈ l) : killFrom (l.filter p) x = kill p x := by
  by_cases hp : p x
  · have hf : (l.filter p).find? (·.id = x.id) = some x := by
      rcases h : (l.filter p).find? (·.id = x.id) with _ | y
      · have := List.find?_eq_none.1 h x (List.mem_filter.2 ⟨hx, hp⟩)
        simp at this
      · have hy := List.mem_filter.1 (List.mem_of_find?_eq_some h)
        have hid : y.id = x.id := by simpa using List.find?_some h
        have hyx : y = x := List.inj_on_of_nodup_map hl hy.1 hx hid
        exact hyx ▸ h
    simp [killFrom, kill, hf, hp]
  · have hf : (l.filter p).find? (·.id = x.id) = none := by
      simp only [List.find?_eq_none, decide_eq_true_eq]
      intro y hy hid
      have hy := List.mem_filter.1 hy
      exact hp (List.inj_on_of_nodup_map hl hy.1 hx hid ▸ hy.2)
    simp [killFrom, kill, hf, hp]

/-- Cancelling the chosen tokens one after the other is cancelling all of them. -/
theorem foldl_cancelOne_filter (hP : P.ids.Nodup) (p : Token → Bool) :
    (P.tokens.filter p).foldl cancelOne P = P.cancelAll p := by
  rw [foldl_cancelOne _ _ (hP.sublist (List.filter_sublist.map _)), cancelAll]
  congr 1
  exact List.map_congr_left fun x hx => killFrom_filter hP p hx

end Pool

namespace ExecutionContext

variable (ctx : ExecutionContext)

theorem mem_ids {t : Token} (h : t ∈ ctx.tokenMap.values) : t.id ∈ ctx.pool.ids :=
  List.mem_map.2 ⟨t.erase, ctx.mem_pool h, rfl⟩

theorem pool_cancelToken {t : Token} (now : Time) (h : t.id ∈ ctx.pool.ids) :
    (ctx.cancelToken t now).pool = ctx.pool.cancelOne t.erase := by
  have hput := ctx.pool_updateToken (t := { t with status := .cancelled, updatedAt := now }) h
  unfold cancelToken
  rw [pool_emit, hput]
  rfl

theorem pool_foldl_cancelToken (f : ExecutionContext → Time × ExecutionContext)
    (hf : ∀ ctx, (f ctx).2.pool = ctx.pool) (l : List Token) (hl : ∀ t ∈ l, t.id ∈ ctx.pool.ids) :
    (l.foldl (fun ctx t => (f ctx).2.cancelToken t (f ctx).1) ctx).pool =
      (l.map Token.erase).foldl Pool.cancelOne ctx.pool := by
  induction l generalizing ctx with
  | nil => rfl
  | cons t l ih =>
    have ht : t.id ∈ (f ctx).2.pool.ids := by
      rw [hf]
      exact hl t List.mem_cons_self
    have hstep := pool_cancelToken (f ctx).2 (f ctx).1 ht
    rw [hf] at hstep
    have hids : ((f ctx).2.cancelToken t (f ctx).1).pool.ids = ctx.pool.ids := by
      rw [hstep]
      exact Pool.ids_put _
    rw [List.foldl_cons, ih _ fun x hx => by rw [hids]; exact hl x (List.mem_cons_of_mem t hx),
      hstep]
    rfl

theorem filter_pool {p : Token → Bool} (hp : ∀ t, p t.erase = p t) :
    (ctx.getAllTokens.filter p).map Token.erase = ctx.pool.tokens.filter p := by
  have : p ∘ Token.erase = p := funext hp
  rw [pool, List.filter_map, this]
  rfl

theorem find?_pool {p : Token → Bool} (hp : ∀ t, p t.erase = p t) :
    (ctx.getAllTokens.find? p).map Token.erase = ctx.pool.tokens.find? p := by
  have : p ∘ Token.erase = p := funext hp
  rw [pool, List.find?_map, this]
  rfl

theorem any_pool {p : Token → Bool} (hp : ∀ t, p t.erase = p t) :
    ctx.getAllTokens.any p = ctx.pool.tokens.any p := by
  simp [pool, getAllTokens, List.any_map, Function.comp_def, hp]

theorem pool_foldl_cancel {p : Token → Bool} (hp : ∀ t, p t.erase = p t)
    (f : ExecutionContext → Time × ExecutionContext) (hf : ∀ ctx, (f ctx).2.pool = ctx.pool) :
    ((ctx.getAllTokens.filter p).foldl (fun ctx t => (f ctx).2.cancelToken t (f ctx).1) ctx).pool =
      ctx.pool.cancelAll p := by
  have hids : ∀ t ∈ ctx.getAllTokens.filter p, t.id ∈ ctx.pool.ids :=
    fun t ht => ctx.mem_ids (List.mem_filter.1 ht).1
  rw [pool_foldl_cancelToken ctx f hf _ hids, filter_pool ctx hp,
    Pool.foldl_cancelOne_filter _ ctx.nodup_pool]

/-- `cancelTokens` on the tokens chosen by `p` is `cancelAll p`. -/
theorem pool_cancelTokens {p : Token → Bool} (hp : ∀ t, p t.erase = p t) :
    (ctx.cancelTokens (ctx.getAllTokens.filter p)).pool = ctx.pool.cancelAll p := by
  have := pool_foldl_cancel ctx.now.2 hp (fun c => (ctx.now.1, c)) fun _ => rfl
  exact this

end ExecutionContext

/-! ## Spawning -/

/-- Each item on the right of a `Forall₂` has a partner on the left. -/
theorem exists_of_forall₂_right {α β : Type} {R : α → β → Prop} {l : List α} {l' : List β}
    (h : List.Forall₂ R l l') {b : β} (hb : b ∈ l') : ∃ a ∈ l, R a b := by
  induction h with
  | nil => cases hb
  | @cons x y l l' hxy _ ih =>
    rcases List.mem_cons.1 hb with rfl | hb
    · exact ⟨x, List.mem_cons_self, hxy⟩
    · obtain ⟨a, ha, hab⟩ := ih hb
      exact ⟨a, List.mem_cons_of_mem x ha, hab⟩

/-- From `P` to `P'` new pending tokens were made, one for each item of the list. -/
def Spawned {α : Type} (R : α → Token → Prop) (items : List α) (P P' : Pool) : Prop :=
  ∃ news n, List.Forall₂ R items news ∧ P.Fresh news n ∧ P' = P.spawn news n

namespace Spawned

variable {α : Type} {R : α → Token → Prop} {items more : List α} {P P' P'' : Pool}

theorem nil : Spawned R [] P P :=
  ⟨[], P.nextId, .nil, Pool.fresh_nil, Pool.spawn_nil_self.symm⟩

theorem append (h : Spawned R items P P') (h' : Spawned R more P' P'') :
    Spawned R (items ++ more) P P'' := by
  obtain ⟨news, n, hR, hf, rfl⟩ := h
  obtain ⟨news', n', hR', hf', rfl⟩ := h'
  exact ⟨news ++ news', n', List.rel_append hR hR', hf.append hf', Pool.spawn_spawn _ _ _ _⟩

theorem numbered (h : Spawned R items P P') (hP : P.Numbered) : P'.Numbered := by
  obtain ⟨news, n, -, hf, rfl⟩ := h
  exact hP.spawn hf

theorem status (h : Spawned R items P P') : P'.status = P.status := by
  obtain ⟨_, _, -, -, rfl⟩ := h
  rfl

theorem pending (h : Spawned R items P P') :
    ∃ news, P'.pending = P.pending ++ news ∧ news.length = items.length := by
  obtain ⟨news, n, hR, -, rfl⟩ := h
  exact ⟨news, rfl, hR.length_eq.symm⟩

/-- A loop, each round of which makes the token of one item. -/
theorem of_foldlM {f : ExecutionContext → α → Except EngineError ExecutionContext}
    (hf : ∀ ctx a ctx', ctx.pool.Numbered → f ctx a = .ok ctx' → Spawned R [a] ctx.pool ctx'.pool)
    {ctx ctx' : ExecutionContext} (hn : ctx.pool.Numbered) (h : items.foldlM f ctx = .ok ctx') :
    Spawned R items ctx.pool ctx'.pool := by
  induction items generalizing ctx with
  | nil =>
    rw [List.foldlM_nil, Except.pure_eq_ok_iff] at h
    exact h ▸ nil
  | cons a items ih =>
    obtain ⟨mid, hm, hr⟩ := Except.foldlM_cons_eq_ok_iff.1 h
    have hone := hf ctx a mid hn hm
    exact hone.append (ih (hone.numbered hn) hr)

/-- The same for a loop that cannot fail. -/
theorem of_foldl {f : ExecutionContext → α → ExecutionContext}
    (hf : ∀ ctx a, ctx.pool.Numbered → Spawned R [a] ctx.pool (f ctx a).pool)
    {ctx : ExecutionContext} (hn : ctx.pool.Numbered) :
    Spawned R items ctx.pool (items.foldl f ctx).pool := by
  induction items generalizing ctx with
  | nil => exact nil
  | cons a items ih =>
    have hone := hf ctx a hn
    exact hone.append (ih (hone.numbered hn))

end Spawned

namespace ExecutionContext

variable (ctx : ExecutionContext)

theorem pool_newId : ctx.newId.2.pool = ctx.pool.spawn [] (ctx.pool.nextId + 1) := by
  simp [newId, pool, Pool.spawn]

/-- A new token is filed and enqueued. -/
theorem pool_place (hn : ctx.pool.Numbered) (instanceId : Nat) (elementId : String)
    (elementType : BpmnElementType) (scopeId : Nat) (via : Option String) (parent : Option Nat)
    (tag : Option String) :
    ((ctx.createToken instanceId elementId elementType scopeId via parent tag).2.enqueuePending
      (ctx.createToken instanceId elementId elementType scopeId via parent tag).1).pool =
    ctx.pool.spawn
      [newToken ctx.pool.nextId instanceId elementId elementType scopeId via parent tag]
      (ctx.pool.nextId + 1) := by
  have hnew : ctx.nextId ∉ ctx.tokenMap.values.map Token.id := by
    intro hm
    obtain ⟨t, ht, hid⟩ := List.mem_map.1 hm
    have : t.id < ctx.nextId := hn t.erase (ctx.mem_pool ht)
    omega
  simp only [createToken, newId, now, updateToken, enqueuePending, pool, Pool.spawn]
  rw [KeyedMap.values_set_of_notMem hnew]
  simp [newToken, Token.erase]

end ExecutionContext

theorem Spawned.single {α : Type} {R : α → Token → Prop} {a : α} {P : Pool} {t : Token} {n : Nat}
    (hR : R a t) (hactive : t.status = .active) (hge : P.nextId ≤ t.id) (hlt : t.id < n) :
    Spawned R [a] P (P.spawn [t] n) :=
  ⟨[t], n, .cons hR .nil,
    { nodup := List.nodup_singleton _
      active := by simpa using hactive
      ge := by simpa using hge
      lt := by simpa using hlt
      le := hge.trans hlt.le }, rfl⟩

end NexusWorkflow
