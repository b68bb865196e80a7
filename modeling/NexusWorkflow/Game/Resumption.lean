import NexusWorkflow.Game.CommandRefinement

/-!
# The resumption of one token

What a message or a signal does to the tokens and the scopes of an execution when it resumes one
target: the target is completed, the waiting tokens with the same parent are cancelled, and all
other tokens stay as they are, apart from the new ones.
-/

namespace NexusWorkflow

variable {d : ProcessDefinition}

namespace ExecutionContext

/-- The tokens have ids that have been given out. -/
def Counted (ctx : ExecutionContext) : Prop := ∀ t ∈ ctx.tokenMap.values, t.id < ctx.nextId

/-- The tokens of the one are still those of the other, and no scope has changed. -/
structure Adds (ctx ctx' : ExecutionContext) : Prop where
  tokens : ∀ id t, ctx.tokenMap.get? id = some t → ctx'.tokenMap.get? id = some t
  scopes : ctx'.scopeMap = ctx.scopeMap

variable {ctx ctx' mid : ExecutionContext}

theorem Adds.refl (ctx : ExecutionContext) : Adds ctx ctx := ⟨fun _ _ h => h, rfl⟩

theorem Adds.trans (h : Adds ctx mid) (h' : Adds mid ctx') : Adds ctx ctx' where
  tokens id t ht := h'.tokens id t (h.tokens id t ht)
  scopes := h'.scopes.trans h.scopes

/-- A new token has a new id. -/
theorem adds_createToken (hn : ctx.Counted) (instanceId : Nat) (elementId : String)
    (elementType : BpmnElementType) (scopeId : Nat) (via : Option String) (parent : Option Nat)
    (tag : Option String) :
    Adds ctx (ctx.createToken instanceId elementId elementType scopeId via parent tag).2 ∧
      (ctx.createToken instanceId elementId elementType scopeId via parent tag).2.Counted := by
  refine ⟨⟨fun id t ht => ?_, rfl⟩, fun t ht => ?_⟩
  · have hlt : t.id < ctx.nextId := hn t (KeyedMap.mem_of_get? ht)
    have hid : t.id = id := KeyedMap.key_of_get? ht
    refine (KeyedMap.get?_set_of_ne _ ?_).trans ht
    show ctx.nextId ≠ id
    omega
  · show t.id < ctx.nextId + 1
    rcases KeyedMap.mem_set.1 ht with rfl | ⟨ht, -⟩
    · exact Nat.lt_succ_self _
    · exact (hn t ht).trans (Nat.lt_succ_self _)

theorem moveTokenToFlow_adds {token : Token} {flowId : String} (hn : ctx.Counted)
    (h : moveTokenToFlow d ctx token flowId = .ok ctx') : Adds ctx ctx' ∧ ctx'.Counted := by
  unfold moveTokenToFlow at h
  obtain ⟨flow, -, h⟩ := Except.bind_eq_ok_iff.1 h
  obtain ⟨target, -, h⟩ := Except.bind_eq_ok_iff.1 h
  obtain ⟨hadds, hcounted⟩ := adds_createToken hn token.instanceId target.id target.type
    token.scopeId (some flowId) none (truthy token.subProcessInstanceId)
  rw [← Except.ok.inj h]
  exact ⟨⟨hadds.tokens, hadds.scopes⟩, hcounted⟩

theorem moveTokenToFlows_adds {token : Token} {flows : List String} (hn : ctx.Counted)
    (h : moveTokenToFlows d ctx token flows = .ok ctx') : Adds ctx ctx' := by
  unfold moveTokenToFlows at h
  induction flows generalizing ctx with
  | nil =>
    rw [List.foldlM_nil, Except.pure_eq_ok_iff] at h
    exact h ▸ .refl ctx
  | cons flow flows ih =>
    obtain ⟨mid, hmid, h⟩ := Except.foldlM_cons_eq_ok_iff.1 h
    obtain ⟨hadds, hcounted⟩ := moveTokenToFlow_adds hn hmid
    exact hadds.trans (ih hcounted h)

theorem advanceTokenFlows_adds {token : Token} (hn : ctx.Counted)
    (h : advanceTokenFlows d ctx token = .ok ctx') : Adds ctx ctx' := by
  unfold advanceTokenFlows at h
  obtain ⟨element, -, h⟩ := Except.bind_eq_ok_iff.1 h
  exact moveTokenToFlows_adds hn h

/-! ## Cancellation -/

theorem cancelTokens_scopeMap (ctx : ExecutionContext) (tokens : List Token) :
    (ctx.cancelTokens tokens).scopeMap = ctx.scopeMap ∧
    (ctx.cancelTokens tokens).nextId = ctx.nextId := by
  unfold cancelTokens
  simp only
  generalize (ctx.now).1 = now
  have hloop : ∀ (tokens : List Token) (c : ExecutionContext),
      (tokens.foldl (fun ctx token => ctx.cancelToken token now) c).scopeMap = c.scopeMap ∧
        (tokens.foldl (fun ctx token => ctx.cancelToken token now) c).nextId = c.nextId := by
    intro tokens
    induction tokens with
    | nil => exact fun _ => ⟨rfl, rfl⟩
    | cons t tokens ih => exact fun c => ih (c.cancelToken t now)
  exact hloop tokens ctx.now.2

/-- The tokens of the list are cancelled, and the others stay. -/
theorem cancelTokens_get? (ctx : ExecutionContext) (tokens : List Token) (id : Nat) :
    (id ∉ tokens.map (·.id) → (ctx.cancelTokens tokens).tokenMap.get? id = ctx.tokenMap.get? id) ∧
    (id ∈ tokens.map (·.id) → ∃ x, (ctx.cancelTokens tokens).tokenMap.get? id = some x ∧
      x.status = .cancelled) := by
  unfold cancelTokens
  simp only
  generalize (ctx.now).1 = now
  have hloop : ∀ (tokens : List Token) (c : ExecutionContext),
      (id ∉ tokens.map (·.id) →
        (tokens.foldl (fun ctx token => ctx.cancelToken token now) c).tokenMap.get? id =
          c.tokenMap.get? id) ∧
      ((id ∈ tokens.map (·.id) ∨ ∃ x, c.tokenMap.get? id = some x ∧ x.status = .cancelled) →
        ∃ x, (tokens.foldl (fun ctx token => ctx.cancelToken token now) c).tokenMap.get? id =
          some x ∧
          x.status = .cancelled) := by
    intro tokens
    induction tokens with
    | nil => exact fun c => ⟨fun _ => rfl, fun h => h.resolve_left List.not_mem_nil⟩
    | cons t tokens ih =>
      intro c
      have hget : ∀ k, (c.cancelToken t now).tokenMap.get? k =
          if t.id = k then some { t with status := .cancelled, updatedAt := now }
          else c.tokenMap.get? k := fun k =>
        KeyedMap.get?_set c.tokenMap { t with status := .cancelled, updatedAt := now } k
      obtain ⟨hkeeps, hcancels⟩ := ih (c.cancelToken t now)
      constructor
      · intro hnot
        rw [List.map_cons, List.mem_cons, not_or] at hnot
        have hstep := hget id
        rw [if_neg (Ne.symm hnot.1)] at hstep
        exact (hkeeps hnot.2).trans hstep
      · intro h
        apply hcancels
        by_cases hid : t.id = id
        · right
          exact ⟨_, (hget id).trans (if_pos hid), rfl⟩
        · rcases h with h | h
          · rw [List.map_cons, List.mem_cons] at h
            exact .inl (h.resolve_left fun heq => hid heq.symm)
          · right
            rw [hget id, if_neg hid]
            exact h
  obtain ⟨hkeeps, hcancels⟩ := hloop tokens ctx.now.2
  exact ⟨hkeeps, fun h => hcancels (.inl h)⟩

/-! ## The target -/

/-- A waiting token that the resumption of the other one cancels: their parent is the same. -/
def Siblings (t u : Token) : Prop :=
  u.status = .waiting ∧ t.parentTokenId ≠ none ∧ u.parentTokenId = t.parentTokenId

/-- One token has been resumed: it is completed, its waiting siblings are cancelled, all other
tokens are as they were, and the variables are merged into its scope alone. -/
structure ResumesOne (ctx ctx' : ExecutionContext) (vars : Option Variables) (t : Token) :
    Prop where
  completed : ∃ x, ctx'.tokenMap.get? t.id = some x ∧ x.status = .completed
  cancelled : ∀ id u, id ≠ t.id → ctx.tokenMap.get? id = some u → Siblings t u →
    ∃ x, ctx'.tokenMap.get? id = some x ∧ x.status = .cancelled
  others : ∀ id u, id ≠ t.id → ctx.tokenMap.get? id = some u → ¬ Siblings t u →
    ctx'.tokenMap.get? id = some u
  merged : ∀ scope, ctx.scopeMap.get? t.scopeId = some scope →
    ctx'.scopeMap.get? t.scopeId = some { scope with vars := scope.vars.merge (vars.getD ∅) }
  scopes : ∀ id, id ≠ t.scopeId → ctx'.scopeMap.get? id = ctx.scopeMap.get? id

/-- The output is merged into the scope, and nothing else changes. -/
theorem mergeOutput_eq {scopeId : Nat} {vars : Option Variables}
    (h : ctx.mergeOutput scopeId vars = .ok ctx') :
    ctx'.tokenMap = ctx.tokenMap ∧ ctx'.nextId = ctx.nextId ∧
      (∀ scope, ctx.scopeMap.get? scopeId = some scope →
        ctx'.scopeMap.get? scopeId = some { scope with vars := scope.vars.merge (vars.getD ∅) }) ∧
      ∀ id, id ≠ scopeId → ctx'.scopeMap.get? id = ctx.scopeMap.get? id := by
  have hsame : ∀ more : Variables, more.values = [] → ∀ scope : VariableScope,
      ctx.scopeMap.get? scopeId = some scope →
        ctx.scopeMap.get? scopeId = some { scope with vars := scope.vars.merge more } := by
    intro more hmore scope hscope
    rw [hscope, Variables.merge, hmore]
    rfl
  cases vars with
  | none =>
    obtain rfl := Except.ok.inj h
    exact ⟨rfl, rfl, hsame ∅ rfl, fun _ _ => rfl⟩
  | some more =>
    have h : (if more.values.isEmpty then Except.ok ctx else ctx.mergeVariables scopeId more) =
      .ok ctx' := h
    split at h
    · rename_i hempty
      obtain rfl := Except.ok.inj h
      exact ⟨rfl, rfl, hsame more (by simpa using hempty), fun _ _ => rfl⟩
    · unfold mergeVariables at h
      split at h
      · cases h
      · rename_i scope hscope
        rw [← Except.ok.inj h]
        have hid : scope.id = scopeId := KeyedMap.key_of_get? hscope
        refine ⟨rfl, rfl, fun scope' hscope' => ?_, fun id hne => ?_⟩
        · rw [hscope] at hscope'
          cases hscope'
          show (ctx.scopeMap.set { scope with vars := scope.vars.merge more }).get? scopeId = _
          rw [KeyedMap.get?_set, if_pos hid]
          rfl
        · show (ctx.scopeMap.set { scope with vars := scope.vars.merge more }).get? id = _
          rw [KeyedMap.get?_set_of_ne]
          exact fun heq => hne (heq.symm.trans hid)

/-- The waiting siblings of a token are cancelled, and nothing else changes. -/
theorem cancelEbgSiblings_get? (ctx : ExecutionContext) (t : Token) {id : Nat} {u : Token}
    (hu : ctx.tokenMap.get? id = some u) :
    (id = t.id ∨ ¬ Siblings t u → (cancelEbgSiblings ctx t).tokenMap.get? id = some u) ∧
    (id ≠ t.id → Siblings t u →
      ∃ x, (cancelEbgSiblings ctx t).tokenMap.get? id = some x ∧ x.status = .cancelled) := by
  obtain ⟨hmem, hid⟩ := KeyedMap.get?_eq_some_iff.1 hu
  unfold cancelEbgSiblings
  cases hparent : t.parentTokenId with
  | none => exact ⟨fun _ => hu, fun _ h => absurd hparent h.2.1⟩
  | some parent =>
    simp only
    obtain ⟨hkeeps, hcancels⟩ := cancelTokens_get? ctx (ctx.getAllTokens.filter fun x =>
      x.id ≠ t.id ∧ x.parentTokenId = some parent ∧ x.status = .waiting) id
    have hiff : id ∈ (ctx.getAllTokens.filter fun x => x.id ≠ t.id ∧ x.parentTokenId = some parent ∧
        x.status = .waiting).map (·.id) ↔ id ≠ t.id ∧ Siblings t u := by
      rw [List.mem_map]
      constructor
      · rintro ⟨x, hx, hxid⟩
        obtain ⟨hx, hcond⟩ := List.mem_filter.1 hx
        obtain rfl : x = u := KeyedMap.eq_of_key_eq hx hmem (hxid.trans hid.symm)
        obtain ⟨hne, hsame, hwaiting⟩ := of_decide_eq_true hcond
        exact ⟨hxid ▸ hne, hwaiting, by rw [hparent]; exact Option.some_ne_none _,
          hsame.trans hparent.symm⟩
      · rintro ⟨hne, hwaiting, -, hsame⟩
        refine ⟨u, List.mem_filter.2 ⟨hmem, decide_eq_true ⟨?_, hsame.trans hparent, hwaiting⟩⟩,
          hid⟩
        have hid : u.id = id := hid
        exact hid ▸ hne
    constructor
    · intro h
      rw [hkeeps fun hin => ?_]
      · exact hu
      · obtain ⟨hne, hsiblings⟩ := hiff.1 hin
        rcases h with h | h
        · exact hne h
        · exact h hsiblings
    · exact fun hne hsiblings => hcancels (hiff.2 ⟨hne, hsiblings⟩)

theorem cancelEbgSiblings_rest (ctx : ExecutionContext) (t : Token) :
    (cancelEbgSiblings ctx t).scopeMap = ctx.scopeMap ∧
      (cancelEbgSiblings ctx t).nextId = ctx.nextId := by
  unfold cancelEbgSiblings
  split
  · exact ⟨rfl, rfl⟩
  · exact cancelTokens_scopeMap _ _

/-- Cancellation gives out no ids. -/
theorem Counted.of_ids (hn : ctx.Counted) (hnext : ctx'.nextId = ctx.nextId)
    (hids : ∀ t ∈ ctx'.tokenMap.values, ∃ u ∈ ctx.tokenMap.values, u.id = t.id) : ctx'.Counted := by
  intro t ht
  obtain ⟨u, hu, hid⟩ := hids t ht
  rw [hnext, ← hid]
  exact hn u hu

theorem mem_cancelTokens_id (ctx : ExecutionContext) (tokens : List Token)
    (htokens : ∀ t ∈ tokens, ∃ u ∈ ctx.tokenMap.values, u.id = t.id) :
    ∀ t ∈ (ctx.cancelTokens tokens).tokenMap.values, ∃ u ∈ ctx.tokenMap.values, u.id = t.id := by
  unfold cancelTokens
  simp only
  generalize (ctx.now).1 = now
  have hloop : ∀ (tokens : List Token) (c : ExecutionContext),
      (∀ t ∈ tokens, ∃ u ∈ ctx.tokenMap.values, u.id = t.id) →
      (∀ t ∈ c.tokenMap.values, ∃ u ∈ ctx.tokenMap.values, u.id = t.id) →
      ∀ t ∈ (tokens.foldl (fun ctx token => ctx.cancelToken token now) c).tokenMap.values,
        ∃ u ∈ ctx.tokenMap.values, u.id = t.id := by
    intro tokens
    induction tokens with
    | nil => exact fun _ _ hc => hc
    | cons t tokens ih =>
      intro c htokens hc
      refine ih _ (fun x hx => htokens x (List.mem_cons_of_mem t hx)) fun x hx => ?_
      rcases KeyedMap.mem_set.1 hx with rfl | ⟨hx, -⟩
      · exact htokens t List.mem_cons_self
      · exact hc x hx
  exact hloop tokens ctx.now.2 htokens fun t ht => ⟨t, ht, rfl⟩

theorem Counted.cancelEbgSiblings (hn : ctx.Counted) (t : Token) :
    (NexusWorkflow.cancelEbgSiblings ctx t).Counted := by
  refine hn.of_ids (cancelEbgSiblings_rest ctx t).2 ?_
  unfold NexusWorkflow.cancelEbgSiblings
  split
  · exact fun x hx => ⟨x, hx, rfl⟩
  · exact mem_cancelTokens_id ctx _ fun x hx => ⟨x, (List.mem_filter.1 hx).1, rfl⟩

/-- A target that waits is resumed. -/
theorem resumeTarget_resumesOne {vars : Option Variables} {t : Token} (hn : ctx.Counted)
    (ht : ctx.tokenMap.get? t.id = some t) (hwaiting : t.status = .waiting)
    (h : resumeTarget d vars ctx t = .ok ctx') : ResumesOne ctx ctx' vars t := by
  unfold resumeTarget at h
  obtain ⟨current, hcurrent, h⟩ := Except.bind_eq_ok_iff.1 h
  obtain rfl : current = t := Option.some.inj ((requireToken_ok hcurrent).symm.trans ht)
  rw [if_neg (not_not.2 hwaiting)] at h
  obtain ⟨merged, hmerged, h⟩ := Except.bind_eq_ok_iff.1 h
  simp only at h
  obtain ⟨htokens, hnext, hmerges, hscopes⟩ := mergeOutput_eq hmerged
  have hset : ∀ id, (merged.setStatus current .completed).tokenMap.get? id =
      if current.id = id then some { current with status := .completed, updatedAt := merged.now.1 }
      else ctx.tokenMap.get? id := by
    intro id
    rw [← htokens]
    exact KeyedMap.get?_set merged.tokenMap _ id
  have hcounted : (merged.setStatus current .completed).Counted := by
    intro x hx
    rcases KeyedMap.mem_set.1 hx with rfl | ⟨hx, -⟩
    · show current.id < merged.nextId
      rw [hnext]
      exact hn current (KeyedMap.mem_of_get? ht)
    · show x.id < merged.nextId
      rw [hnext]
      exact hn x (htokens ▸ hx)
  have hadds := advanceTokenFlows_adds (hcounted.cancelEbgSiblings current) h
  obtain ⟨hrest, -⟩ := cancelEbgSiblings_rest (merged.setStatus current .completed) current
  have hscopeMap : ctx'.scopeMap = merged.scopeMap := hadds.scopes.trans hrest
  refine ⟨?_, fun id u hne hu hsiblings => ?_, fun id u hne hu hnot => ?_, fun scope hscope => ?_,
    fun id hne => ?_⟩
  · have hself := (hset current.id).trans (if_pos rfl)
    exact ⟨_, hadds.tokens _ _ ((cancelEbgSiblings_get? _ current hself).1 (.inl rfl)), rfl⟩
  · have hold := (hset id).trans (if_neg (Ne.symm hne))
    obtain ⟨x, hx, hcancelled⟩ := (cancelEbgSiblings_get? _ current (hold.trans hu)).2 hne hsiblings
    exact ⟨x, hadds.tokens _ _ hx, hcancelled⟩
  · have hold := (hset id).trans (if_neg (Ne.symm hne))
    exact hadds.tokens _ _ ((cancelEbgSiblings_get? _ current (hold.trans hu)).1 (.inr hnot))
  · rw [hscopeMap]
    exact hmerges scope hscope
  · rw [hscopeMap]
    exact hscopes id hne

end ExecutionContext

end NexusWorkflow
