import NexusWorkflow.Game.Ownership
import NexusWorkflow.Store.Diff

/-!
# Saving and loading

What a store holds of an instance after its state was saved, and what is loaded from it then.
-/

namespace NexusWorkflow

open StoreOperation

/-! ## The rows of an instance -/

/-- The rows that the tables have for the instance. -/
structure Store.Rows (store : Store) (instanceId : Nat) (tokens : List Token)
    (joins : List GatewayJoinState) (records : List CompensationRecord) : Prop where
  tokens : ∀ t, t ∈ store.tokens.values ∧ t.instanceId = instanceId ↔ t ∈ tokens
  joins : ∀ s, s ∈ store.gatewayStates.values ∧ s.key.2 = instanceId ↔ s ∈ joins
  records : ∀ r, r ∈ store.compensationRecords.values ∧ r.instanceId = instanceId ↔ r ∈ records

/-- The store knows nothing of the instance. -/
structure Store.Lacks (store : Store) (instanceId : Nat) : Prop where
  inst : store.instances.get? instanceId = none
  rows : store.Rows instanceId [] [] []

/-- The store holds the state, as far as JSON can say it. -/
structure Store.Holds (store : Store) (state : EngineState) (version : Nat) : Prop where
  inst : store.instances.get? state.inst.id = some ⟨state.inst, version⟩
  rows : store.Rows state.inst.id state.tokens state.gatewayJoinStates state.compensationRecords
  scopes : ∀ scope ∈ state.scopes, store.scopes.get? scope.id = some scope.throughJson

/-! ## Saving, table by table -/

theorem rows_saveTokens {m : KeyedMap Token.id} {instanceId : Nat} {new : List Token}
    (hnd : (new.map (·.id)).Nodup) (hnew : ∀ t ∈ new, t.instanceId = instanceId)
    (hold : ∀ t ∈ m.values, t.instanceId = instanceId → ∃ t' ∈ new, t'.id = t.id) (t : Token) :
    t ∈ (new.foldl KeyedMap.set m).values ∧ t.instanceId = instanceId ↔ t ∈ new := by
  constructor
  · rintro ⟨ht, hid⟩
    have hget := KeyedMap.get?_of_mem ht
    by_cases hm : ∃ t' ∈ new, t'.id = t.id
    · obtain ⟨t', ht', heq⟩ := hm
      rw [← heq, KeyedMap.get?_foldl_set_of_mem hnd ht'] at hget
      exact Option.some.inj hget ▸ ht'
    · rw [KeyedMap.get?_foldl_set_of_notMem fun t' ht' heq => hm ⟨t', ht', heq⟩] at hget
      exact absurd (hold t (KeyedMap.mem_of_get? hget) hid) hm
  · intro ht
    exact ⟨KeyedMap.mem_of_get? (KeyedMap.get?_foldl_set_of_mem hnd ht), hnew t ht⟩

theorem get?_gatewayOps {oldState : Option EngineState} {newState : EngineState}
    {m : KeyedMap GatewayJoinState.key} {key : String × Nat} :
    ((gatewayOps oldState newState).foldl writeGatewayStates m).get? key =
      if ∃ s ∈ ((oldState.map (·.gatewayJoinStates)).getD []), s.key = key ∧
          s.key ∉ newState.gatewayJoinStates.map (·.key) then none
      else (newState.gatewayJoinStates.foldl KeyedMap.set m).get? key := by
  have hfold : (gatewayOps oldState newState).foldl writeGatewayStates m =
      ((((oldState.map (·.gatewayJoinStates)).getD []).filter fun s =>
        s.key ∉ newState.gatewayJoinStates.map (·.key)).map (·.key)).foldl KeyedMap.erase
          (newState.gatewayJoinStates.foldl KeyedMap.set m) := by
    rw [gatewayOps, List.foldl_append, List.foldl_map, List.foldl_map, List.foldl_map]
    rfl
  rw [hfold, KeyedMap.get?_foldl_erase]
  congr 1
  simp only [List.mem_map, List.mem_filter, decide_eq_true_eq, eq_iff_iff]
  constructor
  · rintro ⟨s, ⟨hs, hnot⟩, rfl⟩
    exact ⟨s, hs, rfl, hnot⟩
  · rintro ⟨s, hs, rfl, hnot⟩
    exact ⟨s, ⟨hs, hnot⟩, rfl⟩

theorem rows_gatewayOps {oldState : Option EngineState} {newState : EngineState}
    {m : KeyedMap GatewayJoinState.key} {instanceId : Nat}
    (hnd : (newState.gatewayJoinStates.map (·.key)).Nodup)
    (hnew : ∀ s ∈ newState.gatewayJoinStates, s.key.2 = instanceId)
    (hold : ∀ s, s ∈ m.values ∧ s.key.2 = instanceId ↔
      s ∈ (oldState.map (·.gatewayJoinStates)).getD []) (s : GatewayJoinState) :
    s ∈ ((gatewayOps oldState newState).foldl writeGatewayStates m).values ∧
      s.key.2 = instanceId ↔ s ∈ newState.gatewayJoinStates := by
  constructor
  · rintro ⟨hs, hid⟩
    have hget := KeyedMap.get?_of_mem hs
    rw [get?_gatewayOps] at hget
    split at hget
    · cases hget
    · rename_i hkept
      by_cases hm : ∃ s' ∈ newState.gatewayJoinStates, s'.key = s.key
      · obtain ⟨s', hs', heq⟩ := hm
        rw [← heq, KeyedMap.get?_foldl_set_of_mem hnd hs'] at hget
        exact Option.some.inj hget ▸ hs'
      · rw [KeyedMap.get?_foldl_set_of_notMem fun s' hs' heq => hm ⟨s', hs', heq⟩] at hget
        have hmem := (hold s).1 ⟨KeyedMap.mem_of_get? hget, hid⟩
        refine absurd ⟨s, hmem, rfl, fun hk => hm ?_⟩ hkept
        obtain ⟨s', hs', heq⟩ := List.mem_map.1 hk
        exact ⟨s', hs', heq⟩
  · intro hs
    refine ⟨KeyedMap.mem_of_get? (k := s.key) ?_, hnew s hs⟩
    rw [get?_gatewayOps, if_neg]
    · exact KeyedMap.get?_foldl_set_of_mem hnd hs
    · rintro ⟨s', -, heq, hnot⟩
      exact hnot (heq ▸ List.mem_map_of_mem hs)

theorem rows_compensationOps {m : KeyedMap CompensationRecord.key} {instanceId : Nat}
    {old new : List CompensationRecord} (hnd : (new.map (·.tokenId)).Nodup)
    (hnew : ∀ r ∈ new, r.instanceId = instanceId)
    (hfiled : ∀ r ∈ new, r ∈ old ∨ ∀ r' ∈ old, r'.tokenId ≠ r.tokenId)
    (hold : ∀ r, r ∈ m.values ∧ r.instanceId = instanceId ↔ r ∈ old) (r : CompensationRecord) :
    r ∈ ((compensationOps old new).foldl writeCompensationRecords m).values ∧
      r.instanceId = instanceId ↔ r ∈ new := by
  have hone : ∀ r₁ ∈ new, ∀ r₂ ∈ new, r₁.tokenId = r₂.tokenId → r₁ = r₂ :=
    fun r₁ h₁ r₂ h₂ h => List.inj_on_of_nodup_map hnd h₁ h₂ h
  constructor
  · rintro ⟨hr, hid⟩
    have hget := KeyedMap.get?_of_mem hr
    rw [get?_compensationOps] at hget
    split at hget
    · cases hget
    · rename_i hkept
      rcases Option.or_eq_some_iff.1 hget with hget | ⟨-, hget⟩
      · have hmem := (hold r).1 ⟨KeyedMap.mem_of_get? hget, hid⟩
        have hstill : ∃ r' ∈ new, r'.tokenId = r.tokenId := by
          by_contra hno
          exact hkept (mem_goneRecords.2 ⟨r, hmem, rfl, fun r' hr' h => hno ⟨r', hr', h⟩⟩)
        obtain ⟨r', hr', htoken⟩ := hstill
        rcases hfiled r' hr' with hr'old | hother
        · -- both are rows of the table, under one key
          have hkey : r'.key = r.key :=
            Prod.ext (((hold r').2 hr'old).2.trans hid.symm) htoken
          have := KeyedMap.eq_of_key_eq ((hold r').2 hr'old).1 ((hold r).2 hmem).1 hkey
          exact this ▸ hr'
        · exact absurd htoken.symm (hother r hmem)
      · exact (mem_filedRecords.1 (List.mem_of_find?_eq_some hget)).1
  · intro hr
    refine ⟨KeyedMap.mem_of_get? (k := r.key) ?_, hnew r hr⟩
    rw [get?_compensationOps, if_neg]
    · rcases hfiled r hr with hmem | hother
      · rw [KeyedMap.get?_of_mem ((hold r).2 hmem).1, Option.some_or]
      · have habsent : m.get? r.key = none := by
          rw [KeyedMap.get?_eq_none_iff]
          intro r' hr' hkey
          have hid : r'.instanceId = instanceId := (congrArg Prod.fst hkey).trans (hnew r hr)
          exact hother r' ((hold r').1 ⟨hr', hid⟩) (congrArg Prod.snd hkey)
        rw [habsent, Option.none_or]
        have hfound := mem_filedRecords.2 ⟨hr, hother⟩
        cases hf : (filedRecords old new).find? fun x => x.key = r.key with
        | none => simpa using List.find?_eq_none.1 hf r hfound
        | some x =>
          have hx := (mem_filedRecords.1 (List.mem_of_find?_eq_some hf)).1
          have hkey : x.key = r.key := by simpa using List.find?_some hf
          rw [hone x hx r hr (congrArg Prod.snd hkey)]
    · intro hgone
      obtain ⟨r', -, hkey, hnot⟩ := mem_goneRecords.1 hgone
      exact hnot r hr (congrArg Prod.snd hkey).symm

theorem scopes_saved {m : KeyedMap VariableScope.id} {scopes : List VariableScope}
    (hnd : (scopes.map (·.id)).Nodup) {scope : VariableScope} (h : scope ∈ scopes) :
    (scopes.foldl (fun m scope => m.set scope.throughJson) m).get? scope.id =
      some scope.throughJson := by
  have hnd : ((scopes.map VariableScope.throughJson).map (·.id)).Nodup := by
    rwa [List.map_map]
  have hget := KeyedMap.get?_foldl_set_of_mem (m := m) hnd
    (List.mem_map_of_mem (f := VariableScope.throughJson) h)
  rwa [List.foldl_map] at hget

/-! ## Saving -/

/-- The key of a join state of a given instance is told by its gateway. -/
theorem nodup_keys {joins : List GatewayJoinState} (h : (joins.map (·.gatewayId)).Nodup) :
    (joins.map (·.key)).Nodup := by
  refine List.Nodup.of_map Prod.fst ?_
  rwa [List.map_map]

variable {store store' : Store} {newState : EngineState}

/-- A transaction of a request writes the rows of the new state in the place of those of the old
one. -/
theorem saved (isNew : Bool) (oldState : Option EngineState) {version : Option Nat}
    {row : InstanceRow} (htidy : newState.Tidy)
    (hrecords : (newState.compensationRecords.map (·.tokenId)).Nodup)
    (hfiled : ∀ r ∈ newState.compensationRecords,
      r ∈ (oldState.map (·.compensationRecords)).getD [] ∨
        ∀ r' ∈ (oldState.map (·.compensationRecords)).getD [], r'.tokenId ≠ r.tokenId)
    (htokens : ∀ t ∈ (oldState.map (·.tokens)).getD [], ∃ t' ∈ newState.tokens, t'.id = t.id)
    (hrows : store.Rows newState.inst.id ((oldState.map (·.tokens)).getD [])
      ((oldState.map (·.gatewayJoinStates)).getD [])
      ((oldState.map (·.compensationRecords)).getD []))
    (hrow : (writeInstances store.instances (if isNew then .createInstance newState.inst
      else .updateInstance newState.inst version)).get? newState.inst.id = some row)
    (hdata : row.data = newState.inst)
    (h : store.executeTransaction (computeStoreOps isNew oldState version newState) = .ok store') :
    store'.Holds newState row.version := by
  have hop : StoreOperation.table (if isNew then .createInstance newState.inst
      else .updateInstance newState.inst version) = .instances := by
    split <;> rfl
  have hbesides : Besides (subscriptionOps ((oldState.map (·.tokens)).getD []) newState.tokens ++
      compensationOps ((oldState.map (·.compensationRecords)).getD [])
        newState.compensationRecords) := by
    intro op hop
    rcases List.mem_append.1 hop with hop | hop
    · exact .inl (subscriptionOps_table op hop)
    · exact .inr (.inl (compensationOps_table op hop))
  obtain ⟨hi, ht, hs, hg, -, -, hc⟩ := stateOps_tables hop hbesides h
  rw [List.foldl_append,
    foldl_spares writeCompensationRecords_of_table subscriptionOps_table (by decide)] at hc
  constructor
  · rw [hi, hrow, ← hdata]
  · constructor
    · rw [ht]
      refine rows_saveTokens htidy.tokenIds htidy.tokens fun t ht hid => ?_
      exact htokens t ((hrows.tokens t).1 ⟨ht, hid⟩)
    · rw [hg]
      exact rows_gatewayOps (nodup_keys htidy.gatewayIds) htidy.joins hrows.joins
    · rw [hc]
      exact rows_compensationOps hrecords htidy.records hfiled hrows.records
  · intro scope hscope
    rw [hs]
    exact scopes_saved (htidy.scopes ▸ nodup_distinct _) hscope

/-- The first transaction of an instance. -/
theorem Store.Lacks.saved (h : store.Lacks newState.inst.id) (htidy : newState.Tidy)
    (hrecords : (newState.compensationRecords.map (·.tokenId)).Nodup)
    (hsave : store.executeTransaction (computeStoreOps true none none newState) = .ok store') :
    store'.Holds newState 1 := by
  have hrow : (writeInstances store.instances (.createInstance newState.inst)).get?
      newState.inst.id = some ⟨newState.inst, 1⟩ :=
    KeyedMap.get?_set_self _ (⟨newState.inst, 1⟩ : InstanceRow)
  exact NexusWorkflow.saved true none htidy hrecords (fun r _ => .inr (by simp))
    (by simp) h.rows hrow
    rfl hsave

variable {state : EngineState} {version : Nat}

/-- Every further one. -/
theorem Store.Holds.saved (h : store.Holds state version) (hid : newState.inst.id = state.inst.id)
    (htidy : newState.Tidy) (hrecords : (newState.compensationRecords.map (·.tokenId)).Nodup)
    (hfiled : ∀ r ∈ newState.compensationRecords, r ∈ state.compensationRecords ∨
      ∀ r' ∈ state.compensationRecords, r'.tokenId ≠ r.tokenId)
    (htokens : ∀ t ∈ state.tokens, ∃ t' ∈ newState.tokens, t'.id = t.id)
    (hsave : store.executeTransaction
      (computeStoreOps false (some state) (some version) newState) = .ok store') :
    store'.Holds newState (version + 1) := by
  have hold := h.inst
  rw [← hid] at hold
  have hrow : (writeInstances store.instances (.updateInstance newState.inst (some version))).get?
      newState.inst.id = some ⟨newState.inst, version + 1⟩ := by
    simp only [writeInstances, hold]
    exact KeyedMap.get?_set_self _ (⟨newState.inst, version + 1⟩ : InstanceRow)
  exact NexusWorkflow.saved false (some state) htidy hrecords hfiled htokens
    (hid.symm ▸ h.rows) hrow rfl
    hsave

/-- What the state is written with can be written. -/
theorem executeTransaction_computeStoreOps_ok {row : InstanceRow} {newState : EngineState}
    (hrow : store.instances.get? newState.inst.id = some row) (hversion : row.version = version) :
    ∃ store', store.executeTransaction
      (computeStoreOps false (some state) (some version) newState) =
      .ok store' := by
  refine executeTransaction_update_ok hrow hversion fun op hop => ?_
  rcases List.mem_cons.1 hop with rfl | hop
  · simp [StoreOperation.table]
  · rcases List.mem_append.1 hop with hop | hop
    · rcases List.mem_append.1 hop with hop | hop
      · simp [scopeOps_table op hop]
      · simp [gatewayOps_table op hop]
    · rcases List.mem_append.1 hop with hop | hop
      · simp [subscriptionOps_table op hop]
      · simp [compensationOps_table op hop]

/-- The transaction succeeds. -/
theorem Store.Holds.saves (h : store.Holds state version) (hid : newState.inst.id = state.inst.id) :
    ∃ store', store.executeTransaction
      (computeStoreOps false (some state) (some version) newState) = .ok store' := by
  have hrow := h.inst
  rw [← hid] at hrow
  exact executeTransaction_computeStoreOps_ok hrow rfl

/-! ## Loading -/

/-- What the queries give when nobody writes in between. -/
def Store.loaded (store : Store) (order : RowOrder) (inst : ProcessInstance) : EngineState where
  inst
  tokens := store.getAllTokens order inst.id
  scopes :=
    (distinct (inst.rootScopeId :: (store.getAllTokens order inst.id).map (·.scopeId))).flatMap
    fun id => (store.getScope id).toList
  gatewayJoinStates := store.listGatewayStates order inst.id
  compensationRecords := store.listCompensationRecords order inst.id

theorem loadScopes_alone (ids : List Nat) :
    (loadScopes ids).alone store = ids.flatMap fun id => (store.getScope id).toList := by
  induction ids with
  | nil => rfl
  | cons id ids ih =>
    rw [loadScopes, List.flatMap_cons, ← ih]
    simp only [Reading.alone_bind, Reading.alone_ask, Reading.alone_pure]

theorem loadRest_alone (order : RowOrder) (inst : ProcessInstance) :
    (loadRest order inst).alone store = store.loaded order inst := by
  simp only [loadRest, Store.loaded, Reading.alone_bind, Reading.alone_ask, Reading.alone_pure,
    loadScopes_alone]

theorem Store.Holds.load (h : store.Holds state version) (order : RowOrder) :
    (loadEngineState order state.inst.id).alone store =
      some (store.loaded order state.inst, version) := by
  have hget : store.getInstance state.inst.id = some (state.inst, version) := by
    rw [Store.getInstance, h.inst]
    rfl
  simp only [loadEngineState, Reading.alone_bind, Reading.alone_ask, hget, Reading.alone_pure,
    loadRest_alone]

/-- The same rows, in whatever order. -/
structure EngineState.SameRows (a b : EngineState) : Prop where
  inst : a.inst = b.inst
  tokens : a.tokens.Perm b.tokens
  scopes : a.scopes.Perm b.scopes
  joins : a.gatewayJoinStates.Perm b.gatewayJoinStates
  records : a.compensationRecords.Perm b.compensationRecords

theorem flatMap_scopes {scopes : List VariableScope} {get : Nat → Option VariableScope}
    (h : ∀ scope ∈ scopes, get scope.id = some scope.throughJson) :
    (scopes.map (·.id)).flatMap (fun id => (get id).toList) =
      scopes.map VariableScope.throughJson := by
  induction scopes with
  | nil => rfl
  | cons scope scopes ih =>
    rw [List.map_cons, List.flatMap_cons, List.map_cons, h scope List.mem_cons_self,
      ih fun s hs => h s (List.mem_cons_of_mem _ hs)]
    rfl

/-- The rows of a table that are of one instance, as a list without repetitions. -/
theorem perm_filter {α : Type} {l l' : List α} (hl : l.Nodup) (hl' : l'.Nodup) {p : α → Prop}
    [DecidablePred p] (h : ∀ a, a ∈ l ∧ p a ↔ a ∈ l') : (l.filter p).Perm l' := by
  rw [List.perm_ext_iff_of_nodup (hl.filter _) hl']
  intro a
  rw [List.mem_filter, decide_eq_true_eq]
  exact h a

section

variable (h : store.Holds state version) (htidy : state.Tidy)
  (hrecords : (state.compensationRecords.map (·.tokenId)).Nodup)
include h

include htidy in
theorem Store.Holds.tokenRows :
    (store.tokens.values.filter (·.instanceId = state.inst.id)).Perm state.tokens :=
  perm_filter store.tokens.nodup.of_map htidy.tokenIds.of_map h.rows.tokens

include htidy in
theorem Store.Holds.joinRows :
    (store.gatewayStates.values.filter (·.key.2 = state.inst.id)).Perm state.gatewayJoinStates :=
  perm_filter store.gatewayStates.nodup.of_map htidy.gatewayIds.of_map h.rows.joins

include hrecords in
theorem Store.Holds.recordRows :
    (store.compensationRecords.values.filter (·.instanceId = state.inst.id)).Perm
      state.compensationRecords :=
  perm_filter store.compensationRecords.nodup.of_map hrecords.of_map h.rows.records

include htidy hrecords in
/-- What is loaded are the rows of the state: the tokens as they are revived, the scopes as they
went through JSON. -/
theorem Store.Holds.loaded (order : RowOrder) :
    (store.loaded order state.inst).SameRows
      { state with
        tokens := state.tokens.map reviveToken
        scopes := state.scopes.map VariableScope.throughJson } := by
  have htokens : (store.getAllTokens order state.inst.id).Perm (state.tokens.map reviveToken) :=
    ((order.perm_tokens _).trans (h.tokenRows htidy)).map reviveToken
  refine ⟨rfl, htokens, ?_, (order.perm_gatewayStates _).trans (h.joinRows htidy), ?_⟩
  · show (List.flatMap _ (distinct _)).Perm (state.scopes.map VariableScope.throughJson)
    rw [← flatMap_scopes h.scopes, htidy.scopes]
    refine List.Perm.flatMap_right _ ?_
    rw [List.perm_ext_iff_of_nodup (nodup_distinct _) (nodup_distinct _)]
    intro id
    rw [mem_distinct, mem_distinct, List.mem_cons, List.mem_cons,
      (htokens.map (·.scopeId)).mem_iff, List.map_map]
    rfl
  · exact (List.perm_insertionSort _ _).trans
      ((order.perm_compensationRecords _).trans (h.recordRows hrecords))

end

/-! ## What survives -/

/-- Nothing in the state is lost on the way: no token is in the middle of a sequential loop, and the
variables are such that JSON gives them back. -/
structure EngineState.Storable (state : EngineState) : Prop where
  loops : ∀ t ∈ state.tokens, t.loopState = none
  json : ∀ scope ∈ state.scopes, scope.throughJson = scope

theorem reviveToken_eq_iff {t : Token} : reviveToken t = t ↔ t.loopState = none := by
  cases t
  simp [reviveToken, eq_comm]

theorem map_eq_self {α : Type} {f : α → α} {l : List α} (h : ∀ a ∈ l, f a = a) : l.map f = l :=
  (List.map_congr_left h).trans (List.map_id l)

/-- The rows that are loaded are those of the state exactly if it survives being stored. -/
theorem Store.Holds.sameRows_iff (h : store.Holds state version) (htidy : state.Tidy)
    (hrecords : (state.compensationRecords.map (·.tokenId)).Nodup) (order : RowOrder) :
    (store.loaded order state.inst).SameRows state ↔ state.Storable := by
  have hloaded := h.loaded htidy hrecords order
  constructor
  · intro hsame
    have htokens := hsame.tokens.symm.trans hloaded.tokens
    have hscopes := hsame.scopes.symm.trans hloaded.scopes
    constructor
    · intro t ht
      obtain ⟨x, -, rfl⟩ := List.mem_map.1 (htokens.subset ht)
      rfl
    · intro scope hscope
      have hmem := hscopes.symm.subset (List.mem_map_of_mem (f := VariableScope.throughJson) hscope)
      have hnd : (state.scopes.map (·.id)).Nodup := htidy.scopes ▸ nodup_distinct _
      exact List.inj_on_of_nodup_map hnd hmem hscope rfl
  · intro hstorable
    have htokens := map_eq_self fun t ht => reviveToken_eq_iff.2 (hstorable.loops t ht)
    have hscopes := map_eq_self hstorable.json
    rw [htokens, hscopes] at hloaded
    exact hloaded

/-- The database gives the rows in the order in which the engine has them. -/
structure RowOrder.Follows (order : RowOrder) (state : EngineState) : Prop where
  tokens : ∀ rows, rows.Perm state.tokens → order.tokens rows = state.tokens
  joins : ∀ rows, rows.Perm state.gatewayJoinStates →
    order.gatewayStates rows = state.gatewayJoinStates
  records : ∀ rows, rows.Perm state.compensationRecords →
    order.compensationRecords rows = state.compensationRecords
  /-- The records are sorted by their time. -/
  byTime : state.compensationRecords.Pairwise fun a b => a.completedAt ≤ b.completedAt

/-- Then the loaded state is the state that was saved. -/
theorem Store.Holds.loaded_eq (h : store.Holds state version) (htidy : state.Tidy)
    (hrecords : (state.compensationRecords.map (·.tokenId)).Nodup) (hstorable : state.Storable)
    {order : RowOrder} (hfollows : order.Follows state) :
    store.loaded order state.inst = state := by
  have htokens : store.getAllTokens order state.inst.id = state.tokens := by
    rw [Store.getAllTokens, hfollows.tokens _ (h.tokenRows htidy)]
    exact map_eq_self fun t ht => reviveToken_eq_iff.2 (hstorable.loops t ht)
  have hscopes : (distinct (state.inst.rootScopeId :: state.tokens.map (·.scopeId))).flatMap
      (fun id => (store.getScope id).toList) = state.scopes := by
    rw [← htidy.scopes]
    exact (flatMap_scopes h.scopes).trans (map_eq_self hstorable.json)
  have hjoins : store.listGatewayStates order state.inst.id = state.gatewayJoinStates :=
    hfollows.joins _ (h.joinRows htidy)
  have hsorted : store.listCompensationRecords order state.inst.id = state.compensationRecords := by
    rw [Store.listCompensationRecords, hfollows.records _ (h.recordRows hrecords)]
    exact hfollows.byTime.insertionSort_eq
  rw [Store.loaded, htokens, hscopes, hjoins, hsorted]

end NexusWorkflow
