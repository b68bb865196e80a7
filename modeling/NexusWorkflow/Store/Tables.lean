import NexusWorkflow.Lib.Checked
import NexusWorkflow.Model.Persist

/-!
# Transactions, table by table

Every operation writes one table.  What a transaction leaves in a table is what its operations on
that table, one after the other, make of it: `executeTransaction_tables`.
-/

namespace NexusWorkflow

/-! ## What an operation writes -/

inductive Table where
  | instances | tokens | scopes | userTasks | subscriptions | gatewayStates | compensationRecords
  deriving DecidableEq

namespace StoreOperation

def table : StoreOperation → Table
  | createInstance _ | updateInstance _ _ => .instances
  | saveTokens _ => .tokens
  | saveScope _ => .scopes
  | createUserTask _ | updateUserTask _ => .userTasks
  | saveSubscription _ | deleteSubscription _ => .subscriptions
  | saveGatewayState _ | deleteGatewayState _ _ => .gatewayStates
  | saveCompensationRecord _ | deleteCompensationRecord _ _ => .compensationRecords

def writeInstances (m : KeyedMap InstanceRow.id) : StoreOperation → KeyedMap InstanceRow.id
  | createInstance inst => m.set ⟨inst, 1⟩
  | updateInstance inst _ =>
      match m.get? inst.id with
      | none => m
      | some row => m.set ⟨inst, row.version + 1⟩
  | _ => m

def writeTokens (m : KeyedMap Token.id) : StoreOperation → KeyedMap Token.id
  | saveTokens tokens => tokens.foldl KeyedMap.set m
  | _ => m

def writeScopes (m : KeyedMap VariableScope.id) : StoreOperation → KeyedMap VariableScope.id
  | saveScope scope => m.set scope.throughJson
  | _ => m

def writeUserTasks (m : KeyedMap UserTaskRecord.id) : StoreOperation → KeyedMap UserTaskRecord.id
  | createUserTask task => m.set task
  | updateUserTask task => if (m.get? task.id).isSome then m.set task else m
  | _ => m

def writeSubscriptions (m : KeyedMap EventSubscription.tokenId) :
    StoreOperation → KeyedMap EventSubscription.tokenId
  | saveSubscription subscription => m.set subscription
  | deleteSubscription tokenId => m.erase tokenId
  | _ => m

def writeGatewayStates (m : KeyedMap GatewayJoinState.key) :
    StoreOperation → KeyedMap GatewayJoinState.key
  | saveGatewayState state => m.set state
  | deleteGatewayState gatewayId instanceId => m.erase (gatewayId, instanceId)
  | _ => m

def writeCompensationRecords (m : KeyedMap CompensationRecord.key) :
    StoreOperation → KeyedMap CompensationRecord.key
  | saveCompensationRecord record => if (m.get? record.key).isSome then m else m.set record
  | deleteCompensationRecord instanceId tokenId => m.erase (instanceId, tokenId)
  | _ => m

end StoreOperation

open StoreOperation

/-- What an operation leaves behind, when it succeeds. -/
def Store.write (store : Store) (op : StoreOperation) : Store where
  instances := writeInstances store.instances op
  tokens := writeTokens store.tokens op
  scopes := writeScopes store.scopes op
  userTasks := writeUserTasks store.userTasks op
  subscriptions := writeSubscriptions store.subscriptions op
  gatewayStates := writeGatewayStates store.gatewayStates op
  compensationRecords := writeCompensationRecords store.compensationRecords op

variable {store store' : Store}

theorem applyOp_write {op : StoreOperation} (h : store.applyOp op = .ok store') :
    store' = store.write op := by
  cases op with
  | createInstance inst =>
    unfold Store.applyOp Store.createInstance at h
    simp only at h
    split at h
    · cases h
    · exact (Except.ok.inj h).symm
  | updateInstance inst version =>
    unfold Store.applyOp Store.updateInstance at h
    simp only at h
    split at h
    · rename_i hrow
      rw [← Except.ok.inj h]
      simp [Store.write, writeInstances, hrow, writeTokens, writeScopes, writeUserTasks,
        writeSubscriptions, writeGatewayStates, writeCompensationRecords]
    · rename_i row hrow
      split at h
      · rw [← Except.ok.inj h]
        simp [Store.write, writeInstances, hrow, writeTokens, writeScopes, writeUserTasks,
          writeSubscriptions, writeGatewayStates, writeCompensationRecords]
      · cases h
  | createUserTask task =>
    unfold Store.applyOp Store.createUserTask at h
    simp only at h
    split at h
    · cases h
    · exact (Except.ok.inj h).symm
  | updateUserTask task =>
    rw [← Except.ok.inj h]
    unfold Store.updateUserTask
    split <;> rename_i hrow <;>
      simp [Store.write, writeInstances, hrow, writeTokens, writeScopes, writeUserTasks,
        writeSubscriptions, writeGatewayStates, writeCompensationRecords]
  | saveCompensationRecord record =>
    rw [← Except.ok.inj h]
    unfold Store.saveCompensationRecord
    split <;> rename_i hrow <;>
      simp [Store.write, writeInstances, hrow, writeTokens, writeScopes, writeUserTasks,
        writeSubscriptions, writeGatewayStates, writeCompensationRecords]
  | _ => exact (Except.ok.inj h).symm

theorem executeTransaction_write {ops : List StoreOperation}
    (h : store.executeTransaction ops = .ok store') : store' = ops.foldl Store.write store := by
  induction ops generalizing store with
  | nil =>
    have h : (pure store : Except StoreError Store) = .ok store' := h
    rw [Except.pure_eq_ok_iff] at h
    exact h.symm
  | cons op ops ih =>
    obtain ⟨mid, hmid, h⟩ := Except.foldlM_cons_eq_ok_iff.1 h
    rw [List.foldl_cons, ← applyOp_write hmid]
    exact ih h

/-- The tables after a transaction. -/
theorem executeTransaction_tables {ops : List StoreOperation}
    (h : store.executeTransaction ops = .ok store') :
    store'.instances = ops.foldl writeInstances store.instances ∧
    store'.tokens = ops.foldl writeTokens store.tokens ∧
    store'.scopes = ops.foldl writeScopes store.scopes ∧
    store'.userTasks = ops.foldl writeUserTasks store.userTasks ∧
    store'.subscriptions = ops.foldl writeSubscriptions store.subscriptions ∧
    store'.gatewayStates = ops.foldl writeGatewayStates store.gatewayStates ∧
    store'.compensationRecords = ops.foldl writeCompensationRecords store.compensationRecords := by
  rw [executeTransaction_write h]
  clear h
  induction ops generalizing store with
  | nil => exact ⟨rfl, rfl, rfl, rfl, rfl, rfl, rfl⟩
  | cons op ops ih => exact ih

/-! ## Transactions that succeed -/

theorem applyOp_ok (store : Store) {op : StoreOperation} (hi : op.table ≠ .instances)
    (hu : op.table ≠ .userTasks) : ∃ store', store.applyOp op = .ok store' := by
  cases op <;> first | exact ⟨_, rfl⟩ | exact absurd rfl hi | exact absurd rfl hu

theorem executeTransaction_ok (store : Store) {ops : List StoreOperation}
    (h : ∀ op ∈ ops, op.table ≠ .instances ∧ op.table ≠ .userTasks) :
    ∃ store', store.executeTransaction ops = .ok store' := by
  induction ops generalizing store with
  | nil => exact ⟨store, rfl⟩
  | cons op ops ih =>
    obtain ⟨mid, hmid⟩ := applyOp_ok store (h op List.mem_cons_self).1 (h op List.mem_cons_self).2
    obtain ⟨store', hrest⟩ := ih mid fun op hop => h op (List.mem_cons_of_mem _ hop)
    exact ⟨store', Except.foldlM_cons_eq_ok_iff.2 ⟨mid, hmid, hrest⟩⟩

/-- An update from the version that the row has, and operations that cannot fail. -/
theorem executeTransaction_update_ok {inst : ProcessInstance} {row : InstanceRow} {version : Nat}
    (hrow : store.instances.get? inst.id = some row) (hv : row.version = version)
    {ops : List StoreOperation}
    (hops : ∀ op ∈ ops, op.table ≠ .instances ∧ op.table ≠ .userTasks) :
    ∃ store', store.executeTransaction (.updateInstance inst (some version) :: ops) =
      .ok store' := by
  have hupdate : store.applyOp (.updateInstance inst (some version)) =
      .ok { store with instances := store.instances.set ⟨inst, row.version + 1⟩ } := by
    simp [Store.applyOp, Store.updateInstance, hrow, hv]
  obtain ⟨store', hrest⟩ := executeTransaction_ok
    { store with instances := store.instances.set ⟨inst, row.version + 1⟩ } hops
  exact ⟨store', Except.foldlM_cons_eq_ok_iff.2 ⟨_, hupdate, hrest⟩⟩

/-! ## Operations on other tables -/

section

variable {op : StoreOperation}

theorem writeInstances_of_table (h : op.table ≠ .instances) (m : KeyedMap InstanceRow.id) :
    writeInstances m op = m := by
  cases op <;> first | rfl | exact absurd rfl h

theorem writeTokens_of_table (h : op.table ≠ .tokens) (m : KeyedMap Token.id) :
    writeTokens m op = m := by
  cases op <;> first | rfl | exact absurd rfl h

theorem writeScopes_of_table (h : op.table ≠ .scopes) (m : KeyedMap VariableScope.id) :
    writeScopes m op = m := by
  cases op <;> first | rfl | exact absurd rfl h

theorem writeUserTasks_of_table (h : op.table ≠ .userTasks) (m : KeyedMap UserTaskRecord.id) :
    writeUserTasks m op = m := by
  cases op <;> first | rfl | exact absurd rfl h

theorem writeSubscriptions_of_table (h : op.table ≠ .subscriptions)
    (m : KeyedMap EventSubscription.tokenId) : writeSubscriptions m op = m := by
  cases op <;> first | rfl | exact absurd rfl h

theorem writeGatewayStates_of_table (h : op.table ≠ .gatewayStates)
    (m : KeyedMap GatewayJoinState.key) : writeGatewayStates m op = m := by
  cases op <;> first | rfl | exact absurd rfl h

theorem writeCompensationRecords_of_table (h : op.table ≠ .compensationRecords)
    (m : KeyedMap CompensationRecord.key) : writeCompensationRecords m op = m := by
  cases op <;> first | rfl | exact absurd rfl h

end

theorem foldl_eq_self {α β : Type} {f : β → α → β} {l : List α} (h : ∀ a ∈ l, ∀ b, f b a = b)
    (b : β) : l.foldl f b = b := by
  induction l with
  | nil => rfl
  | cons a l ih =>
    rw [List.foldl_cons, h a List.mem_cons_self]
    exact ih fun a ha => h a (List.mem_cons_of_mem _ ha)

/-- Operations that are all on another table leave a table as it is. -/
theorem foldl_spares {β : Type} {f : β → StoreOperation → β} {T T' : Table}
    (hf : ∀ {op : StoreOperation}, op.table ≠ T → ∀ m, f m op = m) {ops : List StoreOperation}
    (hops : ∀ op ∈ ops, op.table = T') (hne : T' ≠ T) (m : β) : ops.foldl f m = m :=
  foldl_eq_self (fun op hop m => hf (hops op hop ▸ hne) m) m

/-! ## The operations of a cycle -/

variable {oldState : Option EngineState} {newState : EngineState}

theorem gatewayOps_table : ∀ op ∈ gatewayOps oldState newState, op.table = .gatewayStates := by
  intro op hop
  rcases List.mem_append.1 hop with hop | hop <;> obtain ⟨_, -, rfl⟩ := List.mem_map.1 hop <;> rfl

theorem subscriptionOps_table {oldTokens newTokens : List Token} :
    ∀ op ∈ subscriptionOps oldTokens newTokens, op.table = .subscriptions := by
  intro op hop
  rcases List.mem_append.1 hop with hop | hop
  · obtain ⟨t, -, ht⟩ := List.mem_filterMap.1 hop
    split at ht
    · cases ht
    · obtain ⟨_, -, rfl⟩ := Option.map_eq_some_iff.1 ht
      rfl
  · obtain ⟨_, -, rfl⟩ := List.mem_map.1 hop
    rfl

theorem compensationOps_table {oldRecords newRecords : List CompensationRecord} :
    ∀ op ∈ compensationOps oldRecords newRecords, op.table = .compensationRecords := by
  intro op hop
  rcases List.mem_append.1 hop with hop | hop <;> obtain ⟨_, -, rfl⟩ := List.mem_map.1 hop <;> rfl

theorem buildUserTaskCreationOps_table {firstTaskId : Nat} {events : List ExecutionEvent}
    {d : ProcessDefinition} :
    ∀ op ∈ buildUserTaskCreationOps firstTaskId events d, op.table = .userTasks := by
  intro op hop
  obtain ⟨_, -, rfl⟩ := List.mem_map.1 hop
  rfl

theorem createUserTask_table {tasks : List UserTaskRecord} :
    ∀ op ∈ tasks.map createUserTask, op.table = .userTasks := by
  intro op hop
  obtain ⟨_, -, rfl⟩ := List.mem_map.1 hop
  rfl

theorem updateUserTask_table {tasks : List UserTaskRecord} :
    ∀ op ∈ tasks.map updateUserTask, op.table = .userTasks := by
  intro op hop
  obtain ⟨_, -, rfl⟩ := List.mem_map.1 hop
  rfl

theorem scopeOps_table {scopes : List VariableScope} :
    ∀ op ∈ scopes.map saveScope, op.table = .scopes := by
  intro op hop
  obtain ⟨_, -, rfl⟩ := List.mem_map.1 hop
  rfl

/-- The operations are about tables that the state of the engine is not in. -/
def Besides (ops : List StoreOperation) : Prop :=
  ∀ op ∈ ops, op.table = .subscriptions ∨ op.table = .compensationRecords ∨ op.table = .userTasks

/-- The tables after a cycle. -/
theorem stateOps_tables {instanceOp : StoreOperation} (hinst : instanceOp.table = .instances)
    {more : List StoreOperation} (hmore : Besides more)
    (h : store.executeTransaction (stateOps instanceOp oldState newState ++ more) = .ok store') :
    store'.instances = writeInstances store.instances instanceOp ∧
    store'.tokens = newState.tokens.foldl KeyedMap.set store.tokens ∧
    store'.scopes = newState.scopes.foldl (fun m scope => m.set scope.throughJson) store.scopes ∧
    store'.gatewayStates =
      (gatewayOps oldState newState).foldl writeGatewayStates store.gatewayStates ∧
    store'.userTasks = more.foldl writeUserTasks store.userTasks ∧
    store'.subscriptions = more.foldl writeSubscriptions store.subscriptions ∧
    store'.compensationRecords =
      more.foldl writeCompensationRecords store.compensationRecords := by
  obtain ⟨hi, ht, hs, hu, he, hg, hc⟩ := executeTransaction_tables h
  have hspare : ∀ {β : Type} {f : β → StoreOperation → β} {T : Table},
      (∀ {op : StoreOperation}, op.table ≠ T → ∀ m, f m op = m) → T ≠ .subscriptions →
      T ≠ .compensationRecords → T ≠ .userTasks → ∀ m, more.foldl f m = m := by
    intro β f T hf h₁ h₂ h₃ m
    refine foldl_eq_self (fun op hop m => hf ?_ m) m
    rcases hmore op hop with h | h | h <;> rw [h] <;> exact Ne.symm ‹_›
  have hother : ∀ T : Table, T ≠ .instances → instanceOp.table ≠ T := fun T hT => hinst ▸ hT.symm
  simp only [stateOps, List.cons_append, List.foldl_cons, List.foldl_append] at hi ht hs hu he hg hc
  rw [hspare writeInstances_of_table (by decide) (by decide) (by decide),
    foldl_spares writeInstances_of_table gatewayOps_table (by decide),
    foldl_spares writeInstances_of_table scopeOps_table (by decide)] at hi
  rw [hspare writeTokens_of_table (by decide) (by decide) (by decide),
    foldl_spares writeTokens_of_table gatewayOps_table (by decide),
    foldl_spares writeTokens_of_table scopeOps_table (by decide),
    writeTokens_of_table (hother _ (by decide))] at ht
  rw [hspare writeScopes_of_table (by decide) (by decide) (by decide),
    foldl_spares writeScopes_of_table gatewayOps_table (by decide), List.foldl_map,
    writeScopes_of_table (hother _ (by decide))] at hs
  rw [hspare writeGatewayStates_of_table (by decide) (by decide) (by decide),
    foldl_spares writeGatewayStates_of_table scopeOps_table (by decide),
    writeGatewayStates_of_table (hother _ (by decide))] at hg
  rw [foldl_spares writeUserTasks_of_table gatewayOps_table (by decide),
    foldl_spares writeUserTasks_of_table scopeOps_table (by decide),
    writeUserTasks_of_table (hother _ (by decide))] at hu
  rw [foldl_spares writeSubscriptions_of_table gatewayOps_table (by decide),
    foldl_spares writeSubscriptions_of_table scopeOps_table (by decide),
    writeSubscriptions_of_table (hother _ (by decide))] at he
  rw [foldl_spares writeCompensationRecords_of_table gatewayOps_table (by decide),
    foldl_spares writeCompensationRecords_of_table scopeOps_table (by decide),
    writeCompensationRecords_of_table (hother _ (by decide))] at hc
  exact ⟨hi, ht, hs, hg, hu, he, hc⟩

end NexusWorkflow
