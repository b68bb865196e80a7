import NexusWorkflow.Lib.Shares
import NexusWorkflow.Store.Tables

/-!
# What belongs to an instance

The rows of a store that say what instance they belong to.  An operation that stays within an
instance does the same to the rows of that instance in any two stores that have the same ones, and
does nothing to those of another instance.
-/

namespace NexusWorkflow

open StoreOperation

variable {store store' other other' : Store} {i j : Nat} {op : StoreOperation}
    {ops : List StoreOperation}

/-- Both stores have the same rows of the instance, in the same order. -/
structure Store.Alike (i : Nat) (store other : Store) : Prop where
  instances : store.instances.share InstanceRow.id i = other.instances.share InstanceRow.id i
  tokens : store.tokens.share Token.instanceId i = other.tokens.share Token.instanceId i
  subscriptions : store.subscriptions.share EventSubscription.instanceId i =
    other.subscriptions.share EventSubscription.instanceId i
  gatewayStates : store.gatewayStates.share (·.key.2) i = other.gatewayStates.share (·.key.2) i
  compensationRecords : store.compensationRecords.share CompensationRecord.instanceId i =
    other.compensationRecords.share CompensationRecord.instanceId i

/-- The row of the instance is its own. -/
theorem get?_shareInstance (m : KeyedMap InstanceRow.id) (i : Nat) :
    (m.share InstanceRow.id i).get? i = m.get? i := KeyedMap.get?_share fun _ _ hid => hid

theorem get?_shareRecord (m : KeyedMap CompensationRecord.key) {r : CompensationRecord}
    (hid : r.instanceId = i) :
    (m.share CompensationRecord.instanceId i).get? r.key = m.get? r.key :=
  KeyedMap.get?_share fun _ _ hk => (congrArg Prod.fst hk).trans hid

namespace Store.Alike

theorem refl (i : Nat) (store : Store) : Alike i store store := ⟨rfl, rfl, rfl, rfl, rfl⟩

theorem symm (h : Alike i store other) : Alike i other store :=
  ⟨h.instances.symm, h.tokens.symm, h.subscriptions.symm, h.gatewayStates.symm,
    h.compensationRecords.symm⟩

theorem trans (h : Alike i store store') (h' : Alike i store' other) : Alike i store other :=
  ⟨h.instances.trans h'.instances, h.tokens.trans h'.tokens, h.subscriptions.trans h'.subscriptions,
    h.gatewayStates.trans h'.gatewayStates, h.compensationRecords.trans h'.compensationRecords⟩

theorem instance_get? (h : Alike i store other) :
    store.instances.get? i = other.instances.get? i := by
  rw [← get?_shareInstance, h.instances, get?_shareInstance]

theorem getInstance (h : Alike i store other) : store.getInstance i = other.getInstance i := by
  rw [Store.getInstance, Store.getInstance, h.instance_get?]

theorem mem_tokens (h : Alike i store other) {t : Token} (ht : t ∈ store.tokens.values)
    (hid : t.instanceId = i) : t ∈ other.tokens.values := by
  have hshare := KeyedMap.mem_share.2 ⟨ht, hid⟩
  rw [h.tokens] at hshare
  exact (KeyedMap.mem_share.1 hshare).1

theorem getAllTokens (h : Alike i store other) (order : RowOrder) :
    store.getAllTokens order i = other.getAllTokens order i := by
  rw [Store.getAllTokens, Store.getAllTokens]
  exact congrArg (fun m : KeyedMap Token.id => (order.tokens m.values).map reviveToken) h.tokens

theorem listGatewayStates (h : Alike i store other) (order : RowOrder) :
    store.listGatewayStates order i = other.listGatewayStates order i :=
  congrArg (fun m : KeyedMap GatewayJoinState.key => order.gatewayStates m.values) h.gatewayStates

theorem listCompensationRecords (h : Alike i store other) (order : RowOrder) :
    store.listCompensationRecords order i = other.listCompensationRecords order i := by
  have hvalues := congrArg KeyedMap.values h.compensationRecords
  rw [KeyedMap.values_share, KeyedMap.values_share] at hvalues
  rw [Store.listCompensationRecords, Store.listCompensationRecords, hvalues]

/-- The messages and signals that the instance waits for. -/
theorem findSubscriptions (h : Alike i store other) (filter : Store.SubscriptionFilter) :
    (store.findSubscriptions filter).filter (·.instanceId = i) =
      (other.findSubscriptions filter).filter (·.instanceId = i) := by
  have hvalues := congrArg KeyedMap.values h.subscriptions
  rw [KeyedMap.values_share, KeyedMap.values_share] at hvalues
  rw [Store.findSubscriptions, Store.findSubscriptions, List.filter_comm, hvalues, List.filter_comm]

end Store.Alike

/-! ## Operations within an instance -/

/-- No token or subscription of another instance has this id. -/
structure Store.Owns (store : Store) (i id : Nat) : Prop where
  tokens : ∀ t ∈ store.tokens.values, t.id = id → t.instanceId = i
  subscriptions : ∀ s ∈ store.subscriptions.values, s.tokenId = id → s.instanceId = i

/-- What the operation writes belongs to the instance. -/
def StoreOperation.Within (store : Store) (i : Nat) : StoreOperation → Prop
  | createInstance inst | updateInstance inst _ => inst.id = i
  | saveTokens tokens => ∀ t ∈ tokens, t.instanceId = i ∧ store.Owns i t.id
  | saveSubscription s => s.instanceId = i ∧ store.Owns i s.tokenId
  | deleteSubscription tokenId => store.Owns i tokenId
  | saveGatewayState s => s.key.2 = i
  | deleteGatewayState _ instanceId => instanceId = i
  | saveCompensationRecord r => r.instanceId = i
  | deleteCompensationRecord instanceId _ => instanceId = i
  | saveScope _ | createUserTask _ | updateUserTask _ => True

theorem Store.Owns.write (hop : op.Within store i) {id : Nat} (h : store.Owns i id) :
    (store.write op).Owns i id where
  tokens t ht hid := by
    cases op with
    | saveTokens tokens =>
      rcases KeyedMap.mem_foldl_set ht with ht | ht
      · exact h.tokens t ht hid
      · exact (hop t ht).1
    | _ => exact h.tokens t ht hid
  subscriptions s hs hid := by
    cases op with
    | saveSubscription new =>
      rcases KeyedMap.mem_set.1 hs with rfl | ⟨hs, -⟩
      · exact hop.1
      · exact h.subscriptions s hs hid
    | deleteSubscription tokenId => exact h.subscriptions s (KeyedMap.mem_erase.1 hs).1 hid
    | _ => exact h.subscriptions s hs hid

theorem StoreOperation.Within.write {op' : StoreOperation} (hop : op.Within store i)
    (h : op'.Within store i) : op'.Within (store.write op) i := by
  cases op' with
  | saveTokens tokens => exact fun t ht => ⟨(h t ht).1, (h t ht).2.write hop⟩
  | saveSubscription s => exact ⟨h.1, h.2.write hop⟩
  | deleteSubscription tokenId => exact Store.Owns.write hop h
  | _ => exact h

theorem apart_tokens {tokens : List Token} (h : (saveTokens tokens).Within store i) :
    KeyedMap.Apart Token.instanceId store.tokens i tokens :=
  fun t ht => ⟨(h t ht).1, (h t ht).2.tokens⟩

/-! ### Tables whose keys name the instance -/

theorem share_setInstance (m : KeyedMap InstanceRow.id) (row : InstanceRow) (hid : row.id = i) :
    (m.set row).share InstanceRow.id i = (m.share InstanceRow.id i).set row :=
  KeyedMap.share_set_self hid fun _ _ hk => hk.trans hid

theorem share_setInstance_of_ne (m : KeyedMap InstanceRow.id) (row : InstanceRow)
    (hid : row.id ≠ i) : (m.set row).share InstanceRow.id i = m.share InstanceRow.id i :=
  KeyedMap.share_set_of_ne hid fun _ _ hk => hk.trans_ne hid

theorem share_setJoin (m : KeyedMap GatewayJoinState.key) {s : GatewayJoinState}
    (hid : s.key.2 = i) : (m.set s).share (·.key.2) i = (m.share (·.key.2) i).set s :=
  KeyedMap.share_set_self hid fun _ _ hk => (congrArg Prod.snd hk).trans hid

theorem share_setJoin_of_ne (m : KeyedMap GatewayJoinState.key) {s : GatewayJoinState}
    (hid : s.key.2 ≠ i) : (m.set s).share (·.key.2) i = m.share (·.key.2) i :=
  KeyedMap.share_set_of_ne hid fun _ _ hk => (congrArg Prod.snd hk).trans_ne hid

theorem owner_of_recordKey {m : KeyedMap CompensationRecord.key} {k : Nat × Nat} :
    ∀ r ∈ m.values, r.key = k → r.instanceId = k.1 := fun _ _ hk => congrArg Prod.fst hk

theorem share_setRecord (m : KeyedMap CompensationRecord.key) {r : CompensationRecord}
    (hid : r.instanceId = i) : (m.set r).share CompensationRecord.instanceId i =
    (m.share CompensationRecord.instanceId i).set r :=
  KeyedMap.share_set_self hid fun x hx hk => (owner_of_recordKey x hx hk).trans hid

theorem share_setRecord_of_ne (m : KeyedMap CompensationRecord.key) {r : CompensationRecord}
    (hid : r.instanceId ≠ i) : (m.set r).share CompensationRecord.instanceId i =
    m.share CompensationRecord.instanceId i :=
  KeyedMap.share_set_of_ne hid fun x hx hk => (owner_of_recordKey x hx hk).trans_ne hid

/-! ### One operation -/

/-- The rows of the instance change alike. -/
theorem Store.Alike.write (h : Alike i store other) (hs : op.Within store i)
    (ho : op.Within other i) : Alike i (store.write op) (other.write op) where
  instances := by
    cases op with
    | createInstance inst =>
      show (store.instances.set ⟨inst, 1⟩).share _ i = (other.instances.set ⟨inst, 1⟩).share _ i
      rw [share_setInstance _ ⟨inst, 1⟩ hs, h.instances, share_setInstance _ ⟨inst, 1⟩ hs]
    | updateInstance inst version =>
      have hs : inst.id = i := hs
      show (writeInstances store.instances _).share _ i =
        (writeInstances other.instances _).share _ i
      rw [writeInstances, writeInstances, hs, h.instance_get?]
      cases other.instances.get? i with
      | none => exact h.instances
      | some row =>
        show (store.instances.set _).share _ i = (other.instances.set _).share _ i
        rw [share_setInstance _ ⟨inst, row.version + 1⟩ hs, h.instances,
          share_setInstance _ ⟨inst, row.version + 1⟩ hs]
    | _ => exact h.instances
  tokens := by
    cases op with
    | saveTokens tokens =>
      show (tokens.foldl KeyedMap.set store.tokens).share _ i =
        (tokens.foldl KeyedMap.set other.tokens).share _ i
      rw [KeyedMap.share_foldl_set_self (apart_tokens hs), h.tokens,
        KeyedMap.share_foldl_set_self (apart_tokens ho)]
    | _ => exact h.tokens
  subscriptions := by
    cases op with
    | saveSubscription s =>
      show (store.subscriptions.set s).share _ i = (other.subscriptions.set s).share _ i
      rw [KeyedMap.share_set_self hs.1 hs.2.subscriptions, h.subscriptions,
        KeyedMap.share_set_self ho.1 ho.2.subscriptions]
    | deleteSubscription tokenId =>
      show (store.subscriptions.erase tokenId).share _ i =
        (other.subscriptions.erase tokenId).share _ i
      rw [KeyedMap.share_erase, KeyedMap.share_erase, h.subscriptions]
    | _ => exact h.subscriptions
  gatewayStates := by
    cases op with
    | saveGatewayState s =>
      show (store.gatewayStates.set s).share _ i = (other.gatewayStates.set s).share _ i
      rw [share_setJoin _ hs, h.gatewayStates, share_setJoin _ hs]
    | deleteGatewayState gatewayId instanceId =>
      show (store.gatewayStates.erase _).share _ i = (other.gatewayStates.erase _).share _ i
      rw [KeyedMap.share_erase, KeyedMap.share_erase, h.gatewayStates]
    | _ => exact h.gatewayStates
  compensationRecords := by
    cases op with
    | saveCompensationRecord r =>
      have hs : r.instanceId = i := hs
      have hget : store.compensationRecords.get? r.key = other.compensationRecords.get? r.key := by
        rw [← get?_shareRecord _ hs, h.compensationRecords, get?_shareRecord _ hs]
      show (writeCompensationRecords store.compensationRecords _).share _ i =
        (writeCompensationRecords other.compensationRecords _).share _ i
      rw [writeCompensationRecords, writeCompensationRecords, hget]
      split
      · exact h.compensationRecords
      · rw [share_setRecord _ hs, h.compensationRecords, share_setRecord _ hs]
    | deleteCompensationRecord instanceId tokenId =>
      show (store.compensationRecords.erase _).share _ i =
        (other.compensationRecords.erase _).share _ i
      rw [KeyedMap.share_erase, KeyedMap.share_erase, h.compensationRecords]
    | _ => exact h.compensationRecords

/-- The rows of another instance do not change. -/
theorem Store.Alike.write_other (hop : op.Within store j) (hne : j ≠ i) :
    Alike i (store.write op) store where
  instances := by
    cases op with
    | createInstance inst => exact share_setInstance_of_ne _ _ (hop.trans_ne hne)
    | updateInstance inst version =>
      show (writeInstances store.instances _).share _ i = _
      rw [writeInstances]
      split
      · rfl
      · exact share_setInstance_of_ne _ _ (hop.trans_ne hne)
    | _ => rfl
  tokens := by
    cases op with
    | saveTokens tokens => exact KeyedMap.share_foldl_set_of_ne (apart_tokens hop) hne
    | _ => rfl
  subscriptions := by
    cases op with
    | saveSubscription s =>
      exact KeyedMap.share_set_of_ne (hop.1.trans_ne hne) fun x hx hk =>
        (hop.2.subscriptions x hx hk).trans_ne hne
    | deleteSubscription tokenId => exact KeyedMap.share_erase_of_ne hop.subscriptions hne
    | _ => rfl
  gatewayStates := by
    cases op with
    | saveGatewayState s => exact share_setJoin_of_ne _ (hop.trans_ne hne)
    | deleteGatewayState gatewayId instanceId =>
      exact KeyedMap.share_erase_of_ne (fun x hx hk => (congrArg Prod.snd hk).trans hop) hne
    | _ => rfl
  compensationRecords := by
    cases op with
    | saveCompensationRecord r =>
      show (writeCompensationRecords store.compensationRecords _).share _ i = _
      rw [writeCompensationRecords]
      split
      · rfl
      · exact share_setRecord_of_ne _ (hop.trans_ne hne)
    | deleteCompensationRecord instanceId tokenId =>
      exact KeyedMap.share_erase_of_ne (fun x hx hk => (owner_of_recordKey x hx hk).trans hop) hne
    | _ => rfl

/-! ## Transactions within an instance -/

theorem Store.Alike.foldl_write (h : Alike i store other) (hs : ∀ op ∈ ops, op.Within store i)
    (ho : ∀ op ∈ ops, op.Within other i) :
    Alike i (ops.foldl Store.write store) (ops.foldl Store.write other) := by
  induction ops generalizing store other with
  | nil => exact h
  | cons op ops ih =>
    have hop := hs op List.mem_cons_self
    have hop' := ho op List.mem_cons_self
    exact ih (h.write hop hop') (fun x hx => hop.write (hs x (List.mem_cons_of_mem op hx)))
      fun x hx => hop'.write (ho x (List.mem_cons_of_mem op hx))

theorem Store.Alike.foldl_write_other (hs : ∀ op ∈ ops, op.Within store j) (hne : j ≠ i) :
    Alike i (ops.foldl Store.write store) store := by
  induction ops generalizing store with
  | nil => exact .refl i store
  | cons op ops ih =>
    have hop := hs op List.mem_cons_self
    exact (ih fun x hx => hop.write (hs x (List.mem_cons_of_mem op hx))).trans
      (.write_other hop hne)

/-- Records of tasks belong to no share. -/
theorem within_of_userTasks (h : op.table = .userTasks) : op.Within store i := by
  cases op <;> first | exact absurd h (by decide) | trivial

theorem Store.Alike.foldl_write_tasks (h : ∀ op ∈ ops, op.table = .userTasks) :
    Alike i (ops.foldl Store.write store) store :=
  foldl_write_other (j := i + 1) (fun op hop => within_of_userTasks (h op hop)) (Nat.succ_ne_self i)

end NexusWorkflow
