import NexusWorkflow.Proof.Scopes
import NexusWorkflow.Store.Shares

/-!
# Instances do not meddle with each other

Take a run of the service and leave out everything that was done with other instances: what is left
is a run as well, and it brings the instance to the same state.
-/

namespace NexusWorkflow

open StoreOperation

variable {definitions : String → Nat → Option ProcessDefinition} {store store' alone alone' : Store}
  {nextId nextId' : Nat} {i : Nat}

/-! ## Runs -/

/-- Something that is done with a store. -/
inductive Move where
  | start (d : ProcessDefinition) (fuel : Nat) (vars : Option Variables)
      (correlationKey businessKey : Option String)
      (options : ExecuteOptions) (firstTaskId : Nat)
  | cycle (c : Cycle) (instanceId : Nat)
  /-- User-task records are written on their own. -/
  | tasks (ops : List StoreOperation)

/-- The move is about the instance; a new instance gets the first of the new ids. -/
def Move.isAbout (i : Nat) : Move → Bool
  | start _ _ _ _ _ options _ => options.firstId = i
  | cycle _ instanceId => instanceId = i
  | tasks _ => false

variable (definitions) in
/-- The move goes through. -/
inductive Move.Makes : Move → Store → Nat → Store → Nat → Prop
  | start {store store' : Store} {nextId : Nat} {d : ProcessDefinition} {fuel : Nat}
      {vars : Option Variables} {correlationKey businessKey : Option String}
      {options : ExecuteOptions} {firstTaskId : Nat}
      {result : EngineResult} (hid : nextId ≤ options.firstId)
      (h : execute d fuel (.startProcess vars correlationKey businessKey) none options = .ok result)
      (hsave : store.executeTransaction (computeStoreOps true none none result.newState ++
        buildUserTaskCreationOps firstTaskId result.events d) = .ok store') :
      Makes (.start d fuel vars correlationKey businessKey options firstTaskId) store nextId store'
        result.nextId
  | cycle {store store' : Store} {nextId : Nat} {c : Cycle} {instanceId : Nat}
      {d : ProcessDefinition} {state : EngineState} {version : Nat} {result : EngineResult}
      {ops : List StoreOperation} (hid : nextId ≤ c.options.firstId)
      (hdone : c.Done definitions instanceId store d state version result ops store') :
      Makes (.cycle c instanceId) store nextId store' result.nextId
  | tasks {store store' : Store} {nextId : Nat} {ops : List StoreOperation}
      (htable : ∀ op ∈ ops, op.table = .userTasks)
      (hsave : store.executeTransaction ops = .ok store') :
      Makes (.tasks ops) store nextId store' nextId

variable (definitions) in
/-- The moves are made one after the other, on an empty store at first. -/
inductive Course : List Move → Store → Nat → Prop
  | nil : Course [] ∅ 0
  | snoc {moves : List Move} {move : Move} {store store' : Store} {nextId nextId' : Nat}
      (course : Course moves store nextId)
      (hmakes : move.Makes definitions store nextId store' nextId') :
      Course (moves ++ [move]) store' nextId'

variable {moves moves' : List Move}

theorem Course.served (h : Course definitions moves store nextId) :
    Served definitions (fun _ => True) store nextId := by
  induction h with
  | nil => exact .empty
  | snoc _ hmakes ih =>
    cases hmakes with
    | start hid h hsave => exact .start ih hid h trivial hsave
    | cycle hid hdone => exact .cycle ih hid hdone trivial
    | tasks htable hsave => exact .tasks ih htable trivial hsave

/-! ## Subscriptions -/

/-- Every subscription is that of a token of its instance. -/
def Store.Filed (store : Store) : Prop :=
  ∀ s ∈ store.subscriptions.values, ∃ t ∈ store.tokens.values, t.id = s.tokenId ∧
    t.instanceId = s.instanceId

/-- The id of a token belongs to its instance. -/
theorem Store.Filed.owns (h : store.Filed) {t : Token} (ht : t ∈ store.tokens.values) :
    store.Owns t.instanceId t.id where
  tokens u hu hid := congrArg Token.instanceId (KeyedMap.eq_of_key_eq hu ht hid)
  subscriptions s hs hid := by
    obtain ⟨u, hu, huid, hinst⟩ := h s hs
    have hsame : u = t := KeyedMap.eq_of_key_eq hu ht (huid.trans hid)
    rw [← hinst, hsame]

/-- A new id belongs to any instance. -/
theorem Store.Filed.owns_new (h : store.Filed) (hsound : store.Sound nextId) {id : Nat}
    (hid : nextId ≤ id) : store.Owns i id where
  tokens t ht heq := by
    have := (hsound.known t ht).1
    omega
  subscriptions s hs heq := by
    obtain ⟨t, ht, htid, -⟩ := h s hs
    have := (hsound.known t ht).1
    omega

theorem mem_foldl_writeSubscriptions {ops : List StoreOperation}
    {m : KeyedMap EventSubscription.tokenId} {s : EventSubscription}
    (h : s ∈ (ops.foldl writeSubscriptions m).values) :
    s ∈ m.values ∨ saveSubscription s ∈ ops := by
  induction ops generalizing m with
  | nil => exact .inl h
  | cons op ops ih =>
    rcases ih h with hm | hop
    · cases op with
      | saveSubscription new =>
        rcases KeyedMap.mem_set.1 hm with rfl | ⟨hm, -⟩
        · exact .inr List.mem_cons_self
        · exact .inl hm
      | deleteSubscription tokenId => exact .inl (KeyedMap.mem_erase.1 hm).1
      | _ => exact .inl hm
    · exact .inr (List.mem_cons_of_mem op hop)

/-! ## Tasks -/

theorem isSome_writeUserTasks_iff (m : KeyedMap UserTaskRecord.id) (op : StoreOperation)
    (id : Nat) : ((writeUserTasks m op).get? id).isSome ↔
      (m.get? id).isSome ∨ ∃ task, op = createUserTask task ∧ task.id = id := by
  cases op with
  | createUserTask task =>
    show ((m.set task).get? id).isSome ↔ _
    rw [KeyedMap.get?_set]
    split_ifs with hid
    · exact iff_of_true rfl (.inr ⟨task, rfl, hid⟩)
    · refine ⟨.inl, ?_⟩
      rintro (h | ⟨_, heq, rfl⟩)
      · exact h
      · cases heq
        exact absurd rfl hid
  | updateUserTask task =>
    have hor : (m.get? id).isSome ∨
        (∃ new, updateUserTask task = createUserTask new ∧ new.id = id) ↔
        (m.get? id).isSome := or_iff_left fun ⟨_, heq, _⟩ => by cases heq
    rw [hor, writeUserTasks]
    split_ifs with hsome
    · rw [KeyedMap.get?_set]
      split_ifs with hid
      · exact iff_of_true rfl (hid ▸ hsome)
      · rfl
    · rfl
  | _ =>
    refine ⟨.inl, ?_⟩
    rintro (h | ⟨_, heq, _⟩)
    · exact h
    · cases heq

/-- Only creating a task adds one. -/
theorem isSome_foldl_writeUserTasks_iff {ops : List StoreOperation} {m : KeyedMap UserTaskRecord.id}
    {id : Nat} : ((ops.foldl writeUserTasks m).get? id).isSome ↔
      (m.get? id).isSome ∨ ∃ task, createUserTask task ∈ ops ∧ task.id = id := by
  induction ops generalizing m with
  | nil => simp
  | cons op ops ih =>
    rw [List.foldl_cons, ih, isSome_writeUserTasks_iff, or_assoc]
    refine or_congr_right ⟨?_, ?_⟩
    · rintro (⟨task, rfl, hid⟩ | ⟨task, hop, hid⟩)
      · exact ⟨task, List.mem_cons_self, hid⟩
      · exact ⟨task, List.mem_cons_of_mem _ hop, hid⟩
    · rintro ⟨task, hop, hid⟩
      rcases List.mem_cons.1 hop with rfl | hop
      · exact .inl ⟨task, rfl, hid⟩
      · exact .inr ⟨task, hop, hid⟩

theorem executeTransaction_append {first second : List StoreOperation} :
    store.executeTransaction (first ++ second) = .ok store' ↔
      ∃ mid, store.executeTransaction first = .ok mid ∧
        mid.executeTransaction second = .ok store' := by
  rw [Store.executeTransaction, List.foldlM_append, Except.bind_eq_ok_iff]
  rfl

theorem createUserTask_ok {task : UserTaskRecord} :
    (∃ mid, store.applyOp (createUserTask task) = .ok mid) ↔
    store.userTasks.get? task.id = none := by
  show (∃ mid, store.createUserTask task = .ok mid) ↔ _
  rw [Store.createUserTask]
  cases store.userTasks.get? task.id with
  | none => exact iff_of_true ⟨_, rfl⟩ rfl
  | some old => exact iff_of_false (fun ⟨_, h⟩ => by cases h) (Option.some_ne_none old)

theorem closes_tasks (closed : List UserTaskRecord) (store : Store) :
    ∃ store', store.executeTransaction (closed.map updateUserTask) = .ok store' := by
  induction closed generalizing store with
  | nil => exact ⟨store, rfl⟩
  | cons task closed ih =>
    obtain ⟨store', h⟩ := ih (store.updateUserTask task)
    exact ⟨store', Except.foldlM_cons_eq_ok_iff.2 ⟨_, rfl, h⟩⟩

/-- Tasks can be created where all tasks are in the other store as well; closing one cannot fail. -/
theorem saves_tasks {ops : List StoreOperation} (hops : ∀ op ∈ ops, op.table = .userTasks)
    {closed : List UserTaskRecord}
    (hids : ∀ id, (alone.userTasks.get? id).isSome → (store.userTasks.get? id).isSome)
    (hsave : store.executeTransaction (ops ++ closed.map updateUserTask) = .ok store')
    (closed' : List UserTaskRecord) :
    ∃ alone', alone.executeTransaction (ops ++ closed'.map updateUserTask) = .ok alone' := by
  induction ops generalizing alone store with
  | nil => exact closes_tasks closed' alone
  | cons op ops ih =>
    obtain ⟨mid, hmid, hrest⟩ := Except.foldlM_cons_eq_ok_iff.1 hsave
    obtain ⟨mid', hmid'⟩ : ∃ mid', alone.applyOp op = .ok mid' := by
      cases op with
      | createUserTask task =>
        have hnone := createUserTask_ok.1 ⟨mid, hmid⟩
        refine createUserTask_ok.2 (Option.not_isSome_iff_eq_none.1 fun hsome => ?_)
        rw [← Option.not_isSome_iff_eq_none] at hnone
        exact hnone (hids task.id hsome)
      | updateUserTask task => exact ⟨_, rfl⟩
      | _ => cases hops _ List.mem_cons_self
    have hids' : ∀ id, (mid'.userTasks.get? id).isSome → (mid.userTasks.get? id).isSome := by
      intro id
      rw [applyOp_write hmid, applyOp_write hmid']
      show ((writeUserTasks _ op).get? id).isSome → ((writeUserTasks _ op).get? id).isSome
      rw [isSome_writeUserTasks_iff, isSome_writeUserTasks_iff]
      exact Or.imp_left (hids id)
    obtain ⟨alone', halone⟩ := ih (fun op hop => hops op (List.mem_cons_of_mem _ hop)) hids' hrest
    exact ⟨alone', Except.foldlM_cons_eq_ok_iff.2 ⟨mid', hmid', halone⟩⟩

/-! ## What a move writes -/

section Writes

variable {isNew : Bool} {oldState : Option EngineState} {version : Option Nat} {new : EngineState}

/-- The tokens of the states, before and after, have ids that belong to the instance. -/
structure Writes (store : Store) (oldState : Option EngineState) (new : EngineState) : Prop where
  owned : new.Owned
  tokens : ∀ t ∈ new.tokens, store.Owns new.inst.id t.id
  oldTokens : ∀ old ∈ oldState, ∀ t ∈ old.tokens, store.Owns new.inst.id t.id
  oldJoins : ∀ old ∈ oldState, ∀ s ∈ old.gatewayJoinStates, s.key.2 = new.inst.id
  oldRecords : ∀ old ∈ oldState, ∀ r ∈ old.compensationRecords, r.instanceId = new.inst.id

theorem mem_getD_map {α β : Type} {o : Option α} {f : α → List β} {x : β}
    (h : x ∈ (o.map f).getD []) : ∃ a ∈ o, x ∈ f a := by
  cases o with
  | none => cases h
  | some a => exact ⟨a, rfl, h⟩

theorem Writes.stateOps (h : Writes store oldState new) {instanceOp : StoreOperation}
    (hop : instanceOp.Within store new.inst.id) :
    ∀ op ∈ stateOps instanceOp oldState new, op.Within store new.inst.id := by
  intro op hmem
  rcases List.mem_cons.1 hmem with rfl | hmem
  · exact hop
  rcases List.mem_cons.1 hmem with rfl | hmem
  · exact fun t ht => ⟨h.owned.tokens t ht, h.tokens t ht⟩
  rcases List.mem_append.1 hmem with hmem | hmem
  · obtain ⟨s, -, rfl⟩ := List.mem_map.1 hmem
    trivial
  rcases List.mem_append.1 hmem with hmem | hmem
  · obtain ⟨s, hs, rfl⟩ := List.mem_map.1 hmem
    exact h.owned.joins s hs
  · obtain ⟨s, hs, rfl⟩ := List.mem_map.1 hmem
    obtain ⟨old, hold, hs⟩ := mem_getD_map (List.mem_filter.1 hs).1
    exact h.oldJoins old hold s hs

theorem Writes.subscriptionOps (h : Writes store oldState new) :
    ∀ op ∈ subscriptionOps ((oldState.map (·.tokens)).getD []) new.tokens,
      op.Within store new.inst.id := by
  intro op hmem
  rcases List.mem_append.1 hmem with hmem | hmem
  · obtain ⟨t, ht, hop⟩ := List.mem_filterMap.1 hmem
    split at hop
    · cases hop
    · obtain ⟨type, -, rfl⟩ := Option.map_eq_some_iff.1 hop
      exact ⟨h.owned.tokens t ht, h.tokens t ht⟩
  · obtain ⟨t, ht, rfl⟩ := List.mem_map.1 hmem
    obtain ⟨old, hold, ht⟩ := mem_getD_map (List.mem_filter.1 ht).1
    exact h.oldTokens old hold t ht

theorem Writes.compensationOps (h : Writes store oldState new) :
    ∀ op ∈ compensationOps ((oldState.map (·.compensationRecords)).getD []) new.compensationRecords,
      op.Within store new.inst.id := by
  intro op hmem
  rcases List.mem_append.1 hmem with hmem | hmem
  · obtain ⟨r, hr, rfl⟩ := List.mem_map.1 hmem
    exact h.owned.records r (List.mem_filter.1 hr).1
  · obtain ⟨r, hr, rfl⟩ := List.mem_map.1 hmem
    obtain ⟨old, hold, hr⟩ := mem_getD_map (List.mem_filter.1 hr).1
    exact h.oldRecords old hold r hr

theorem Writes.computeStoreOps (h : Writes store oldState new) :
    ∀ op ∈ computeStoreOps isNew oldState version new, op.Within store new.inst.id := by
  intro op hmem
  rcases List.mem_append.1 hmem with hmem | hmem
  · refine h.stateOps ?_ op hmem
    split <;> rfl
  · rcases List.mem_append.1 hmem with hmem | hmem
    · exact h.subscriptionOps op hmem
    · exact h.compensationOps op hmem

/-- After the instance, neither instances nor tasks are written. -/
theorem stateOps_tail {op : StoreOperation}
    (hop : op ∈ saveTokens new.tokens :: (new.scopes.map saveScope ++ gatewayOps oldState new)) :
    op.table = .tokens ∨ op.table = .scopes ∨ op.table = .gatewayStates := by
  rcases List.mem_cons.1 hop with rfl | hop
  · exact .inl rfl
  rcases List.mem_append.1 hop with hop | hop
  · exact .inr (.inl (scopeOps_table op hop))
  · exact .inr (.inr (gatewayOps_table op hop))

theorem computeStoreOps_eq : ∃ more, computeStoreOps isNew oldState version new =
    (if isNew then createInstance new.inst else updateInstance new.inst version) :: more ∧
      ∀ op ∈ more, op.table ≠ .instances ∧ op.table ≠ .userTasks := by
  refine ⟨_, rfl, fun op hop => ?_⟩
  rcases List.mem_append.1 hop with hop | hop
  · rcases stateOps_tail hop with h | h | h <;> rw [h] <;> decide
  rcases List.mem_append.1 hop with hop | hop
  · rw [subscriptionOps_table op hop]
    decide
  · rw [compensationOps_table op hop]
    decide

/-- Subscriptions are saved for tokens of the new state. -/
theorem saved_of_computeStoreOps {s : EventSubscription}
    (hop : saveSubscription s ∈ computeStoreOps isNew oldState version new) :
    ∃ t ∈ new.tokens, t.id = s.tokenId ∧ t.instanceId = s.instanceId := by
  rcases List.mem_append.1 hop with hop | hop
  · rcases List.mem_cons.1 hop with heq | hop
    · cases isNew <;> cases heq
    · rcases stateOps_tail hop with h | h | h <;> cases h
  rcases List.mem_append.1 hop with hop | hop
  · rcases List.mem_append.1 hop with hop | hop
    · obtain ⟨t, ht, hop⟩ := List.mem_filterMap.1 hop
      split at hop
      · cases hop
      · obtain ⟨type, -, heq⟩ := Option.map_eq_some_iff.1 hop
        cases heq
        exact ⟨t, ht, rfl, rfl⟩
    · obtain ⟨t, -, heq⟩ := List.mem_map.1 hop
      cases heq
  · cases compensationOps_table _ hop

end Writes

/-! ## What a move does to a store -/

/-- The operations of a move about the instance: `core` writes its new state and `created` its new
tasks. -/
structure Store.Commits (i : Nat) (core created : List StoreOperation) (new : EngineState)
    (store : Store) (nextId : Nat) (store' : Store) (nextId' : Nat) : Prop where
  instId : new.inst.id = i
  replants : store.Replants nextId new store' nextId'
  within : ∀ op ∈ core, op.Within store i
  core_table : ∀ op ∈ core, op.table ≠ .userTasks
  created_table : ∀ op ∈ created, op.table = .userTasks
  saves : ∃ closed : List UserTaskRecord,
    store.executeTransaction (core ++ (created ++ closed.map StoreOperation.updateUserTask)) =
      .ok store'
  kept : ∀ t ∈ store.tokens.values, t.instanceId = i → ∃ t' ∈ new.tokens, t'.id = t.id
  filed : ∀ s, StoreOperation.saveSubscription s ∈ core → ∃ t ∈ new.tokens, t.id = s.tokenId ∧
    t.instanceId = s.instanceId

theorem tasks_table {created : List StoreOperation} (h : ∀ op ∈ created, op.table = .userTasks)
    (closed : List UserTaskRecord) : ∀ op ∈ created ++ closed.map StoreOperation.updateUserTask,
    op.table = .userTasks := by
  intro op hop
  rcases List.mem_append.1 hop with hop | hop
  · exact h op hop
  · exact updateUserTask_table op hop

namespace Store.Commits

variable {core created : List StoreOperation} {new : EngineState} {j : Nat}

theorem filedAfter (h : store.Commits i core created new nextId store' nextId')
    (hfiled : store.Filed) : store'.Filed := by
  intro s hs
  obtain ⟨closed, hsaves⟩ := h.saves
  obtain ⟨-, -, -, -, hsubscriptions, -⟩ := executeTransaction_tables hsaves
  rw [hsubscriptions] at hs
  rcases mem_foldl_writeSubscriptions hs with hs | hop
  · obtain ⟨t, ht, hid, hinst⟩ := hfiled s hs
    by_cases hti : t.instanceId = i
    · obtain ⟨t', ht', hid'⟩ := h.kept t ht hti
      exact ⟨t', (h.replants.replaced.tokens t').2 (.inl ht'), hid'.trans hid,
        (h.replants.owned t' ht').trans (h.instId.trans (hti.symm.trans hinst))⟩
    · exact ⟨t, (h.replants.replaced.tokens t).2 (.inr ⟨ht, h.instId.symm ▸ hti⟩), hid, hinst⟩
  · rcases List.mem_append.1 hop with hop | hop
    · obtain ⟨t, ht, hid, hinst⟩ := h.filed s hop
      exact ⟨t, (h.replants.replaced.tokens t).2 (.inl ht), hid, hinst⟩
    · cases tasks_table h.created_table closed _ hop

theorem alike_written (h : store.Commits i core created new nextId store' nextId') :
    Store.Alike j store' (core.foldl Store.write store) := by
  obtain ⟨closed, hsaves⟩ := h.saves
  rw [executeTransaction_write hsaves, List.foldl_append]
  exact .foldl_write_tasks (tasks_table h.created_table closed)

theorem userTasks_written (h : store.Commits i core created new nextId store' nextId') (id : Nat) :
    (store'.userTasks.get? id).isSome ↔
      (store.userTasks.get? id).isSome ∨ ∃ task, StoreOperation.createUserTask task ∈ created ∧
      task.id = id := by
  obtain ⟨closed, hsaves⟩ := h.saves
  obtain ⟨-, -, -, htasks, -⟩ := executeTransaction_tables hsaves
  rw [htasks, isSome_foldl_writeUserTasks_iff]
  refine or_congr_right ⟨?_, ?_⟩
  · rintro ⟨task, hop, rfl⟩
    rcases List.mem_append.1 hop with hop | hop
    · exact absurd rfl (h.core_table _ hop)
    rcases List.mem_append.1 hop with hop | hop
    · exact ⟨task, hop, rfl⟩
    · obtain ⟨_, -, heq⟩ := List.mem_map.1 hop
      cases heq
  · rintro ⟨task, hop, rfl⟩
    exact ⟨task, List.mem_append_right _ (List.mem_append_left _ hop), rfl⟩

end Store.Commits

/-! ## Two stores with the same instance -/

/-- The instance is in both stores, with the same scopes, and no task is in the one store alone. -/
structure Store.Mirrors (i : Nat) (alone store : Store) : Prop where
  alike : Store.Alike i alone store
  scopes : ∀ row ∈ alone.instances.values, row.data.id = i → ∀ id, alone.InUse row.data id →
    alone.getScope id = store.getScope id
  tasks : ∀ id, (alone.userTasks.get? id).isSome → (store.userTasks.get? id).isSome

theorem Store.Alike.inUse (h : Alike i store other) {inst : ProcessInstance} (hid : inst.id = i)
    {id : Nat} : store.InUse inst id ↔ other.InUse inst id := by
  refine or_congr_right ⟨?_, ?_⟩
  · rintro ⟨t, ht, hinst, rfl⟩
    exact ⟨t, h.mem_tokens ht (hinst.trans hid), hinst, rfl⟩
  · rintro ⟨t, ht, hinst, rfl⟩
    exact ⟨t, h.symm.mem_tokens ht (hinst.trans hid), hinst, rfl⟩

namespace Store.Mirrors

variable {core created : List StoreOperation} {new : EngineState} {j : Nat}

/-- What is loaded for the instance is the same. -/
theorem loaded (h : alone.Mirrors i store) {row : InstanceRow} (hrow : row ∈ alone.instances.values)
    (hid : row.data.id = i) (order : RowOrder) :
    alone.loaded order (reviveInstance row.data) =
      store.loaded order (reviveInstance row.data) := by
  have hid' : (reviveInstance row.data).id = i := hid
  have htokens : alone.getAllTokens order (reviveInstance row.data).id =
      store.getAllTokens order (reviveInstance row.data).id := by
    rw [hid', h.alike.getAllTokens]
  have hscopes : ∀ id ∈ distinct ((reviveInstance row.data).rootScopeId ::
      (alone.getAllTokens order (reviveInstance row.data).id).map (·.scopeId)),
      (alone.getScope id).toList = (store.getScope id).toList := by
    intro id hmem
    rw [h.scopes row hrow hid id ((mem_distinct_loaded order (reviveInstance row.data) id).1 hmem)]
  rw [Store.loaded, Store.loaded, List.flatMap_congr hscopes, htokens, hid',
    h.alike.listGatewayStates,
    h.alike.listCompensationRecords]

theorem load (h : alone.Mirrors i store) (order : RowOrder) :
    (loadEngineState order i).alone alone = (loadEngineState order i).alone store := by
  rw [loadEngineState_alone, loadEngineState_alone, h.alike.getInstance]
  cases hget : store.getInstance i with
  | none => rfl
  | some found =>
    rw [← h.alike.getInstance] at hget
    obtain ⟨row, hrow, heq⟩ := Option.map_eq_some_iff.1 hget
    have hinst : found.1 = reviveInstance row.data := congrArg Prod.fst heq.symm
    simp only [Option.map_some, hinst]
    have hid : row.id = i := KeyedMap.key_of_get? hrow
    rw [h.loaded (KeyedMap.mem_of_get? hrow) hid]

/-- The same is written to both. -/
theorem commit (h : alone.Mirrors i store)
    (hstore : store.Commits i core created new nextId store' nextId')
    {m m' : Nat} (halone : alone.Commits i core created new m alone' m') :
    alone'.Mirrors i store' where
  alike := by
    have hcore := h.alike.foldl_write halone.within hstore.within
    exact (halone.alike_written.trans hcore).trans hstore.alike_written.symm
  scopes row hrow hid id huse := by
    rcases halone.replants.replaced.instances row hrow with heq | ⟨-, hne⟩
    · rw [heq] at huse
      obtain ⟨s, hs, rfl⟩ := halone.replants.inUse_new.1 huse
      rw [getScope_saved_of_mem halone.replants.nested.nodup halone.replants.scopes hs,
        getScope_saved_of_mem hstore.replants.nested.nodup hstore.replants.scopes hs]
    · exact absurd (hid.trans halone.instId.symm) hne
  tasks id hid := by
    rw [hstore.userTasks_written]
    exact ((halone.userTasks_written id).1 hid).imp_left (h.tasks id)

/-- What is written for another instance does not matter. -/
theorem commit_other (h : alone.Mirrors i store) (hforest : store.Forest nextId)
    (hstore : store.Commits j core created new nextId store' nextId') (hne : j ≠ i) :
    alone.Mirrors i store' where
  alike := by
    have hcore : Store.Alike i (core.foldl Store.write store) store :=
        .foldl_write_other hstore.within hne
    exact h.alike.trans (hstore.alike_written.trans hcore).symm
  scopes row hrow hid id huse := by
    have hget : store.instances.get? i = some row := by
      rw [← h.alike.instance_get?, ← hid]
      exact KeyedMap.get?_of_mem hrow
    have hnot : row.data.id ≠ new.inst.id := by
      rw [hid, hstore.instId]
      exact hne.symm
    rw [h.scopes row hrow hid id huse, getScope_saved hstore.replants.scopes]
    intro s hs
    exact hstore.replants.untouched hforest (KeyedMap.mem_of_get? hget) hnot
      ((h.alike.inUse hid).1 huse) hs
  tasks id hid := by
    rw [hstore.userTasks_written]
    exact .inl (h.tasks id hid)

/-- What is saved in the store can be saved in the other one, if that takes the operation on the
instance. -/
theorem saves (h : alone.Mirrors i store)
    (hstore : store.Commits i core created new nextId store' nextId') {op : StoreOperation}
    {more : List StoreOperation} (hcore : core = op :: more)
    (hmore : ∀ op ∈ more, op.table ≠ .instances ∧ op.table ≠ .userTasks)
    (hop : ∃ mid, alone.applyOp op = .ok mid) (closed : List UserTaskRecord) :
    ∃ alone', alone.executeTransaction
      (core ++ (created ++ closed.map StoreOperation.updateUserTask)) =
      .ok alone' := by
  obtain ⟨closed', hsaves⟩ := hstore.saves
  obtain ⟨mid, hmid, hrest⟩ := executeTransaction_append.1 hsaves
  obtain ⟨first, hfirst⟩ := hop
  obtain ⟨mid', hmid'⟩ := executeTransaction_ok first hmore
  have hcommon : alone.executeTransaction core = .ok mid' := by
    rw [hcore]
    exact Except.foldlM_cons_eq_ok_iff.2 ⟨first, hfirst, hmid'⟩
  have hspared : ∀ {x y : Store}, x.executeTransaction core = .ok y →
      y.userTasks = x.userTasks := by
    intro x y hxy
    obtain ⟨-, -, -, htasks, -⟩ := executeTransaction_tables hxy
    rw [htasks]
    exact foldl_eq_self (fun op hop => writeUserTasks_of_table (hstore.core_table op hop)) _
  have hids : ∀ id, (mid'.userTasks.get? id).isSome → (mid.userTasks.get? id).isSome := by
    rw [hspared hcommon, hspared hmid]
    exact h.tasks
  obtain ⟨alone', halone⟩ := saves_tasks hstore.created_table hids hrest closed
  exact ⟨alone', executeTransaction_append.2 ⟨mid', hcommon, halone⟩⟩

end Store.Mirrors

/-! ## What a caller writes -/

/-- What a caller writes besides the records of tasks. -/
def Caller.coreOps (state : EngineState) (version : Nat) (result : EngineResult) :
    Caller → List StoreOperation
  | .request _ => computeStoreOps false (some state) (some version) result.newState
  | .worker => TaskWorker.buildStoreOps state (some version) result.newState
  | .timer => TimerCoordinator.buildStoreOps state (some version) result.newState

/-- The tasks that a caller creates. -/
def Caller.created (d : ProcessDefinition) (firstTaskId : Nat) (result : EngineResult) :
    Caller → List StoreOperation
  | .request _ => buildUserTaskCreationOps firstTaskId result.events d
  | .worker | .timer => []

section Caller

variable {d : ProcessDefinition} {state : EngineState} {version firstTaskId : Nat}
    {result : EngineResult}

/-- Only the tasks that are closed depend on the store. -/
theorem Caller.storeOps_eq (caller : Caller) : ∃ closed : Store → List UserTaskRecord, ∀ store,
    (caller.storeOps d firstTaskId state version result).alone store =
    caller.coreOps state version result ++
      (caller.created d firstTaskId result ++ (closed store).map updateUserTask) := by
  cases caller with
  | request closes =>
    refine ⟨fun store => (closes state).alone store, fun store => ?_⟩
    rw [Caller.storeOps, Reading.alone_bind]
    rfl
  | worker | timer => exact ⟨fun _ => [], fun _ => (List.append_nil _).symm⟩

theorem Caller.created_table (caller : Caller) :
    ∀ op ∈ caller.created d firstTaskId result, op.table = .userTasks := by
  cases caller with
  | request closes => exact buildUserTaskCreationOps_table
  | worker | timer =>
    intro op hop
    cases hop

/-- The instance comes first. -/
theorem Caller.coreOps_eq (caller : Caller) : ∃ more, caller.coreOps state version result =
    updateInstance result.newState.inst (some version) :: more ∧
      ∀ op ∈ more, op.table ≠ .instances ∧ op.table ≠ .userTasks := by
  cases caller with
  | request closes => exact computeStoreOps_eq
  | worker | timer =>
    refine ⟨_, rfl, fun op hop => ?_⟩
    rcases stateOps_tail hop with h | h | h <;> rw [h] <;> decide

theorem Caller.saved_of_coreOps (caller : Caller) {s : EventSubscription}
    (hop : saveSubscription s ∈ caller.coreOps state version result) :
    ∃ t ∈ result.newState.tokens, t.id = s.tokenId ∧ t.instanceId = s.instanceId := by
  cases caller with
  | request closes => exact saved_of_computeStoreOps hop
  | worker | timer =>
    rcases List.mem_cons.1 hop with heq | hop
    · cases heq
    · rcases stateOps_tail hop with h | h | h <;> cases h

theorem Writes.coreOps (h : Writes store (some state) result.newState) (caller : Caller) :
    ∀ op ∈ caller.coreOps state version result, op.Within store result.newState.inst.id := by
  cases caller with
  | request closes => exact h.computeStoreOps
  | worker | timer => exact h.stateOps rfl

end Caller

/-! ## Moves are commits -/

section Moves

variable {d : ProcessDefinition} {options : ExecuteOptions} {result : EngineResult} {c : Cycle}
    {instanceId : Nat}
  {state : EngineState} {version : Nat} {ops : List StoreOperation}

theorem Cycle.Done.commits
    (h : c.Done definitions instanceId store d state version result ops store')
    (hsound : store.Sound nextId) (hforest : store.Forest nextId) (hfiled : store.Filed)
    (hfirst : nextId ≤ c.options.firstId) :
    store.Commits instanceId (c.caller.coreOps state version result)
      (c.caller.created d c.firstTaskId result)
      result.newState nextId store' result.nextId := by
  obtain ⟨⟨row, hrow, hid, rfl⟩, hcont⟩ := h.continued hsound hfirst
  have hinst : result.newState.inst.id = row.data.id := hcont.instId
  have hrest := hsound.loaded c.order (reviveInstance row.data)
  have howns : ∀ {t : Token}, t ∈ store.tokens.values → t.instanceId = row.data.id →
      store.Owns result.newState.inst.id t.id := by
    intro t ht hti
    rw [hinst, ← hti]
    exact hfiled.owns ht
  have hwrites : Writes store
      (some (store.loaded c.order (reviveInstance row.data))) result.newState := by
    refine ⟨hcont.resting.toOwned, fun t ht => ?_, ?_, ?_, ?_⟩
    · rcases hcont.made t ht with ⟨x, hx, hxt⟩ | hle
      · obtain ⟨y, hy, hyinst, rfl⟩ := mem_loaded.1 hx
        have hyt : y.id = t.id := hxt
        exact hyt ▸ howns hy hyinst
      · exact hfiled.owns_new hsound (hfirst.trans hle)
    · rintro old ⟨⟩ t ht
      obtain ⟨y, hy, hyinst, rfl⟩ := mem_loaded.1 ht
      exact (howns hy hyinst : store.Owns _ y.id)
    · rintro old ⟨⟩ s hs
      exact (hrest.joins s hs).trans hinst.symm
    · rintro old ⟨⟩ r hr
      exact (hrest.records r hr).trans hinst.symm
  obtain ⟨more, hcore, hmore⟩ := @Caller.coreOps_eq
    (store.loaded c.order (reviveInstance row.data)) version result c.caller
  obtain ⟨closed, hops⟩ := @Caller.storeOps_eq d
    (store.loaded c.order (reviveInstance row.data)) version c.firstTaskId result c.caller
  refine ⟨hinst.trans hid, h.replants hsound hforest hfirst, ?_, fun op hop => ?_,
    c.caller.created_table,
    ⟨closed store, ?_⟩, fun t ht hti => ?_, fun s => c.caller.saved_of_coreOps⟩
  · rw [← hid, ← hinst]
    exact hwrites.coreOps c.caller
  · rw [hcore] at hop
    rcases List.mem_cons.1 hop with rfl | hop
    · exact Table.noConfusion
    · exact (hmore op hop).2
  · rw [← hops, h.writes]
    exact h.saves
  · exact hcont.keptId (t := reviveToken t) (mem_loaded.2 ⟨t, ht, hti.trans hid.symm, rfl⟩)

theorem commits_start {fuel : Nat} {vars : Option Variables}
    {correlationKey businessKey : Option String} {firstTaskId : Nat} (hsound : store.Sound nextId)
    (hfiled : store.Filed) (hfirst : nextId ≤ options.firstId)
    (h : execute d fuel (.startProcess vars correlationKey businessKey) none options = .ok result)
    (hsave : store.executeTransaction (computeStoreOps true none none result.newState ++
      buildUserTaskCreationOps firstTaskId result.events d) = .ok store') :
    store.Commits options.firstId (computeStoreOps true none none result.newState)
      (buildUserTaskCreationOps firstTaskId result.events d) result.newState nextId store'
      result.nextId := by
  obtain ⟨hrest, hnew, hid, hlt⟩ := execute_start_resting h
  have hwrites : Writes store none result.newState := by
    refine ⟨hrest.toOwned, fun t ht => hfiled.owns_new hsound (hfirst.trans (hnew t ht)), ?_, ?_,
      ?_⟩ <;>
      rintro old ⟨⟩
  obtain ⟨more, hcore, hmore⟩ := @computeStoreOps_eq true none none result.newState
  refine ⟨hid, replants_start hsound hfirst h hsave, hid ▸ hwrites.computeStoreOps,
    fun op hop => ?_,
    buildUserTaskCreationOps_table, ⟨[], ?_⟩, fun t ht hti => ?_, fun s => saved_of_computeStoreOps⟩
  · rw [hcore] at hop
    rcases List.mem_cons.1 hop with rfl | hop
    · exact Table.noConfusion
    · exact (hmore op hop).2
  · rw [List.map_nil, List.append_nil]
    exact hsave
  · have := (hsound.known t ht).2
    omega

end Moves

/-! ## Leaving out what is done with other instances -/

theorem filed_empty : (∅ : Store).Filed := fun _ hs => absurd hs List.not_mem_nil

theorem Move.Makes.filed {move : Move} (h : move.Makes definitions store nextId store' nextId')
    (hserved : Served definitions (fun _ => True) store nextId) (hfiled : store.Filed) :
    store'.Filed := by
  cases h with
  | start hid h hsave => exact (commits_start hserved.sound hfiled hid h hsave).filedAfter hfiled
  | cycle hid hdone =>
    exact (hdone.commits hserved.sound hserved.forest hfiled hid).filedAfter hfiled
  | tasks htable hsave =>
    obtain ⟨-, htokens, -, -, hsubscriptions, -⟩ := executeTransaction_tables hsave
    rw [foldl_spares writeTokens_of_table htable (by decide)] at htokens
    rw [foldl_spares writeSubscriptions_of_table htable (by decide)] at hsubscriptions
    rw [Store.Filed, htokens, hsubscriptions]
    exact hfiled

theorem Course.filed (h : Course definitions moves store nextId) : store.Filed := by
  induction h with
  | nil => exact filed_empty
  | snoc course hmakes ih => exact hmakes.filed course.served ih

theorem createInstance_ok {inst : ProcessInstance} (h : store.instances.get? inst.id = none) :
    ∃ mid, store.applyOp (createInstance inst) = .ok mid := by
  show ∃ mid, store.createInstance inst = .ok mid
  rw [Store.createInstance, h]
  exact ⟨_, rfl⟩

theorem updateInstance_ok {inst : ProcessInstance} {row : InstanceRow}
    (h : store.instances.get? inst.id = some row) :
    ∃ mid, store.applyOp (updateInstance inst (some row.version)) = .ok mid := by
  show ∃ mid, store.updateInstance inst (some row.version) = .ok mid
  rw [Store.updateInstance, h]
  exact ⟨_, if_pos (by simp)⟩

/-- A move about the instance goes through in the same way in a store that mirrors it. -/
theorem Move.Makes.mirrored {move : Move} {m : Nat}
    (h : move.Makes definitions store nextId store' nextId')
    (hstore : Course definitions moves store nextId) (halone : Course definitions moves' alone m)
    (hm : m ≤ nextId) (hmirrors : alone.Mirrors i store) (habout : move.isAbout i) :
    ∃ alone', move.Makes definitions alone m alone' nextId' ∧ alone'.Mirrors i store' := by
  cases h with
  | @start _ _ _ d _ _ _ _ options firstTaskId result hid h hsave =>
    obtain rfl : options.firstId = i := of_decide_eq_true habout
    have hcommits := commits_start hstore.served.sound hstore.filed hid h hsave
    obtain ⟨more, hcore, hmore⟩ := @computeStoreOps_eq true none none result.newState
    have hfresh : alone.instances.get? result.newState.inst.id = none := by
      rw [KeyedMap.get?_eq_none_iff]
      intro row hrow hrowId
      have hlt := halone.served.sound.instances row hrow
      have hinst : row.data.id = options.firstId := hrowId.trans hcommits.instId
      omega
    obtain ⟨alone', hsave'⟩ := hmirrors.saves hcommits hcore hmore (createInstance_ok hfresh) []
    rw [List.map_nil, List.append_nil] at hsave'
    exact ⟨alone', .start (hm.trans hid) h hsave', hmirrors.commit hcommits
      (commits_start halone.served.sound halone.filed (hm.trans hid) h hsave')⟩
  | @cycle _ _ _ c _ d state version result ops hid hdone =>
    obtain rfl := of_decide_eq_true habout
    have hcommits := hdone.commits hstore.served.sound hstore.served.forest hstore.filed hid
    obtain ⟨more, hcore, hmore⟩ := @Caller.coreOps_eq state version result c.caller
    obtain ⟨closed, hops⟩ := @Caller.storeOps_eq d state version c.firstTaskId result c.caller
    have hloads := (hmirrors.load c.order).trans hdone.loads
    have hrow : ∃ row, alone.instances.get? result.newState.inst.id = some row ∧
        row.version = version := by
      rw [loadEngineState_alone] at hloads
      obtain ⟨found, hget, heq⟩ := Option.map_eq_some_iff.1 hloads
      obtain ⟨row, hrow, hfound⟩ := Option.map_eq_some_iff.1 hget
      rw [hcommits.instId]
      exact ⟨row, hrow, (congrArg Prod.snd hfound).trans (congrArg Prod.snd heq)⟩
    obtain ⟨row, hget, rfl⟩ := hrow
    obtain ⟨alone', hsave'⟩ :=
      hmirrors.saves hcommits hcore hmore (updateInstance_ok hget) (closed alone)
    have hdone' : c.Done definitions _ alone d state row.version result _ alone' :=
      ⟨hloads, hdone.admits, hdone.finds, hdone.executes, hops alone, hsave'⟩
    exact ⟨alone', .cycle (hm.trans hid) hdone', hmirrors.commit hcommits
      (hdone'.commits halone.served.sound halone.served.forest halone.filed (hm.trans hid))⟩
  | tasks => cases habout

/-- Any other move does not touch it. -/
theorem Move.Makes.passed {move : Move} (h : move.Makes definitions store nextId store' nextId')
    (hstore : Course definitions moves store nextId) (hmirrors : alone.Mirrors i store)
    (hother : ¬ move.isAbout i) : alone.Mirrors i store' := by
  cases h with
  | start hid h hsave =>
    exact hmirrors.commit_other hstore.served.forest
      (commits_start hstore.served.sound hstore.filed hid h hsave) fun heq =>
        hother (decide_eq_true heq)
  | cycle hid hdone =>
    exact hmirrors.commit_other hstore.served.forest
      (hdone.commits hstore.served.sound hstore.served.forest hstore.filed hid) fun heq =>
        hother (decide_eq_true heq)
  | @tasks _ _ _ ops htable hsave =>
    obtain ⟨-, -, hscopes, htasks, -⟩ := executeTransaction_tables hsave
    rw [foldl_spares writeScopes_of_table htable (by decide)] at hscopes
    refine ⟨hmirrors.alike.trans ?_, fun row hrow hid id huse => ?_, fun id hid => ?_⟩
    · rw [executeTransaction_write hsave]
      exact (Store.Alike.foldl_write_tasks htable).symm
    · rw [hmirrors.scopes row hrow hid id huse, Store.getScope, Store.getScope, hscopes]
    · rw [htasks, isSome_foldl_writeUserTasks_iff]
      exact .inl (hmirrors.tasks id hid)

theorem Move.Makes.le {move : Move} (h : move.Makes definitions store nextId store' nextId')
    (hstore : Course definitions moves store nextId) : nextId ≤ nextId' := by
  cases h with
  | start hid h hsave =>
    exact (commits_start hstore.served.sound hstore.filed hid h hsave).replants.le
  | cycle hid hdone => exact (hdone.replants hstore.served.sound hstore.served.forest hid).le
  | tasks => exact le_rfl

theorem mirrors_empty : (∅ : Store).Mirrors i ∅ := ⟨.refl i ∅, fun _ _ _ _ _ => rfl, fun _ h => h⟩

/-- The moves about an instance are a course of their own. -/
theorem Course.purge (h : Course definitions moves store nextId) (i : Nat) :
    ∃ alone m, Course definitions (moves.filter (·.isAbout i)) alone m ∧ m ≤ nextId ∧
      alone.Mirrors i store := by
  induction h with
  | nil => exact ⟨∅, 0, .nil, le_rfl, mirrors_empty⟩
  | @snoc moves move store store' nextId nextId' course hmakes ih =>
    obtain ⟨alone, m, halone, hm, hmirrors⟩ := ih
    rw [List.filter_append, List.filter_singleton]
    cases habout : move.isAbout i with
    | true =>
      obtain ⟨alone', hmakes', hmirrors'⟩ := hmakes.mirrored course halone hm hmirrors habout
      exact ⟨alone', nextId', .snoc halone hmakes', le_rfl, hmirrors'⟩
    | false =>
      rw [cond_false, List.append_nil]
      refine ⟨alone, m, halone, hm.trans (hmakes.le course), hmakes.passed course hmirrors ?_⟩
      rw [habout]
      exact Bool.false_ne_true

/-- Whatever was done with other instances: the moves about one instance, on their own, are a course
as well, in which it comes to the same state with the same version and waits for the same messages
and signals. -/
theorem Course.isolated (h : Course definitions moves store nextId) (i : Nat) :
    ∃ alone m, Course definitions (moves.filter (·.isAbout i)) alone m ∧
      (∀ order, (loadEngineState order i).alone alone = (loadEngineState order i).alone store) ∧
      ∀ filter, (alone.findSubscriptions filter).filter (·.instanceId = i) =
        (store.findSubscriptions filter).filter (·.instanceId = i) := by
  obtain ⟨alone, m, halone, -, hmirrors⟩ := h.purge i
  exact ⟨alone, m, halone, hmirrors.load, hmirrors.alike.findSubscriptions⟩

/-! ## Two polls -/

open Diagram

/-- Making a move. -/
def Move.make (definitions : String → Nat → Option ProcessDefinition) (x : Store × Nat) :
    Move → Option (Store × Nat)
  | start d fuel vars correlationKey businessKey options firstTaskId => do
      let result ← (execute d fuel
        (.startProcess vars correlationKey businessKey) none options).toOption
      let store ← (x.1.executeTransaction (computeStoreOps true none none result.newState ++
        buildUserTaskCreationOps firstTaskId result.events d)).toOption
      if x.2 ≤ options.firstId then pure (store, result.nextId) else none
  | cycle c instanceId => do
      let outcome ← c.outcome definitions instanceId x.1
      let store ← (c.program definitions instanceId).perform x.1
      if x.2 ≤ c.options.firstId then pure (store, outcome.2.2.nextId) else none
  | tasks ops => do
      let store ← (x.1.executeTransaction ops).toOption
      if ∀ op ∈ ops, op.table = .userTasks then pure (store, x.2) else none

theorem Move.makes_of_make {x y : Store × Nat} {move : Move}
    (h : move.make definitions x = some y) : move.Makes definitions x.1 x.2 y.1 y.2 := by
  cases move with
  | start d fuel vars correlationKey businessKey options firstTaskId =>
    obtain ⟨result, hresult, h⟩ := Option.bind_eq_some_iff.1 h
    obtain ⟨new, hnew, h⟩ := Option.bind_eq_some_iff.1 h
    obtain ⟨hid, h⟩ := Option.ite_none_right_eq_some.1 h
    cases h
    exact .start hid (Except.eq_ok_of_toOption hresult) (Except.eq_ok_of_toOption hnew)
  | cycle c instanceId =>
    obtain ⟨outcome, houtcome, h⟩ := Option.bind_eq_some_iff.1 h
    obtain ⟨new, hnew, h⟩ := Option.bind_eq_some_iff.1 h
    obtain ⟨hid, h⟩ := Option.ite_none_right_eq_some.1 h
    obtain ⟨d, state, version, result, ops, hdone⟩ := (Cycle.perform_iff _ _ _ _ _).1 hnew
    rw [hdone.outcome_eq] at houtcome
    cases houtcome
    cases h
    exact .cycle hid hdone
  | tasks ops =>
    obtain ⟨new, hnew, h⟩ := Option.bind_eq_some_iff.1 h
    obtain ⟨htable, h⟩ := Option.ite_none_right_eq_some.1 h
    cases h
    exact .tasks htable (Except.eq_ok_of_toOption hnew)

theorem course_of_make {x : Store × Nat}
    (h : moves.foldlM (Move.make definitions) (∅, 0) = some x) :
    Course definitions moves x.1 x.2 := by
  induction moves using List.reverseRecOn generalizing x with
  | nil =>
    cases h
    exact .nil
  | append_singleton moves move ih =>
    rw [List.foldlM_append] at h
    obtain ⟨y, hy, h⟩ := Option.bind_eq_some_iff.1 h
    obtain ⟨z, hz, h⟩ := Option.bind_eq_some_iff.1 h
    cases h
    exact .snoc (ih hy) (Move.makes_of_make hz)

/-- Two polls are opened, and a task of each is completed. -/
def polls : List Move :=
  [.start poll 10 none none none (stopped twoItems 0) 0,
    .start poll 10 none none none (stopped twoItems 20) 20,
    .cycle (requestCompletes 7 40) 0, .cycle (requestCompletes 25 50) 20]

theorem isolated_polls : ∃ store nextId, Course (fun _ _ => some poll) polls store nextId ∧
    store.instances.values.length = 2 ∧
    ∃ alone m, Course (fun _ _ => some poll) (polls.filter (·.isAbout 20)) alone m ∧
      (loadEngineState .inserted 20).alone alone = (loadEngineState .inserted 20).alone store := by
  have hruns : (polls.foldlM (Move.make fun _ _ => some poll) (∅, 0)).any
      (fun x => x.1.instances.values.length = 2) = true := by decide +kernel
  obtain ⟨x, hx, htwo⟩ := (Option.any_eq_true ..).1 hruns
  obtain ⟨alone, m, halone, hload, -⟩ := (course_of_make hx).isolated 20
  exact ⟨x.1, x.2, course_of_make hx, of_decide_eq_true htwo, alone, m, halone, hload .inserted⟩

end NexusWorkflow
