import NexusWorkflow.Game.HandlerEffects
import NexusWorkflow.Run.Diagram
import NexusWorkflow.Store.Diff

/-!
# Three ways to persist a cycle

A worker, a timer and a request write the same operations for the state of the engine; the request
writes more, for the subscriptions, the compensation records and the user tasks.  The three leave
the same content exactly if there is nothing to say about these.
-/

namespace NexusWorkflow

open StoreOperation

/-- The store holds the state: the instance at the given version, a subscription for each token that
waits for a message or a signal, and the compensation records. -/
structure Store.InSync (store : Store) (state : EngineState) (version : Nat) : Prop where
  instanceRow : ∃ row, store.instances.get? state.inst.id = some row ∧ row.version = version
  distinct : (state.tokens.map (·.id)).Nodup
  subscriptions : ∀ t ∈ state.tokens,
    (store.subscriptions.get? t.id).isSome = t.subscribedTo.isSome
  records : ∀ r, r ∈ store.compensationRecords.values ∧ r.instanceId = state.inst.id ↔
    r ∈ state.compensationRecords

/-- The ids that are made up for the cycle are not in use: those of its new tokens, and that of the
first user-task record. -/
structure Store.Unused (store : Store) (state : EngineState) (result : EngineResult)
    (firstTaskId : Nat) : Prop where
  tokens : ∀ t ∈ result.newState.tokens, t.id ∉ state.tokens.map (·.id) →
    store.subscriptions.get? t.id = none
  userTask : store.userTasks.get? firstTaskId = none

/-- The three leave the same content behind, or fail alike. -/
def SameContent (d : ProcessDefinition) (firstTaskId : Nat) (state : EngineState) (version : Nat)
    (result : EngineResult) (store : Store) : Prop :=
  store.executeTransaction (TaskWorker.buildStoreOps state (some version) result.newState) =
    store.executeTransaction (computeStoreOps false (some state) (some version) result.newState ++
      buildUserTaskCreationOps firstTaskId result.events d) ∧
  store.executeTransaction (TimerCoordinator.buildStoreOps state (some version) result.newState) =
    store.executeTransaction (computeStoreOps false (some state) (some version) result.newState ++
      buildUserTaskCreationOps firstTaskId result.events d)

/-- The cycle neither starts nor ends waiting for a message or a signal, neither files nor consumes
a compensation record, and starts no user task of the top level. -/
structure Unremarkable (d : ProcessDefinition) (state : EngineState) (result : EngineResult) :
    Prop where
  started : ∀ t ∈ result.newState.tokens, t.subscribedTo.isSome = true →
    isWaiting state.tokens t.id = true
  stopped : ∀ t ∈ state.tokens, t.subscribedTo.isSome = true →
    isWaiting result.newState.tokens t.id = true
  filed : ∀ r ∈ result.newState.compensationRecords,
    ∃ r' ∈ state.compensationRecords, r'.tokenId = r.tokenId
  consumed : ∀ r ∈ state.compensationRecords,
    ∃ r' ∈ result.newState.compensationRecords, r'.tokenId = r.tokenId
  userTasks : ∀ event ∈ result.events, event.startedUserTask d = none

variable {d : ProcessDefinition} {state : EngineState} {result : EngineResult}
    {store store' : Store}
  {version firstTaskId : Nat}

/-! ## Transactions that succeed -/

/-- What all three write succeeds on a store that is in sync. -/
theorem stateOps_ok (hsync : store.InSync state version) {after : ProcessInstance}
    (hid : after.id = state.inst.id) (newState : EngineState) :
    ∃ store', store.executeTransaction
      (stateOps (.updateInstance after (some version)) (some state) newState) = .ok store' := by
  obtain ⟨row, hrow, hv⟩ := hsync.instanceRow
  rw [← hid] at hrow
  refine executeTransaction_update_ok hrow hv fun op hop => ?_
  rcases List.mem_cons.1 hop with rfl | hop
  · simp [table]
  · rcases List.mem_append.1 hop with hop | hop
    · simp [scopeOps_table op hop]
    · simp [gatewayOps_table op hop]

/-! ## Nothing to say -/

theorem Unremarkable.subscriptionOps_eq_nil (h : Unremarkable d state result) :
    subscriptionOps state.tokens result.newState.tokens = [] := by
  unfold subscriptionOps
  rw [List.append_eq_nil_iff, List.filterMap_eq_nil_iff, List.map_eq_nil_iff,
    List.filter_eq_nil_iff]
  constructor
  · intro t ht
    by_cases hsub : t.subscribedTo.isSome = true
    · rw [if_pos (h.started t ht hsub)]
    · rw [Option.not_isSome_iff_eq_none.1 hsub]
      simp
  · intro t ht hstop
    simp only [decide_eq_true_eq] at hstop
    exact hstop.2 (h.stopped t ht hstop.1)

theorem Unremarkable.compensationOps_eq_nil (h : Unremarkable d state result) :
    compensationOps state.compensationRecords result.newState.compensationRecords = [] := by
  simp only [compensationOps, List.append_eq_nil_iff, List.map_eq_nil_iff, List.filter_eq_nil_iff]
  constructor
  · intro r hr
    obtain ⟨r', hr', hid⟩ := h.filed r hr
    simpa using ⟨r', hr', hid⟩
  · intro r hr
    obtain ⟨r', hr', hid⟩ := h.consumed r hr
    simpa using ⟨r', hr', hid⟩

theorem Unremarkable.userTaskOps_eq_nil (h : Unremarkable d state result) :
    buildUserTaskCreationOps firstTaskId result.events d = [] := by
  unfold buildUserTaskCreationOps
  rw [List.filterMap_eq_nil_iff.2 h.userTasks]
  rfl

theorem Unremarkable.sameContent (h : Unremarkable d state result) (store : Store) :
    SameContent d firstTaskId state version result store := by
  have hops : computeStoreOps false (some state) (some version) result.newState ++
      buildUserTaskCreationOps firstTaskId result.events d =
      stateOps (.updateInstance result.newState.inst (some version)) (some state)
        result.newState := by
    simp [computeStoreOps, h.subscriptionOps_eq_nil, h.compensationOps_eq_nil,
      h.userTaskOps_eq_nil]
  unfold SameContent TaskWorker.buildStoreOps TimerCoordinator.buildStoreOps
  rw [hops]
  exact ⟨rfl, rfl⟩

/-! ## Something to say -/

/-- Where the contents agree, the further operations of a request have no effect on the tables that
the worker leaves alone. -/
theorem SameContent.tables (h : SameContent d firstTaskId state version result store)
    (hsync : store.InSync state version) (hid : result.newState.inst.id = state.inst.id) :
    (subscriptionOps state.tokens result.newState.tokens).foldl writeSubscriptions
        store.subscriptions = store.subscriptions ∧
    (compensationOps state.compensationRecords result.newState.compensationRecords).foldl
        writeCompensationRecords store.compensationRecords = store.compensationRecords ∧
    (buildUserTaskCreationOps firstTaskId result.events d).foldl writeUserTasks store.userTasks =
      store.userTasks := by
  obtain ⟨store', hworker⟩ := stateOps_ok hsync hid result.newState
  have hrequest := h.1.symm.trans hworker
  rw [← List.append_nil (stateOps _ _ _)] at hworker
  rw [computeStoreOps, List.append_assoc] at hrequest
  obtain ⟨-, -, -, -, hu, he, hc⟩ := stateOps_tables rfl (by simp [Besides]) hworker
  have hbesides : Besides ((subscriptionOps state.tokens result.newState.tokens ++
      compensationOps state.compensationRecords result.newState.compensationRecords) ++
      buildUserTaskCreationOps firstTaskId result.events d) := by
    intro op hop
    rcases List.mem_append.1 hop with hop | hop
    · rcases List.mem_append.1 hop with hop | hop
      · exact .inl (subscriptionOps_table op hop)
      · exact .inr (.inl (compensationOps_table op hop))
    · exact .inr (.inr (buildUserTaskCreationOps_table op hop))
  obtain ⟨-, -, -, -, hu', he', hc'⟩ := stateOps_tables rfl hbesides hrequest
  simp only [List.foldl_append, List.foldl_nil] at hu he hc hu' he' hc'
  rw [foldl_spares writeSubscriptions_of_table buildUserTaskCreationOps_table (by decide),
    foldl_spares writeSubscriptions_of_table compensationOps_table (by decide)] at he'
  rw [foldl_spares writeCompensationRecords_of_table buildUserTaskCreationOps_table (by decide),
    foldl_spares writeCompensationRecords_of_table subscriptionOps_table (by decide)] at hc'
  rw [foldl_spares writeUserTasks_of_table compensationOps_table (by decide),
    foldl_spares writeUserTasks_of_table subscriptionOps_table (by decide)] at hu'
  exact ⟨he'.symm.trans he, hc'.symm.trans hc, hu'.symm.trans hu⟩

/-- Subscriptions that do not change: nothing has begun or ceased to wait. -/
theorem unremarkable_subscriptions (hsync : store.InSync state version)
    (hunused : store.Unused state result firstTaskId)
    (hnd : (result.newState.tokens.map (·.id)).Nodup)
    (h : (subscriptionOps state.tokens result.newState.tokens).foldl writeSubscriptions
      store.subscriptions = store.subscriptions) :
    (∀ t ∈ result.newState.tokens, t.subscribedTo.isSome = true →
      isWaiting state.tokens t.id = true) ∧
    ∀ t ∈ state.tokens, t.subscribedTo.isSome = true →
      isWaiting result.newState.tokens t.id = true := by
  constructor
  · intro t ht hsub
    by_contra hnot
    rw [Bool.not_eq_true] at hnot
    obtain ⟨type, htype⟩ := Option.isSome_iff_exists.1 hsub
    have hget := get?_subscriptionOps_started hnd store.subscriptions ht hnot htype
    rw [h] at hget
    -- a subscription that is there already is that of a token which waits
    by_cases hid : t.id ∈ state.tokens.map (·.id)
    · obtain ⟨t', ht', hid⟩ := List.mem_map.1 hid
      have hid : t'.id = t.id := hid
      have hsub' : t'.subscribedTo.isSome = true := by
        rw [← hsync.subscriptions t' ht', hid, hget]
        rfl
      have hwaits : isWaiting state.tokens t.id = true :=
        (isWaiting_iff hsync.distinct).2 ⟨t', ht', hid, waiting_of_subscribedTo hsub'⟩
      rw [hnot] at hwaits
      cases hwaits
    · rw [hunused.tokens t ht hid] at hget
      cases hget
  · intro t ht hsub
    by_contra hnot
    rw [Bool.not_eq_true] at hnot
    have hget := get?_subscriptionOps_stopped store.subscriptions ht hsub hnot
    rw [h] at hget
    have hthere := hsync.subscriptions t ht
    rw [hget, hsub] at hthere
    cases hthere

/-- Compensation records that do not change: none was filed and none consumed. -/
theorem unremarkable_records (hsync : store.InSync state version)
    (hrecords : ∀ r ∈ result.newState.compensationRecords,
      r ∈ state.compensationRecords ∨ r.instanceId = state.inst.id)
    (h : (compensationOps state.compensationRecords result.newState.compensationRecords).foldl
      writeCompensationRecords store.compensationRecords = store.compensationRecords) :
    (∀ r ∈ result.newState.compensationRecords,
      ∃ r' ∈ state.compensationRecords, r'.tokenId = r.tokenId) ∧
    ∀ r ∈ state.compensationRecords,
      ∃ r' ∈ result.newState.compensationRecords, r'.tokenId = r.tokenId := by
  constructor
  · intro r hr
    by_contra hnot
    have hnot : ∀ r' ∈ state.compensationRecords, r'.tokenId ≠ r.tokenId :=
      fun r' hr' hid => hnot ⟨r', hr', hid⟩
    have hget := get?_compensationOps state.compensationRecords result.newState.compensationRecords
      store.compensationRecords r.key
    rw [h] at hget
    have hkept : r.key ∉ goneRecords state.compensationRecords
        result.newState.compensationRecords := by
      intro hk
      obtain ⟨r', hr', hkey, -⟩ := mem_goneRecords.1 hk
      exact hnot r' hr' (congrArg Prod.snd hkey)
    have hfiled := mem_filedRecords.2 ⟨hr, hnot⟩
    have hfound : ((filedRecords state.compensationRecords
        result.newState.compensationRecords).find? fun x => x.key = r.key).isSome = true :=
      List.find?_isSome.2 ⟨r, hfiled, by simp⟩
    rw [if_neg hkept] at hget
    -- the key is in the table after the cycle, so it was before
    obtain ⟨r', hr'⟩ : ∃ r', store.compensationRecords.get? r.key = some r' := by
      cases hold : store.compensationRecords.get? r.key with
      | some r' => exact ⟨r', rfl⟩
      | none =>
        rw [hold, Option.none_or] at hget
        rw [← hget] at hfound
        cases hfound
    have hkey : r'.key = r.key := KeyedMap.key_of_get? hr'
    have hinst : r'.instanceId = state.inst.id := by
      refine (congrArg Prod.fst hkey).trans ?_
      rcases hrecords r hr with hold | hid
      · exact ((hsync.records r).2 hold).2
      · exact hid
    exact hnot r' ((hsync.records r').1 ⟨KeyedMap.mem_of_get? hr', hinst⟩)
      (congrArg Prod.snd hkey)
  · intro r hr
    by_contra hnot
    have hgone : r.key ∈ goneRecords state.compensationRecords
        result.newState.compensationRecords :=
      mem_goneRecords.2 ⟨r, hr, rfl, fun r' hr' hid => hnot ⟨r', hr', hid⟩⟩
    have hget := get?_compensationOps state.compensationRecords result.newState.compensationRecords
      store.compensationRecords r.key
    rw [h, if_pos hgone, KeyedMap.get?_of_mem ((hsync.records r).2 hr).1] at hget
    cases hget

/-- The first user task that is started gets the first of the new ids. -/
theorem get?_buildUserTaskCreationOps {events : List ExecutionEvent} {task : UserTaskRecord}
    {tasks : List UserTaskRecord} (firstTaskId : Nat) (m : KeyedMap UserTaskRecord.id)
    (h : events.filterMap (·.startedUserTask d) = task :: tasks) :
    ((buildUserTaskCreationOps firstTaskId events d).foldl writeUserTasks m).get? firstTaskId =
      some { task with id := firstTaskId } := by
  have hops : buildUserTaskCreationOps firstTaskId events d =
      ((task :: tasks).zipIdx firstTaskId).map
      fun p => createUserTask { p.1 with id := p.2 } := by
    rw [← h]
    rfl
  have hfold : (buildUserTaskCreationOps firstTaskId events d).foldl writeUserTasks m =
      ((tasks.zipIdx (firstTaskId + 1)).map fun p => { p.1 with id := p.2 }).foldl KeyedMap.set
        (m.set { task with id := firstTaskId }) := by
    rw [hops, List.zipIdx_cons, List.map_cons, List.foldl_cons, List.foldl_map, List.foldl_map]
    rfl
  rw [hfold, KeyedMap.get?_foldl_set_of_notMem, KeyedMap.get?_set, if_pos rfl]
  intro later hlater hid
  obtain ⟨⟨x, i⟩, hx, rfl⟩ := List.mem_map.1 hlater
  have hlt := List.le_snd_of_mem_zipIdx hx
  have hid : i = firstTaskId := hid
  omega

/-- User-task records that do not change: no user task was started. -/
theorem unremarkable_userTasks
    (hfresh : store.userTasks.get? firstTaskId = none)
    (h : (buildUserTaskCreationOps firstTaskId result.events d).foldl writeUserTasks
    store.userTasks =
      store.userTasks) : ∀ event ∈ result.events, event.startedUserTask d = none := by
  rw [← List.filterMap_eq_nil_iff]
  cases hstarted : result.events.filterMap (·.startedUserTask d) with
  | nil => rfl
  | cons task tasks =>
    have hget := get?_buildUserTaskCreationOps firstTaskId store.userTasks hstarted
    rw [h, hfresh] at hget
    cases hget

/-! ## The three writers -/

/-- A cycle that starts and ends no wait for an event, files and consumes no compensation record,
and starts no user task leaves the same content whoever runs it; on a store that holds the old
state, no other cycle does. -/
theorem sameContent_iff {fuel : Nat} {command : EngineCommand} {options : ExecuteOptions}
    (hgoes : command.goesOn = true) (h : execute d fuel command (some state) options = .ok result) :
    (Unremarkable d state result →
      ∀ store, SameContent d firstTaskId state version result store) ∧
    ∀ store : Store, store.InSync state version → store.Unused state result firstTaskId →
      (SameContent d firstTaskId state version result store ↔ Unremarkable d state result) := by
  refine ⟨fun hun store => hun.sameContent store, fun store hsync hunused => ?_⟩
  refine ⟨fun hsame => ?_, fun hun => hun.sameContent store⟩
  obtain ⟨hnd, hrecords⟩ := execute_rows hgoes h
  have hcore := execute_core hgoes h
  have hid : result.newState.inst.core.id = state.inst.core.id := by rw [hcore]
  obtain ⟨hsubs, hcomps, htasks⟩ := hsame.tables hsync hid
  obtain ⟨hstarted, hstopped⟩ := unremarkable_subscriptions hsync hunused hnd hsubs
  obtain ⟨hfiled, hconsumed⟩ := unremarkable_records hsync hrecords hcomps
  exact ⟨hstarted, hstopped, hfiled, hconsumed, unremarkable_userTasks hunused.userTask htasks⟩

open Diagram

/-- A store on which an errand has just begun, the state and the version that are loaded from it,
and what a command makes of the state. -/
def errandStep (command : EngineCommand) : Option (Store × EngineState × Nat × EngineResult) := do
  let store ← Store.started errand
  let (state, version) ← (loadEngineState .inserted 0).alone store
  let result ← (execute errand 10 command (some state) (stopped always 10)).toOption
  pure (store, state, version, result)

theorem errandStep_execute {command : EngineCommand}
    (h : errandStep command = some (store, state, version, result)) :
    execute errand 10 command (some state) (stopped always 10) = .ok result := by
  unfold errandStep at h
  obtain ⟨_, -, h⟩ := Option.bind_eq_some_iff.1 h
  obtain ⟨⟨_, _⟩, -, h⟩ := Option.bind_eq_some_iff.1 h
  obtain ⟨x, hresult, h⟩ := Option.bind_eq_some_iff.1 h
  simp only [pure, Option.some.injEq, Prod.mk.injEq] at h
  obtain ⟨rfl, rfl, rfl, rfl⟩ := h
  generalize execute errand 10 command (some _) (stopped always 10) = run at hresult ⊢
  cases run with
  | error e => cases hresult
  | ok x =>
    cases hresult
    rfl

/-- Suspending an errand writes the same whoever does it. -/
theorem sameContent_suspended : ∃ store state version result,
    errandStep .suspendInstance = some (store, state, version, result) ∧
      SameContent errand 0 state version result store := by
  have hruns : (errandStep .suspendInstance).any (fun (_, state, _, result) =>
      (∀ t ∈ result.newState.tokens, t.subscribedTo.isSome = true →
        isWaiting state.tokens t.id = true) ∧
      (∀ t ∈ state.tokens, t.subscribedTo.isSome = true →
        isWaiting result.newState.tokens t.id = true) ∧
      result.newState.compensationRecords = [] ∧ state.compensationRecords = [] ∧
      ∀ event ∈ result.events, event.startedUserTask errand = none) = true := by decide +kernel
  obtain ⟨⟨store, state, version, result⟩, hstep, hfacts⟩ := (Option.any_eq_true ..).1 hruns
  simp only [decide_eq_true_eq] at hfacts
  obtain ⟨hstarted, hstopped, hnew, hold, htasks⟩ := hfacts
  refine ⟨store, state, version, result, hstep,
    (sameContent_iff rfl (errandStep_execute hstep)).1 ?_ store⟩
  exact ⟨hstarted, hstopped, by simp [hnew], by simp [hold], htasks⟩

/-- After the service task the user task starts: a worker leaves no record of it in the store, and a
request does. -/
theorem not_sameContent_errand : ∃ store state version result,
    errandStep (.completeServiceTask 3 none) = some (store, state, version, result) ∧
      store.InSync state version ∧ store.Unused state result 0 ∧
        ¬ SameContent errand 0 state version result store := by
  have hruns : (errandStep (.completeServiceTask 3 none)).any
      (fun (store, state, version, result) =>
      (store.instances.get? state.inst.id).map (·.version) = some version ∧
      (state.tokens.map (·.id)).Nodup ∧
      (∀ t ∈ state.tokens, (store.subscriptions.get? t.id).isSome = t.subscribedTo.isSome) ∧
      store.compensationRecords.values = [] ∧ state.compensationRecords = [] ∧
      store.subscriptions.values = [] ∧ store.userTasks.get? 0 = none ∧
      ((store.executeTransaction (TaskWorker.buildStoreOps state (some version)
          result.newState)).toOption.map (·.userTasks.values)) ≠
        ((store.executeTransaction (computeStoreOps false (some state) (some version)
          result.newState ++ buildUserTaskCreationOps 0 result.events errand)).toOption.map
            (·.userTasks.values))) = true := by decide +kernel
  obtain ⟨⟨store, state, version, result⟩, hstep, hfacts⟩ := (Option.any_eq_true ..).1 hruns
  simp only [decide_eq_true_eq] at hfacts
  obtain ⟨hrow, hnd, hsubs, hrecords, hnone, hempty, htask, hne⟩ := hfacts
  refine ⟨store, state, version, result, hstep, ⟨?_, hnd, hsubs, ?_⟩, ⟨?_, htask⟩, fun hsame => ?_⟩
  · obtain ⟨row, hget, hv⟩ := Option.map_eq_some_iff.1 hrow
    exact ⟨row, hget, hv⟩
  · simp [hrecords, hnone]
  · intro t _ _
    simp [KeyedMap.get?, hempty]
  · exact hne (by rw [hsame.1])

end NexusWorkflow
