import NexusWorkflow.Model.Http
import NexusWorkflow.Store.RoundTrip
import NexusWorkflow.Store.Service
import NexusWorkflow.Store.TaskRecords

/-!
# Requests and the store

The cycles of a request are cycles like all others, and what they do to the rows of the instances is
known without any assumption about the store.
-/

namespace NexusWorkflow

variable {definitions : String → Nat → Option ProcessDefinition} {c : Cycle} {instanceId : Nat}
  {store store' : Store} {d : ProcessDefinition} {state : EngineState} {version : Nat}
  {result : EngineResult} {ops : List StoreOperation}

/-- A cycle that is saved went through. -/
theorem Cycle.done_of_attempt (h : c.attempt definitions instanceId store = .saved result store') :
    ∃ d state version ops, c.Done definitions instanceId store d state version result ops
      store' := by
  unfold Cycle.attempt at h
  split at h
  · cases h
  · rename_i state version hloads
    split at h
    · rename_i hadmits
      split at h
      · cases h
      · rename_i d hfinds
        split at h
        · cases h
        · rename_i result' hexecutes
          split at h
          · cases h
          · rename_i hsaves
            cases h
            exact ⟨d, state, version, _, hloads, hadmits, hfinds, hexecutes, rfl, hsaves⟩
    · cases h

theorem Cycle.Done.attempt_eq
    (h : c.Done definitions instanceId store d state version result ops store') :
    c.attempt definitions instanceId store = .saved result store' := by
  unfold Cycle.attempt
  simp only [h.loads, h.admits, if_true, h.finds, h.executes, h.writes, h.saves]

/-- A cycle rewrites the row of its instance. -/
theorem Cycle.Done.rewrites
    (h : c.Done definitions instanceId store d state version result ops store') :
    ∃ row ∈ store.instances.values, row.data.id = instanceId ∧
      state.inst = reviveInstance row.data ∧ result.newState.inst.id = instanceId ∧
      store'.instances = store.instances.set ⟨result.newState.inst, row.version + 1⟩ := by
  have hloads := h.loads
  rw [loadEngineState_alone] at hloads
  obtain ⟨⟨inst, v⟩, hget, heq⟩ := Option.map_eq_some_iff.1 hloads
  simp only [Prod.mk.injEq] at heq
  obtain ⟨rfl, rfl⟩ := heq
  obtain ⟨row, hrow, heq⟩ := Option.map_eq_some_iff.1 hget
  cases heq
  have hid : row.id = instanceId := KeyedMap.key_of_get? hrow
  have hnew : result.newState.inst.id = instanceId :=
    (congrArg ProcessInstance.id (execute_core c.goesOn h.executes)).trans hid
  obtain ⟨more, hmore, rfl⟩ := h.ops_eq
  obtain ⟨hinstances, -⟩ := stateOps_tables rfl hmore h.saves
  refine ⟨row, KeyedMap.mem_of_get? hrow, hid, rfl, hnew, ?_⟩
  rw [hinstances, StoreOperation.writeInstances, hnew, hrow]

/-- The rows of the instances after the transaction for a new one. -/
theorem instances_start {d : ProcessDefinition} {firstTaskId : Nat}
    (h : store.executeTransaction (computeStoreOps true none none result.newState ++
      buildUserTaskCreationOps firstTaskId result.events d) = .ok store') :
    store'.instances = store.instances.set ⟨result.newState.inst, 1⟩ ∧
      store.instances.get? result.newState.inst.id = none := by
  constructor
  · rw [computeStoreOps, List.append_assoc] at h
    exact (stateOps_tables rfl besides_start h).1
  · obtain ⟨mid, hmid, -⟩ := Except.foldlM_cons_eq_ok_iff.1 h
    have hcreate : store.createInstance result.newState.inst = .ok mid := hmid
    unfold Store.createInstance at hcreate
    split at hcreate
    · cases hcreate
    · assumption

/-! ## Cycles that are saved -/

/-- New records with distinct ids can be created. -/
theorem executeTransaction_create_ok (store : Store) {tasks : List UserTaskRecord}
    (hnd : (tasks.map (·.id)).Nodup) (hnew : ∀ task ∈ tasks, store.userTasks.get? task.id = none) :
    ∃ store', store.executeTransaction (tasks.map .createUserTask) = .ok store' := by
  induction tasks generalizing store with
  | nil => exact ⟨store, rfl⟩
  | cons task tasks ih =>
    obtain ⟨hnot, hnd⟩ := List.nodup_cons.1 hnd
    have hcreate : store.applyOp (.createUserTask task) =
        .ok { store with userTasks := store.userTasks.set task } := by
      simp [Store.applyOp, Store.createUserTask, hnew task List.mem_cons_self]
    obtain ⟨store', hrest⟩ := ih { store with userTasks := store.userTasks.set task } hnd
      fun x hx => by
        have hne : task.id ≠ x.id := fun heq => hnot (List.mem_map.2 ⟨x, hx, heq.symm⟩)
        exact (KeyedMap.get?_set_of_ne _ hne).trans (hnew x (List.mem_cons_of_mem _ hx))
    exact ⟨store', Except.foldlM_cons_eq_ok_iff.2 ⟨_, hcreate, hrest⟩⟩

/-- When nothing comes between, a request that closes no record and gets new ids for its records is
saved as soon as the engine has executed its command. -/
theorem Cycle.done_of_executes (hcaller : c.caller = .request closesNothing)
    (hloads : (loadEngineState c.order instanceId).alone store = some (state, version))
    (hadmits : c.admits state = true)
    (hfinds : definitions state.inst.definitionId state.inst.definitionVersion = some d)
    (hexecutes : execute d c.fuel c.command (some state) c.options = .ok result)
    (hids : ∀ task ∈ store.userTasks.values, task.id < c.firstTaskId) :
    ∃ ops store', c.Done definitions instanceId store d state version result ops store' := by
  have hload := hloads
  rw [loadEngineState_alone] at hload
  obtain ⟨⟨inst, v⟩, hget, heq⟩ := Option.map_eq_some_iff.1 hload
  simp only [Prod.mk.injEq] at heq
  obtain ⟨rfl, rfl⟩ := heq
  obtain ⟨row, hrow, heq⟩ := Option.map_eq_some_iff.1 hget
  cases heq
  have hid : row.id = instanceId := KeyedMap.key_of_get? hrow
  have hnew : result.newState.inst.id = instanceId :=
    (congrArg ProcessInstance.id (execute_core c.goesOn hexecutes)).trans hid
  rw [← hnew] at hrow
  obtain ⟨mid, hmid⟩ : ∃ mid, store.executeTransaction (computeStoreOps false
      (some (store.loaded c.order (reviveInstance row.data))) (some row.version) result.newState) =
        .ok mid := executeTransaction_computeStoreOps_ok hrow rfl
  have htasks : mid.userTasks = store.userTasks := by
    have hmid := hmid
    rw [computeStoreOps] at hmid
    have hmore : Besides (subscriptionOps (store.loaded c.order (reviveInstance row.data)).tokens
        result.newState.tokens ++ compensationOps
          (store.loaded c.order (reviveInstance row.data)).compensationRecords
            result.newState.compensationRecords) := by
      have hbesides :
          Besides (subscriptionOps (store.loaded c.order (reviveInstance row.data)).tokens
          result.newState.tokens ++ (compensationOps
            (store.loaded c.order (reviveInstance row.data)).compensationRecords
              result.newState.compensationRecords ++ ([] ++ []))) :=
        besides_request (by simp) (by simp)
      simpa using hbesides
    rw [(stateOps_tables rfl hmore hmid).2.2.2.2.1, List.foldl_append,
      foldl_spares writeUserTasks_of_table subscriptionOps_table (by decide),
      foldl_spares writeUserTasks_of_table compensationOps_table (by decide)]
  obtain ⟨store', hstore'⟩ := executeTransaction_create_ok mid
    (nodup_startedUserTasks c.firstTaskId result.events) fun task htask => by
      rw [htasks, KeyedMap.get?_eq_none_iff]
      intro x hx hxid
      have hlt := hids x hx
      have hle := le_of_mem_startedUserTasks htask
      have hxid : x.id = task.id := hxid
      omega
  refine ⟨_, store', hloads, hadmits, hfinds, hexecutes, rfl, ?_⟩
  rw [hcaller]
  show store.executeTransaction
    (computeStoreOps _ _ _ _ ++ (buildUserTaskCreationOps _ _ _ ++ [])) = _
  rw [List.append_nil, buildUserTaskCreationOps_eq, Store.executeTransaction, List.foldlM_append]
  exact Except.bind_eq_ok_iff.2 ⟨mid, hmid, hstore'⟩

end NexusWorkflow
