import NexusWorkflow.Run.UserWaits
import NexusWorkflow.Store.Service

/-!
# User-task records

The records that a transaction creates and closes, and when the records stay in step with the tokens
that wait for a user.
-/

namespace NexusWorkflow

open StoreOperation

variable {store store' : Store} {d : ProcessDefinition}

/-! ## The records that are created -/

/-- The records of `buildUserTaskCreationOps`. -/
def startedUserTasks (firstTaskId : Nat) (events : List ExecutionEvent) (d : ProcessDefinition) :
    List UserTaskRecord :=
  (events.filterMap (·.startedUserTask d)).zipIdx firstTaskId |>.map fun (task, id) =>
    { task with id }

theorem buildUserTaskCreationOps_eq (firstTaskId : Nat) (events : List ExecutionEvent) :
    buildUserTaskCreationOps firstTaskId events d =
      (startedUserTasks firstTaskId events d).map createUserTask := by
  rw [buildUserTaskCreationOps, startedUserTasks, List.map_map]
  rfl

theorem startedUserTask_userWait {event : ExecutionEvent} {task : UserTaskRecord}
    (h : event.startedUserTask d = some task) :
    event.userWait = some ⟨task.instanceId, task.tokenId, task.elementId⟩ ∧
      task.status = .unclaimed := by
  cases event with
  | tokenWaiting instanceId tokenId elementId waitingFor =>
    unfold ExecutionEvent.startedUserTask at h
    simp only at h
    split at h
    · rename_i htype
      split at h
      · cases h
        exact ⟨if_pos htype, rfl⟩
      · cases h
    · cases h
  | _ => cases h

theorem mem_startedUserTasks {firstTaskId : Nat} {events : List ExecutionEvent}
    {task : UserTaskRecord} (h : task ∈ startedUserTasks firstTaskId events d) :
    ∃ event ∈ events, (event.startedUserTask d).isSome = true ∧
      event.userWait = some ⟨task.instanceId, task.tokenId, task.elementId⟩ ∧
        task.status = .unclaimed := by
  obtain ⟨⟨x, i⟩, hx, rfl⟩ := List.mem_map.1 h
  obtain ⟨event, hevent, hstarted⟩ := List.mem_filterMap.1 (List.fst_mem_of_mem_zipIdx hx)
  obtain ⟨hwait, hstatus⟩ := startedUserTask_userWait hstarted
  exact ⟨event, hevent, by rw [hstarted]; rfl, hwait, hstatus⟩

/-- A record is created for an event whose element is found. -/
theorem exists_startedUserTask {firstTaskId : Nat} {events : List ExecutionEvent}
    {event : ExecutionEvent} {w : UserWait} (hevent : event ∈ events) (hw : event.userWait = some w)
    (hfound : (event.startedUserTask d).isSome = true) :
    ∃ task ∈ startedUserTasks firstTaskId events d,
      task.instanceId = w.instanceId ∧ task.tokenId = w.tokenId ∧ task.elementId = w.elementId ∧
        task.status = .unclaimed := by
  obtain ⟨x, hx⟩ := Option.isSome_iff_exists.1 hfound
  obtain ⟨hwait, hstatus⟩ := startedUserTask_userWait hx
  have hmem : x ∈ events.filterMap (·.startedUserTask d) := List.mem_filterMap.2 ⟨event, hevent, hx⟩
  obtain ⟨i, hi, hget⟩ := List.mem_iff_getElem.1 hmem
  have hzip : (x, firstTaskId + i) ∈
      (events.filterMap (·.startedUserTask d)).zipIdx firstTaskId := by
    rw [List.mem_zipIdx_iff_le_and_getElem?_sub]
    exact ⟨by omega, by rw [Nat.add_sub_cancel_left, ← hget]; exact List.getElem?_eq_getElem hi⟩
  rw [hw] at hwait
  cases hwait
  exact ⟨_, List.mem_map_of_mem hzip, rfl, rfl, rfl, hstatus⟩

theorem nodup_startedUserTasks (firstTaskId : Nat) (events : List ExecutionEvent) :
    ((startedUserTasks firstTaskId events d).map (·.id)).Nodup := by
  have hids : (startedUserTasks firstTaskId events d).map (·.id) =
      ((events.filterMap (·.startedUserTask d)).zipIdx firstTaskId).map Prod.snd := by
    rw [startedUserTasks, List.map_map]
    rfl
  rw [hids, List.zipIdx_map_snd]
  exact List.nodup_range'

theorem le_of_mem_startedUserTasks {firstTaskId : Nat} {events : List ExecutionEvent}
    {task : UserTaskRecord} (h : task ∈ startedUserTasks firstTaskId events d) :
    firstTaskId ≤ task.id := by
  obtain ⟨⟨x, i⟩, hx, rfl⟩ := List.mem_map.1 h
  exact (List.mem_zipIdx hx).1

/-- Every token gets at most one of the records. -/
theorem once_startedUserTasks {firstTaskId : Nat} {events : List ExecutionEvent}
    (h : ((userWaits events).map (·.tokenId)).Nodup) :
    ((startedUserTasks firstTaskId events d).map (·.tokenId)).Nodup := by
  have htokens : (startedUserTasks firstTaskId events d).map (·.tokenId) =
      (events.filterMap (·.startedUserTask d)).map (·.tokenId) := by
    rw [startedUserTasks, List.map_map]
    conv_rhs => rw [← List.zipIdx_map_fst firstTaskId (events.filterMap (·.startedUserTask d))]
    rw [List.map_map]
    rfl
  have hsub : List.Sublist ((events.filterMap (·.startedUserTask d)).map (·.tokenId))
      ((userWaits events).map (·.tokenId)) := by
    clear h htokens
    induction events with
    | nil => exact List.Sublist.refl _
    | cons event events ih =>
      cases hstarted : event.startedUserTask d with
      | none =>
        rw [List.filterMap_cons_none hstarted]
        refine ih.trans ?_
        have hrest : List.Sublist (userWaits events) (userWaits (event :: events)) :=
          (List.sublist_cons_self event events).filterMap _
        exact hrest.map _
      | some task =>
        have hwait := (startedUserTask_userWait hstarted).1
        rw [List.filterMap_cons_some hstarted]
        unfold userWaits at ih ⊢
        rw [List.filterMap_cons_some hwait]
        exact ih.cons_cons _
  rw [htokens]
  exact h.sublist hsub

/-- The records that the caller creates. -/
def Cycle.created (c : Cycle) (d : ProcessDefinition) (result : EngineResult) :
    List UserTaskRecord :=
  match c.caller with
  | .request _ => startedUserTasks c.firstTaskId result.events d
  | .worker | .timer => []

/-- The records that the caller closes. -/
def Cycle.closed (c : Cycle) (store : Store) (state : EngineState) : List UserTaskRecord :=
  match c.caller with
  | .request closes => (closes state).alone store
  | .worker | .timer => []

/-! ## The table of the records -/

/-- No operation takes a record away. -/
theorem isSome_writeUserTasks {m : KeyedMap UserTaskRecord.id} {id : Nat} (op : StoreOperation)
    (h : (m.get? id).isSome = true) : ((writeUserTasks m op).get? id).isSome = true := by
  have hset : ∀ task : UserTaskRecord, ((m.set task).get? id).isSome = true := by
    intro task
    rw [KeyedMap.get?_set]
    split
    · rfl
    · exact h
  cases op with
  | createUserTask task => exact hset task
  | updateUserTask task =>
    unfold writeUserTasks
    simp only
    split
    · exact hset task
    · exact h
  | _ => exact h

/-- A transaction that goes through creates records under new ids. -/
theorem executeTransaction_created {ops : List StoreOperation} {task : UserTaskRecord}
    (hmem : createUserTask task ∈ ops) (h : store.executeTransaction ops = .ok store') :
    store.userTasks.get? task.id = none := by
  induction ops generalizing store with
  | nil => cases hmem
  | cons op ops ih =>
    obtain ⟨mid, hmid, h⟩ := Except.foldlM_cons_eq_ok_iff.1 h
    rcases List.mem_cons.1 hmem with rfl | hmem
    · cases hget : store.userTasks.get? task.id with
      | none => rfl
      | some row => simp [Store.applyOp, Store.createUserTask, hget] at hmid
    · have hlater := ih hmem h
      by_contra hne
      have hthere := isSome_writeUserTasks op (Option.isSome_iff_ne_none.2 hne)
      have hmid : mid.userTasks = writeUserTasks store.userTasks op :=
        congrArg Store.userTasks (applyOp_write hmid)
      rw [← hmid, hlater] at hthere
      cases hthere

/-- The records after a transaction: those that it creates and closes, and the others. -/
theorem mem_userTaskOps {m : KeyedMap UserTaskRecord.id} {created closed : List UserTaskRecord}
    (hcreated : (created.map (·.id)).Nodup) (hnew : ∀ r ∈ created, m.get? r.id = none)
    (hclosed : (closed.map (·.id)).Nodup) (hold : ∀ r ∈ closed, (m.get? r.id).isSome = true)
    (r : UserTaskRecord) :
    r ∈ ((created.map createUserTask ++ closed.map updateUserTask).foldl writeUserTasks m).values ↔
      r ∈ created ∨ r ∈ closed ∨ r ∈ m.values ∧ ∀ c ∈ closed, c.id ≠ r.id := by
  have hfold : (created.map createUserTask ++ closed.map updateUserTask).foldl writeUserTasks m =
      (created ++ closed).foldl KeyedMap.set m := by
    have hthere : ∀ c ∈ closed, ((created.foldl KeyedMap.set m).get? c.id).isSome = true := by
      intro c hc
      rw [KeyedMap.get?_foldl_set_of_notMem]
      · exact hold c hc
      · intro x hx hid
        have hid : x.id = c.id := hid
        have hnone := hnew x hx
        rw [hid] at hnone
        have := hold c hc
        rw [hnone] at this
        cases this
    rw [List.foldl_append, List.foldl_append, List.foldl_map, List.foldl_map]
    show closed.foldl _ (created.foldl KeyedMap.set m) = _
    generalize created.foldl KeyedMap.set m = mid at hthere ⊢
    clear hclosed hold
    induction closed generalizing mid with
    | nil => rfl
    | cons c closed ih =>
      have hset : writeUserTasks mid (updateUserTask c) = mid.set c := by
        unfold writeUserTasks
        exact if_pos (hthere c List.mem_cons_self)
      rw [List.foldl_cons, List.foldl_cons, hset]
      refine ih _ fun x hx => ?_
      rw [← hset]
      exact isSome_writeUserTasks _ (hthere x (List.mem_cons_of_mem c hx))
  have hapart : ∀ x ∈ created, ∀ v ∈ m.values, x.id ≠ v.id := by
    intro x hx v hv hid
    have hnone := hnew x hx
    rw [hid, KeyedMap.get?_of_mem hv] at hnone
    cases hnone
  have hnd : ((created ++ closed).map (·.id)).Nodup := by
    rw [List.map_append, List.nodup_append]
    refine ⟨hcreated, hclosed, fun i hi j hj hij => ?_⟩
    obtain ⟨x, hx, rfl⟩ := List.mem_map.1 hi
    obtain ⟨c, hc, rfl⟩ := List.mem_map.1 hj
    obtain ⟨v, hv⟩ := Option.isSome_iff_exists.1 (hold c hc)
    exact hapart x hx v (KeyedMap.mem_of_get? hv) (hij.trans (KeyedMap.key_of_get? hv).symm)
  rw [hfold, KeyedMap.mem_foldl_set_iff hnd, List.mem_append, or_assoc]
  refine or_congr_right (or_congr_right (and_congr_right fun hr => ⟨fun hne c hc => ?_,
    fun hne x hx => ?_⟩))
  · exact hne c (List.mem_append_right _ hc)
  · rcases List.mem_append.1 hx with hx | hx
    · exact hapart x hx r hr
    · exact hne x hx

end NexusWorkflow
