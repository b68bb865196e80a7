import NexusWorkflow.Game.HandlerEffects
import NexusWorkflow.Run.Diagram

/-!
# Cycles on one instance are serializable

Every cycle reads the instance first and ends in a transaction whose first operation updates the
instance from the version that was read.  So the programs of cycles are guarded by the version of
the instance's row, and the theory of `Lib.Optimistic` applies.
-/

namespace NexusWorkflow

/-- The version of an instance's row, counted from 1; 0 if there is no row. -/
def Store.stamp (store : Store) (instanceId : Nat) : Nat :=
  ((store.instances.get? instanceId).map (·.version + 1)).getD 0

/-! ## Transactions -/

/-- The operation does not write instances. -/
def StoreOperation.sparesInstances : StoreOperation → Bool
  | .createInstance _ | .updateInstance _ _ => false
  | _ => true

variable {store store' : Store}

theorem applyOp_instances {op : StoreOperation} (hop : op.sparesInstances = true)
    (h : store.applyOp op = .ok store') : store'.instances = store.instances := by
  cases op with
  | createInstance _ | updateInstance _ _ => cases hop
  | createUserTask task =>
    unfold Store.applyOp Store.createUserTask at h
    simp only at h
    split at h
    · cases h
    · rw [← Except.ok.inj h]
  | updateUserTask task =>
    rw [← Except.ok.inj h]
    unfold Store.updateUserTask
    split <;> rfl
  | saveCompensationRecord record =>
    rw [← Except.ok.inj h]
    unfold Store.saveCompensationRecord
    split <;> rfl
  | saveTokens _ | saveScope _ => rw [← Except.ok.inj h]; rfl
  | _ => rw [← Except.ok.inj h]

theorem executeTransaction_instances {ops : List StoreOperation}
    (hops : ∀ op ∈ ops, op.sparesInstances = true) (h : store.executeTransaction ops = .ok store') :
    store'.instances = store.instances :=
  Except.of_foldlM (I := fun now => now.instances = store.instances) h rfl
    fun _ _ op hop hI hok => (applyOp_instances (hops op hop) hok).trans hI

/-- A transaction that begins with the update of an instance which is there: it was at the expected
version, and is at the next one now. -/
theorem executeTransaction_update {inst : ProcessInstance} {version : Nat}
    {ops : List StoreOperation} (hops : ∀ op ∈ ops, op.sparesInstances = true)
    (hthere : store.stamp inst.id ≠ 0)
    (h : store.executeTransaction (.updateInstance inst (some version) :: ops) = .ok store') :
    store.stamp inst.id = version + 1 ∧ store'.stamp inst.id = version + 2 := by
  obtain ⟨mid, hmid, h⟩ := Except.foldlM_cons_eq_ok_iff.1 h
  have hmid : store.updateInstance inst (some version) = .ok mid := hmid
  unfold Store.updateInstance at hmid
  unfold Store.stamp at hthere ⊢
  rw [executeTransaction_instances hops h]
  cases hrow : store.instances.get? inst.id with
  | none => simp [hrow] at hthere
  | some row =>
    simp only [hrow, Option.all_some] at hmid
    by_cases hv : version = row.version
    · simp only [hv, decide_true, if_true, Except.ok.injEq] at hmid
      have hget : mid.instances.get? inst.id = some ⟨inst, row.version + 1⟩ := by
        rw [← hmid]
        exact KeyedMap.get?_set_self _ _
      simp [hget, hv]
    · simp [hv] at hmid

/-! ## The operations of a cycle -/

/-- What a cycle on a loaded state writes. -/
def Guards (inst : ProcessInstance) (version : Nat) (ops : List StoreOperation) : Prop :=
  ∃ (after : ProcessInstance) (rest : List StoreOperation), after.core = inst.core ∧
    ops = .updateInstance after (some version) :: rest ∧ ∀ op ∈ rest, op.sparesInstances = true

variable {d : ProcessDefinition} {state newState : EngineState} {version : Nat}

theorem gatewayOps_spares (oldState : Option EngineState) :
    ∀ op ∈ gatewayOps oldState newState, op.sparesInstances = true := by
  intro op hop
  rcases List.mem_append.1 hop with hop | hop <;> obtain ⟨_, -, rfl⟩ := List.mem_map.1 hop <;> rfl

theorem subscriptionOps_spares (oldTokens newTokens : List Token) :
    ∀ op ∈ subscriptionOps oldTokens newTokens, op.sparesInstances = true := by
  intro op hop
  rcases List.mem_append.1 hop with hop | hop
  · obtain ⟨t, -, ht⟩ := List.mem_filterMap.1 hop
    split at ht
    · cases ht
    · obtain ⟨_, -, rfl⟩ := Option.map_eq_some_iff.1 ht
      rfl
  · obtain ⟨_, -, rfl⟩ := List.mem_map.1 hop
    rfl

theorem compensationOps_spares (oldRecords newRecords : List CompensationRecord) :
    ∀ op ∈ compensationOps oldRecords newRecords, op.sparesInstances = true := by
  intro op hop
  rcases List.mem_append.1 hop with hop | hop <;> obtain ⟨_, -, rfl⟩ := List.mem_map.1 hop <;> rfl

theorem stateOps_guards {after : ProcessInstance} (hcore : after.core = state.inst.core)
    {more : List StoreOperation} (hmore : ∀ op ∈ more, op.sparesInstances = true) :
    Guards state.inst version
      (stateOps (.updateInstance after (some version)) (some state) newState ++ more) := by
  refine ⟨after, _, hcore, rfl, fun op hop => ?_⟩
  rcases List.mem_append.1 hop with hop | hop
  · rcases List.mem_cons.1 hop with rfl | hop
    · rfl
    · rcases List.mem_append.1 hop with hop | hop
      · obtain ⟨_, -, rfl⟩ := List.mem_map.1 hop
        rfl
      · exact gatewayOps_spares _ op hop
  · exact hmore op hop

/-- Each of the three callers begins with the guarded update. -/
theorem Caller.storeOps_guards {caller : Caller} {firstTaskId : Nat} {result : EngineResult}
    {ops : List StoreOperation} (hcore : result.newState.inst.core = state.inst.core)
    (h : Reading.Ends (caller.storeOps d firstTaskId state version result) ops) :
    Guards state.inst version ops := by
  cases caller with
  | request closes =>
    obtain ⟨closed, -, h⟩ := Reading.ends_bind h
    rw [Reading.ends_done h]
    unfold computeStoreOps
    rw [List.append_assoc]
    refine stateOps_guards hcore fun op hop => ?_
    rcases List.mem_append.1 hop with hop | hop
    · rcases List.mem_append.1 hop with hop | hop
      · exact subscriptionOps_spares _ _ op hop
      · exact compensationOps_spares _ _ op hop
    · rcases List.mem_append.1 hop with hop | hop <;> obtain ⟨_, -, rfl⟩ :=
        List.mem_map.1 hop <;> rfl
  | worker | timer =>
    have hguard : Guards state.inst version (stateOps (.updateInstance result.newState.inst
      (some version)) (some state) result.newState ++ []) := stateOps_guards hcore (by simp)
    rw [List.append_nil] at hguard
    exact Reading.ends_done h ▸ hguard

theorem Cycle.storeOps_guards {definitions : String → Nat → Option ProcessDefinition} {c : Cycle}
    {ops : List StoreOperation}
    (h : Reading.Ends (c.storeOps definitions state version) (some ops)) :
    Guards state.inst version ops := by
  unfold Cycle.storeOps at h
  split at h
  · split at h
    · cases Reading.ends_done h
    · split at h
      · cases Reading.ends_done h
      · rename_i result hresult
        obtain ⟨ops', hops, h⟩ := Reading.ends_bind h
        cases Reading.ends_done h
        exact Caller.storeOps_guards (execute_core c.goesOn hresult) hops
  · cases Reading.ends_done h

/-! ## Loading -/

/-- The instance comes from the first query; the queries after it do not look at the instance. -/
theorem loadRest_inst {order : RowOrder} {inst : ProcessInstance}
    (h : Reading.Ends (loadRest order inst) state) : state.inst = inst := by
  obtain ⟨tokens, -, h⟩ := Reading.ends_bind h
  obtain ⟨joins, -, h⟩ := Reading.ends_bind h
  obtain ⟨scopes, -, h⟩ := Reading.ends_bind h
  obtain ⟨records, -, h⟩ := Reading.ends_bind h
  rw [Reading.ends_done h]

theorem loadEngineState_ends {order : RowOrder} {found : Option (ProcessInstance × Nat)}
    (h : Reading.Ends (match found with
      | none => pure none
      | some (inst, version) => do
          let state ← loadRest order inst
          pure (some (state, version))) (some (state, version))) :
    found = some (state.inst, version) := by
  cases found with
  | none => cases Reading.ends_done h
  | some row =>
    obtain ⟨loaded, hloaded, h⟩ := Reading.ends_bind h
    cases Reading.ends_done h
    rw [loadRest_inst hloaded]

theorem getInstance_eq {instanceId version : Nat} {inst : ProcessInstance}
    (h : store.getInstance instanceId = some (inst, version)) :
    inst.id = instanceId ∧ store.stamp instanceId = version + 1 := by
  obtain ⟨row, hrow, heq⟩ := Option.map_eq_some_iff.1 h
  cases heq
  have hid : row.id = instanceId := KeyedMap.key_of_get? hrow
  exact ⟨hid, by simp [Store.stamp, hrow]⟩

/-- The program of a cycle is guarded by the version of the instance's row. -/
theorem Cycle.program_guarded (definitions : String → Nat → Option ProcessDefinition)
    (instanceId : Nat) (c : Cycle) :
    (c.program definitions instanceId).Guarded fun store => store.stamp instanceId := by
  intro s txn h now new hle hnew
  obtain ⟨ops, hops, h⟩ := Reading.ends_bind h
  obtain ⟨loaded, hloaded, hops⟩ := Reading.ends_bind hops
  obtain ⟨ops, rfl, rfl⟩ := Option.map_eq_some_iff.1 (Reading.ends_done h).symm
  cases loaded with
  | none => cases Reading.ends_done hops
  | some loaded =>
    obtain ⟨state, version⟩ := loaded
    obtain ⟨hid, hstamp⟩ := getInstance_eq (loadEngineState_ends hloaded)
    obtain ⟨after, rest, hcore, rfl, hspares⟩ := Cycle.storeOps_guards hops
    have hafter : after.id = instanceId := (congrArg ProcessInstance.id hcore).trans hid
    have hexec : now.executeTransaction (.updateInstance after (some version) :: rest) =
        .ok new := by
      cases hx : now.executeTransaction (.updateInstance after (some version) :: rest) with
      | error e => simp [hx, Except.toOption] at hnew
      | ok x => simpa [hx, Except.toOption] using hnew
    have hle : s.stamp instanceId ≤ now.stamp instanceId := hle
    have hupdate := executeTransaction_update hspares (by rw [hafter]; omega) hexec
    rw [hafter] at hupdate
    show now.stamp instanceId = s.stamp instanceId ∧ now.stamp instanceId < new.stamp instanceId
    omega

/-! ## Cycles that interleave -/

variable {ι : Type} [DecidableEq ι]

/-- However the reads and transactions of any number of actors interleave: the store is what the
committed cycles give when they run one after the other, in the order of their commits, and a cycle
whose reads saw two versions of the instance is refused. -/
theorem cycles_serializable (definitions : String → Nat → Option ProcessDefinition)
    (instanceId : Nat) {store : Store} {S : Shared ι Cycle Store}
    (h : Shared.Reaches (fun c : Cycle => c.program definitions instanceId) store S) :
    S.committed.foldlM (fun now c => (c.program definitions instanceId).perform now) store =
        some S.state ∧
      ∀ i session, S.sessions i = some session → ∀ s₁ ∈ session.seen, ∀ s₂ ∈ session.seen,
        s₁.stamp instanceId ≠ s₂.stamp instanceId →
          ∀ txn, session.rest = .done (some txn) → txn S.state = none := by
  have hguard := Cycle.program_guarded definitions instanceId
  refine ⟨h.serial hguard, fun i session hi s₁ h₁ s₂ h₂ hne txn hrest => ?_⟩
  exact h.refused hguard hi h₁ h₂ hne hrest

namespace Diagram

def tripFlows : List SequenceFlow :=
  [.between "toSplit" "start" "split", .between "toFetch" "split" "fetch",
    .between "toCheck" "split" "check", .between "fetched" "fetch" "end",
    .between "checked" "check" "end"]

/-- A service task beside a user task. -/
def trip : ProcessDefinition :=
  definition tripFlows
    [start tripFlows "start", .gateway (gateway tripFlows "split" .parallel),
      serviceTask tripFlows "fetch", userTask tripFlows "check", finish tripFlows "end" .none]

end Diagram

open Diagram

/-- A user completes a task while a worker, which has read the instance already, loads the rest of
its state.  The worker is refused; it loads the state once more, and then it commits. -/
theorem cycles_serializable_trip : ∃ (store : Store) (S S' : Shared Bool Cycle Store)
    (txn : Transaction Store) (seen : List Store),
    Store.started trip = some store ∧
      S.committed = [requestCompletes 5 10] ∧
      S.sessions false = some ⟨workerCompletes 4 20, .done (some txn), seen⟩ ∧
      (store ∈ seen ∧ S.state ∈ seen ∧ store.stamp 0 ≠ S.state.stamp 0 ∧ txn S.state = none) ∧
      S'.committed = [requestCompletes 5 10, workerCompletes 4 20] ∧
      S'.committed.foldlM (fun now c => (c.program (fun _ _ => some trip) 0).perform now) store =
        some S'.state := by
  let program : Cycle → Program Store := fun c => c.program (fun _ _ => some trip) 0
  have hruns : ((Store.started trip).bind fun store =>
      ((program (requestCompletes 5 10)).perform store).bind fun mid =>
        if store.stamp 0 ≠ mid.stamp 0 ∧ (program (workerCompletes 4 20)).asks ∧
            ((program (workerCompletes 4 20)).resume store).asks ∧
            (((program (workerCompletes 4 20)).resume store).alone mid).isSome then
          (program (workerCompletes 4 20)).perform mid
        else none).isSome = true := by
    decide +kernel
  obtain ⟨last, hlast⟩ := Option.isSome_iff_exists.1 hruns
  obtain ⟨store, hstore, hlast⟩ := Option.bind_eq_some_iff.1 hlast
  obtain ⟨mid, hmid, hlast⟩ := Option.bind_eq_some_iff.1 hlast
  obtain ⟨⟨hne, hasks, hmore, htxn⟩, hlast⟩ := Option.ite_none_right_eq_some.1 hlast
  obtain ⟨txn, htxn⟩ := Option.isSome_iff_exists.1 htxn
  have hstart : Shared.Reaches program store ⟨store, fun _ : Bool => none, []⟩ := .start
  obtain ⟨seen, hseen, hseen', hovertaken⟩ := hstart.overtaken (i := false) (j := true)
    (by decide) rfl rfl hasks hmore hmid
  rw [htxn] at hovertaken
  have hrefused : txn mid = none :=
    (cycles_serializable (fun _ _ => some trip) 0 hovertaken).2 false _ rfl store hseen mid hseen'
      hne txn rfl
  have hfree := hovertaken.step (.refuse false (Shared.sessions_setSession _ _ _) hrefused)
  have hagain := hfree.uninterrupted (i := false) (Shared.sessions_setSession _ _ _) _ hlast
  exact ⟨store, Shared.setSession ⟨mid, fun _ => none, [requestCompletes 5 10]⟩ false _, _, txn,
    seen, hstore, rfl, Shared.sessions_setSession _ _ _, ⟨hseen, hseen', hne, hrefused⟩, rfl,
    (cycles_serializable (fun _ _ => some trip) 0 hagain).1⟩

end NexusWorkflow
