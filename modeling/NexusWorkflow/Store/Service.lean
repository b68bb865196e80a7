import NexusWorkflow.Run.Diagram
import NexusWorkflow.Run.Reload
import NexusWorkflow.Store.RoundTrip

/-!
# A store in service

What requests, workers and timers make of a store, one cycle after the other.  (Cycles that
interleave come to the same, one after the other in the order of their commits.)  Ids are handed out
once, across all instances.
-/

namespace NexusWorkflow

/-! ## Cycles that go through -/

/-- What a cycle has loaded, executed and written. -/
structure Cycle.Done (definitions : String → Nat → Option ProcessDefinition) (c : Cycle)
    (instanceId : Nat) (store : Store) (d : ProcessDefinition) (state : EngineState) (version : Nat)
    (result : EngineResult) (ops : List StoreOperation) (store' : Store) : Prop where
  loads : (loadEngineState c.order instanceId).alone store = some (state, version)
  admits : c.admits state = true
  finds : definitions state.inst.definitionId state.inst.definitionVersion = some d
  executes : execute d c.fuel c.command (some state) c.options = .ok result
  writes : (c.caller.storeOps d c.firstTaskId state version result).alone store = ops
  saves : store.executeTransaction ops = .ok store'

/-- The program of a cycle changes the store exactly if the cycle goes through. -/
theorem Cycle.perform_iff (definitions : String → Nat → Option ProcessDefinition) (c : Cycle)
    (instanceId : Nat) (store store' : Store) :
    (c.program definitions instanceId).perform store = some store' ↔
      ∃ d state version result ops,
        c.Done definitions instanceId store d state version result ops store' := by
  have hprogram : (c.program definitions instanceId).perform store =
      ((c.plan definitions instanceId).alone store).bind fun ops =>
        (store.executeTransaction ops).toOption := by
    have hbind : (c.program definitions instanceId).alone store = _ :=
      Reading.alone_bind (c.plan definitions instanceId) _ store
    rw [Program.perform, hbind, Reading.alone_done, Option.bind_map]
    rfl
  rw [hprogram, Cycle.plan, Reading.alone_bind]
  constructor
  · intro h
    obtain ⟨ops, hops, hsave⟩ := Option.bind_eq_some_iff.1 h
    split at hops
    · cases hops
    · rename_i state version hloads
      rw [Cycle.storeOps] at hops
      split at hops
      · rename_i hadmits
        split at hops
        · cases hops
        · rename_i d hfinds
          split at hops
          · cases hops
          · rename_i result hexecutes
            rw [Reading.alone_bind, Reading.alone_pure] at hops
            refine ⟨d, state, version, result, ops, hloads, hadmits, hfinds, hexecutes,
              Option.some.inj hops, ?_⟩
            cases hok : store.executeTransaction ops with
            | error e => simp [hok, Except.toOption] at hsave
            | ok new => simpa [hok, Except.toOption] using hsave
      · cases hops
  · rintro ⟨d, state, version, result, ops, h⟩
    simp only [h.loads, Cycle.storeOps, h.admits, if_true, h.finds, h.executes, Reading.alone_bind,
      Reading.alone_pure, Option.bind_some, h.writes, h.saves]
    rfl

/-- What happens to a store. -/
inductive Change where
  /-- An instance is started, for the first time or again. -/
  | start (d : ProcessDefinition) (result : EngineResult)
  /-- A cycle goes through. -/
  | cycle (c : Cycle) (store : Store) (d : ProcessDefinition) (state : EngineState)
      (result : EngineResult)
  /-- User-task records are written on their own: a task is claimed or released. -/
  | tasks (store : Store) (ops : List StoreOperation)

/-- The stores that the service can come to by changes that meet a condition, and the next unused
id. -/
inductive Served (definitions : String → Nat → Option ProcessDefinition) (C : Change → Prop) :
    Store → Nat → Prop
  | empty : Served definitions C ∅ 0
  | start {store store' : Store} {nextId : Nat} (served : Served definitions C store nextId)
      {d : ProcessDefinition} {fuel : Nat} {vars : Option Variables}
      {correlationKey businessKey : Option String} {options : ExecuteOptions}
      {result : EngineResult} (hid : nextId ≤ options.firstId)
      (h : execute d fuel (.startProcess vars correlationKey businessKey) none options = .ok result)
      (hC : C (.start d result)) {firstTaskId : Nat}
      (hsave : store.executeTransaction (computeStoreOps true none none result.newState ++
        buildUserTaskCreationOps firstTaskId result.events d) = .ok store') :
      Served definitions C store' result.nextId
  | cycle {store store' : Store} {nextId : Nat} (served : Served definitions C store nextId)
      {c : Cycle} {instanceId : Nat} {d : ProcessDefinition} {state : EngineState} {version : Nat}
      {result : EngineResult} {ops : List StoreOperation} (hid : nextId ≤ c.options.firstId)
      (hdone : c.Done definitions instanceId store d state version result ops store')
      (hC : C (.cycle c store d state result)) : Served definitions C store' result.nextId
  | tasks {store store' : Store} {nextId : Nat} (served : Served definitions C store nextId)
      {ops : List StoreOperation} (htable : ∀ op ∈ ops, op.table = .userTasks)
      (hC : C (.tasks store ops)) (hsave : store.executeTransaction ops = .ok store') :
      Served definitions C store' nextId

/-! ## What is loaded -/

variable {store store' : Store} {definitions : String → Nat → Option ProcessDefinition}

theorem loadEngineState_alone (order : RowOrder) (instanceId : Nat) :
    (loadEngineState order instanceId).alone store =
      (store.getInstance instanceId).map fun (inst, version) =>
        (store.loaded order inst, version) := by
  simp only [loadEngineState, Reading.alone_bind, Reading.alone_ask]
  cases store.getInstance instanceId with
  | none => rfl
  | some row => simp only [Reading.alone_bind, loadRest_alone, Reading.alone_pure, Option.map_some]

theorem mem_loaded {order : RowOrder} {inst : ProcessInstance} {t : Token} :
    t ∈ (store.loaded order inst).tokens ↔
      ∃ x ∈ store.tokens.values, x.instanceId = inst.id ∧ reviveToken x = t := by
  show t ∈ (order.tokens _).map reviveToken ↔ _
  rw [List.mem_map]
  constructor
  · rintro ⟨x, hx, rfl⟩
    have hx := List.mem_filter.1 ((order.perm_tokens _).subset hx)
    exact ⟨x, hx.1, by simpa using hx.2, rfl⟩
  · rintro ⟨x, hx, hid, rfl⟩
    exact ⟨x, (order.perm_tokens _).symm.subset (List.mem_filter.2 ⟨hx, by simpa using hid⟩), rfl⟩

/-! ## Sound stores -/

/-- Ids are below the next one, no token is on its way, and parents are tokens of the same
instance. -/
structure Store.Sound (store : Store) (nextId : Nat) : Prop where
  instances : ∀ row ∈ store.instances.values, row.data.id < nextId
  known : ∀ t ∈ store.tokens.values, t.id < nextId ∧ t.instanceId < nextId
  still : ∀ t ∈ store.tokens.values, t.status ≠ .active ∧ t.status ≠ .suspended
  parents : ∀ t ∈ store.tokens.values, ∀ p, t.parentTokenId = some p →
    p < t.id ∧ ∃ x ∈ store.tokens.values, x.id = p ∧ x.instanceId = t.instanceId

/-- A loaded state is at rest. -/
theorem Store.Sound.loaded {nextId : Nat} (h : store.Sound nextId) (order : RowOrder)
    (inst : ProcessInstance) : (store.loaded order inst).Resting nextId where
  tokens t ht := by
    obtain ⟨x, -, hid, rfl⟩ := mem_loaded.1 ht
    exact hid
  joins s hs := by
    have hs := List.mem_filter.1 ((order.perm_gatewayStates _).subset hs)
    exact of_decide_eq_true hs.2
  records r hr := by
    have hr := (order.perm_compensationRecords _).subset
      ((List.perm_insertionSort _ _).subset hr)
    exact of_decide_eq_true (List.mem_filter.1 hr).2
  tokenIds := by
    show ((((order.tokens _).map reviveToken)).map (·.id)).Nodup
    rw [List.map_map]
    refine (((order.perm_tokens _).map (·.id)).nodup_iff).2 ?_
    exact store.tokens.nodup.sublist (List.filter_sublist.map _)
  known t ht := by
    obtain ⟨x, hx, -, rfl⟩ := mem_loaded.1 ht
    exact (h.known x hx).1
  still t ht := by
    obtain ⟨x, hx, -, rfl⟩ := mem_loaded.1 ht
    exact h.still x hx
  parents t ht p hp := by
    obtain ⟨x, hx, hid, rfl⟩ := mem_loaded.1 ht
    obtain ⟨hlt, y, hy, hyp, hinst⟩ := h.parents x hx p hp
    exact ⟨hlt, reviveToken y, mem_loaded.2 ⟨y, hy, hinst.trans hid, rfl⟩, hyp⟩

/-! ## What is saved -/

/-- The rows of one instance are replaced by the tokens of its new state; no other row is
touched. -/
theorem mem_savedTokens {m : KeyedMap Token.id} {new : List Token} {instanceId : Nat}
    (hnd : (new.map (·.id)).Nodup)
    (hkept : ∀ t ∈ m.values, t.instanceId = instanceId → ∃ t' ∈ new, t'.id = t.id)
    (hapart : ∀ t' ∈ new, ∀ t ∈ m.values, t'.id = t.id → t.instanceId = instanceId) (t : Token) :
    t ∈ (new.foldl KeyedMap.set m).values ↔
      t ∈ new ∨ (t ∈ m.values ∧ t.instanceId ≠ instanceId) := by
  rw [KeyedMap.mem_foldl_set_iff hnd]
  refine or_congr_right (and_congr_right fun ht => ⟨fun hnot hid => ?_, fun hne t' ht' heq => ?_⟩)
  · obtain ⟨t', ht', heq⟩ := hkept t ht hid
    exact hnot t' ht' heq
  · exact hne (hapart t' ht' t ht heq)

/-- What a request writes after the state. -/
theorem besides_request {oldTokens newTokens : List Token}
    {oldRecords newRecords : List CompensationRecord} {created closed : List StoreOperation}
    (hcreated : ∀ op ∈ created, op.table = .userTasks)
    (hclosed : ∀ op ∈ closed, op.table = .userTasks) :
    Besides (subscriptionOps oldTokens newTokens ++ (compensationOps oldRecords newRecords ++
      (created ++ closed))) := by
  intro op hop
  rcases List.mem_append.1 hop with hop | hop
  · exact .inl (subscriptionOps_table op hop)
  · rcases List.mem_append.1 hop with hop | hop
    · exact .inr (.inl (compensationOps_table op hop))
    · refine .inr (.inr ?_)
      rcases List.mem_append.1 hop with hop | hop
      · exact hcreated op hop
      · exact hclosed op hop

/-- The operations that a caller writes for a cycle. -/
theorem Cycle.Done.ops_eq {c : Cycle} {instanceId : Nat} {d : ProcessDefinition}
    {state : EngineState} {version : Nat} {result : EngineResult} {ops : List StoreOperation}
    (h : c.Done definitions instanceId store d state version result ops store') :
    ∃ more, Besides more ∧ ops =
      stateOps (.updateInstance result.newState.inst (some version)) (some state) result.newState ++
        more := by
  rw [← h.writes]
  cases c.caller with
  | request closes =>
    simp only [Caller.storeOps, Reading.alone_bind, Reading.alone_pure, computeStoreOps,
      List.append_assoc]
    exact ⟨_, besides_request buildUserTaskCreationOps_table updateUserTask_table, rfl⟩
  | worker | timer => exact ⟨[], by simp [Besides], (List.append_nil _).symm⟩

theorem Cycle.Done.continued {c : Cycle} {instanceId nextId : Nat} {d : ProcessDefinition}
    {state : EngineState} {version : Nat} {result : EngineResult} {ops : List StoreOperation}
    (h : c.Done definitions instanceId store d state version result ops store')
    (hsound : store.Sound nextId) (hfirst : nextId ≤ c.options.firstId) :
    (∃ row ∈ store.instances.values, row.data.id = instanceId ∧
      state = store.loaded c.order (reviveInstance row.data)) ∧
      Continued state result.newState c.options.firstId result.nextId := by
  have hloads := h.loads
  rw [loadEngineState_alone] at hloads
  obtain ⟨⟨inst, v⟩, hget, heq⟩ := Option.map_eq_some_iff.1 hloads
  simp only [Prod.mk.injEq] at heq
  obtain ⟨rfl, rfl⟩ := heq
  obtain ⟨row, hrow, heq⟩ := Option.map_eq_some_iff.1 hget
  cases heq
  have hid : row.id = instanceId := KeyedMap.key_of_get? hrow
  refine ⟨⟨row, KeyedMap.mem_of_get? hrow, hid, rfl⟩, ?_⟩
  exact execute_continued c.goesOn (hsound.loaded _ _) hfirst h.executes

/-- The rows of one instance are replaced by those of its new state. -/
structure Store.Replaced (store : Store) (new : EngineState) (store' : Store) : Prop where
  tokens : ∀ t, t ∈ store'.tokens.values ↔
    t ∈ new.tokens ∨ (t ∈ store.tokens.values ∧ t.instanceId ≠ new.inst.id)
  instances : ∀ row ∈ store'.instances.values,
    row.data = new.inst ∨ row ∈ store.instances.values ∧ row.data.id ≠ new.inst.id

theorem Store.Sound.replaced {nextId nextId' : Nat} {new : EngineState} (h : store.Sound nextId)
    (hnew : new.Resting nextId') (hle : nextId ≤ nextId') (hid : new.inst.id < nextId')
    (hreplaced : store.Replaced new store') : store'.Sound nextId' where
  instances row hrow := by
    rcases hreplaced.instances row hrow with heq | ⟨hold, -⟩
    · exact heq ▸ hid
    · exact (h.instances row hold).trans_le hle
  known t ht := by
    rcases (hreplaced.tokens t).1 ht with ht | ⟨ht, -⟩
    · exact ⟨hnew.known t ht, hnew.tokens t ht ▸ hid⟩
    · exact ⟨(h.known t ht).1.trans_le hle, (h.known t ht).2.trans_le hle⟩
  still t ht := by
    rcases (hreplaced.tokens t).1 ht with ht | ⟨ht, -⟩
    · exact hnew.still t ht
    · exact h.still t ht
  parents t ht p hp := by
    rcases (hreplaced.tokens t).1 ht with ht | ⟨ht, hne⟩
    · obtain ⟨hlt, x, hx, hid⟩ := hnew.parents t ht p hp
      exact ⟨hlt, x, (hreplaced.tokens x).2 (.inl hx), hid,
        (hnew.tokens x hx).trans (hnew.tokens t ht).symm⟩
    · obtain ⟨hlt, x, hx, hid, hinst⟩ := h.parents t ht p hp
      exact ⟨hlt, x, (hreplaced.tokens x).2 (.inr ⟨hx, hinst ▸ hne⟩), hid, hinst⟩

/-- A cycle replaces the rows of its instance. -/
theorem Cycle.Done.replaced {c : Cycle} {instanceId nextId : Nat} {d : ProcessDefinition}
    {state : EngineState} {version : Nat} {result : EngineResult} {ops : List StoreOperation}
    (h : c.Done definitions instanceId store d state version result ops store')
    (hsound : store.Sound nextId) (hfirst : nextId ≤ c.options.firstId) :
    store.Replaced result.newState store' := by
  obtain ⟨⟨row, hrow, -, rfl⟩, hcont⟩ := h.continued hsound hfirst
  obtain ⟨more, hmore, rfl⟩ := h.ops_eq
  obtain ⟨hinstances, htokens, -⟩ := stateOps_tables rfl hmore h.saves
  have hid : result.newState.inst.id = row.data.id := hcont.instId
  refine ⟨fun t => ?_, fun r hr => ?_⟩
  · rw [htokens]
    refine mem_savedTokens hcont.resting.tokenIds (fun x hx hinst => ?_) (fun y hy x hx hyx => ?_) t
    · obtain ⟨y, hy, hyx⟩ := hcont.keptId (t := reviveToken x)
        (mem_loaded.2 ⟨x, hx, hinst.trans hid, rfl⟩)
      exact ⟨y, hy, hyx⟩
    · rcases hcont.made y hy with ⟨z, hz, hzy⟩ | hle
      · obtain ⟨v, hv, hvinst, rfl⟩ := mem_loaded.1 hz
        have hvx : v.id = x.id := hzy.trans hyx
        rw [← KeyedMap.eq_of_key_eq hv hx hvx, hid]
        exact hvinst
      · have := (hsound.known x hx).1
        omega
  · rw [hinstances, StoreOperation.writeInstances] at hr
    split at hr
    · rename_i hnone
      exact .inr ⟨hr, fun heq => KeyedMap.get?_eq_none_iff.1 hnone r hr heq⟩
    · rcases KeyedMap.mem_set.1 hr with rfl | ⟨hr, hne⟩
      · exact .inl rfl
      · exact .inr ⟨hr, hne⟩

/-- What the diff of a new instance writes after its state. -/
theorem besides_start {d : ProcessDefinition} {firstTaskId : Nat} {events : List ExecutionEvent}
    {tokens : List Token} {records : List CompensationRecord} :
    Besides ((subscriptionOps [] tokens ++ compensationOps [] records) ++
      buildUserTaskCreationOps firstTaskId events d) := by
  intro op hop
  rcases List.mem_append.1 hop with hop | hop
  · rcases List.mem_append.1 hop with hop | hop
    · exact .inl (subscriptionOps_table op hop)
    · exact .inr (.inl (compensationOps_table op hop))
  · exact .inr (.inr (buildUserTaskCreationOps_table op hop))

theorem Cycle.Done.sound {c : Cycle} {instanceId nextId : Nat} {d : ProcessDefinition}
    {state : EngineState} {version : Nat} {result : EngineResult} {ops : List StoreOperation}
    (h : c.Done definitions instanceId store d state version result ops store')
    (hsound : store.Sound nextId) (hfirst : nextId ≤ c.options.firstId) :
    store'.Sound result.nextId := by
  obtain ⟨⟨row, hrow, -, rfl⟩, hcont⟩ := h.continued hsound hfirst
  have hid : result.newState.inst.id = row.data.id := hcont.instId
  have hlt := hsound.instances row hrow
  have hle := hcont.next
  refine hsound.replaced hcont.resting (hfirst.trans hle) ?_ (h.replaced hsound hfirst)
  omega

/-- The first call of an instance adds its rows. -/
theorem replaced_start {nextId : Nat} {d : ProcessDefinition} {fuel : Nat} {vars : Option Variables}
    {correlationKey businessKey : Option String} {options : ExecuteOptions} {result : EngineResult}
    {firstTaskId : Nat} (hsound : store.Sound nextId) (hfirst : nextId ≤ options.firstId)
    (h : execute d fuel (.startProcess vars correlationKey businessKey) none options = .ok result)
    (hsave : store.executeTransaction (computeStoreOps true none none result.newState ++
      buildUserTaskCreationOps firstTaskId result.events d) = .ok store') :
    store.Replaced result.newState store' := by
  obtain ⟨hrest, hge, hid, hlt⟩ := execute_start_resting h
  rw [computeStoreOps, List.append_assoc] at hsave
  obtain ⟨hinstances, htokens, -⟩ := stateOps_tables rfl besides_start hsave
  refine ⟨fun t => ?_, fun r hr => ?_⟩
  · rw [htokens]
    refine mem_savedTokens hrest.tokenIds (fun x hx hinst => ?_) (fun y hy x hx hyx => ?_) t
    · have := (hsound.known x hx).2
      omega
    · have := (hsound.known x hx).1
      have := hge y hy
      omega
  · rw [hinstances] at hr
    rcases KeyedMap.mem_set.1 hr with rfl | ⟨hr, hne⟩
    · exact .inl rfl
    · exact .inr ⟨hr, hne⟩

theorem sound_start {nextId : Nat} {d : ProcessDefinition} {fuel : Nat} {vars : Option Variables}
    {correlationKey businessKey : Option String} {options : ExecuteOptions} {result : EngineResult}
    {firstTaskId : Nat} (hsound : store.Sound nextId) (hfirst : nextId ≤ options.firstId)
    (h : execute d fuel (.startProcess vars correlationKey businessKey) none options = .ok result)
    (hsave : store.executeTransaction (computeStoreOps true none none result.newState ++
      buildUserTaskCreationOps firstTaskId result.events d) = .ok store') :
    store'.Sound result.nextId := by
  obtain ⟨hrest, -, hid, hlt⟩ := execute_start_resting h
  have hreplaced := replaced_start hsound hfirst h hsave
  exact hsound.replaced hrest (by omega) (by omega) hreplaced

theorem sound_empty : (∅ : Store).Sound 0 where
  instances _ hrow := absurd hrow List.not_mem_nil
  known _ ht := absurd ht List.not_mem_nil
  still _ ht := absurd ht List.not_mem_nil
  parents _ ht := absurd ht List.not_mem_nil

/-- Every store in service is sound. -/
theorem Served.sound {C : Change → Prop} {nextId : Nat} (h : Served definitions C store nextId) :
    store.Sound nextId := by
  induction h with
  | empty => exact sound_empty
  | start served hid h hC hsave ih => exact sound_start ih hid h hsave
  | cycle served hid hdone hC ih => exact hdone.sound ih hid
  | tasks served htable hC hsave ih =>
    obtain ⟨hinstances, htokens, -⟩ := executeTransaction_tables hsave
    rw [foldl_spares writeInstances_of_table htable (by decide)] at hinstances
    rw [foldl_spares writeTokens_of_table htable (by decide)] at htokens
    exact ⟨hinstances ▸ ih.instances, htokens ▸ ih.known, htokens ▸ ih.still, htokens ▸ ih.parents⟩

/-! ## Diagrams in service -/

/-- A process that was just started is in service. -/
theorem served_opened {C : Change → Prop} {d : ProcessDefinition} {nextId : Nat}
    {evaluate : String → Variables → Except EngineError Value}
    (hC : ∀ result, d.opening evaluate = some result → C (.start d result))
    (h : Store.opened d evaluate = some (store, nextId)) : Served definitions C store nextId := by
  unfold Store.opened at h
  obtain ⟨result, hresult, h⟩ := Option.bind_eq_some_iff.1 h
  obtain ⟨new, hnew, h⟩ := Option.bind_eq_some_iff.1 h
  cases h
  exact .start .empty (Nat.zero_le _) (Except.eq_ok_of_toOption hresult) (hC result hresult)
    (Except.eq_ok_of_toOption hnew)

/-- What a cycle loads and executes when it has the store to itself. -/
def Cycle.outcome (definitions : String → Nat → Option ProcessDefinition) (c : Cycle)
    (instanceId : Nat) (store : Store) :
    Option (ProcessDefinition × EngineState × EngineResult) := do
  let (state, _) ← (loadEngineState c.order instanceId).alone store
  let d ← definitions state.inst.definitionId state.inst.definitionVersion
  let result ← (execute d c.fuel c.command (some state) c.options).toOption
  pure (d, state, result)

theorem Cycle.Done.outcome_eq {c : Cycle} {instanceId : Nat} {d : ProcessDefinition}
    {state : EngineState} {version : Nat} {result : EngineResult} {ops : List StoreOperation}
    (h : c.Done definitions instanceId store d state version result ops store') :
    c.outcome definitions instanceId store = some (d, state, result) := by
  simp [Cycle.outcome, h.loads, h.finds, h.executes, Except.toOption]

/-- A cycle that goes through keeps the store in service. -/
theorem Served.perform {C : Change → Prop} {nextId : Nat} (h : Served definitions C store nextId)
    {c : Cycle} {instanceId : Nat} (hid : nextId ≤ c.options.firstId)
    (hC : ∀ d state result, c.outcome definitions instanceId store = some (d, state, result) →
      C (.cycle c store d state result))
    (hperform : (c.program definitions instanceId).perform store = some store') :
    ∃ nextId', Served definitions C store' nextId' := by
  obtain ⟨d, state, version, result, ops, hdone⟩ :=
    (Cycle.perform_iff definitions c instanceId store store').1 hperform
  exact ⟨_, h.cycle hid hdone (hC d state result hdone.outcome_eq)⟩

end NexusWorkflow
