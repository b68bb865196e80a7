import NexusWorkflow.Store.TaskRecords

/-!
# User-task records and waiting tokens

A record should be open or claimed just as long as its token waits for a user.  Requests see to it
where the task stands on the top level and its token waits until the end of the cycle; workers and
timers leave the records as they are, and most requests close none.
-/

namespace NexusWorkflow

open StoreOperation

/-! ## The correspondence -/

/-- The record is that of the token. -/
structure UserTaskRecord.StandsFor (r : UserTaskRecord) (t : Token) : Prop where
  tokenId : r.tokenId = t.id
  instanceId : r.instanceId = t.instanceId
  elementId : r.elementId = t.elementId

/-- In every instance that is not terminal, each token that waits for a user has exactly one
outstanding record, and each outstanding record is that of a token which waits for a user. -/
structure Store.TasksMatch (store : Store) : Prop where
  tokens : ∀ row ∈ store.instances.values, row.data.status.terminal = false →
    ∀ t ∈ store.tokens.values, t.instanceId = row.data.id → t.WaitsForUser →
      ∃ r ∈ store.userTasks.values, r.Outstanding ∧ r.StandsFor t ∧
        ∀ r' ∈ store.userTasks.values, r'.Outstanding → r'.tokenId = t.id → r' = r
  records : ∀ row ∈ store.instances.values, row.data.status.terminal = false →
    ∀ r ∈ store.userTasks.values, r.instanceId = row.data.id → r.Outstanding →
      ∃ t ∈ store.tokens.values, r.StandsFor t ∧ t.WaitsForUser

/-- Moreover every record is that of some token. -/
structure Store.TasksKept (store : Store) : Prop where
  placed : ∀ r ∈ store.userTasks.values, ∃ t ∈ store.tokens.values, r.StandsFor t
  tasksMatch : store.TasksMatch

theorem UserTaskRecord.StandsFor.of_userWait {r : UserTaskRecord} {t t' : Token} (h : r.StandsFor t)
    (ht : t'.userWait = t.userWait) : r.StandsFor t' := by
  simp only [Token.userWait, UserWait.mk.injEq] at ht
  obtain ⟨hinst, hid, helement⟩ := ht
  exact ⟨h.tokenId.trans hid.symm, h.instanceId.trans hinst.symm, h.elementId.trans helement.symm⟩

/-! ## One change -/

variable {store store' : Store} {new : EngineState} {nextId nextId' : Nat}
  {created closed : List UserTaskRecord}

/-- The rows of an instance are replaced, and records are created for new tokens of it and
closed. -/
structure TasksReplaced (store : Store) (nextId : Nat) (new : EngineState)
    (created closed : List UserTaskRecord) (store' : Store) : Prop where
  rows : store.Replaced new store'
  records : ∀ r, r ∈ store'.userTasks.values ↔
    r ∈ created ∨ r ∈ closed ∨ r ∈ store.userTasks.values ∧ ∀ c ∈ closed, c.id ≠ r.id
  fresh : ∀ r ∈ created, r.status = .unclaimed ∧ nextId ≤ r.tokenId ∧ ∃ t ∈ new.tokens,
    r.StandsFor t
  once : (created.map (·.tokenId)).Nodup
  stale : ∀ c ∈ closed, ¬ c.Outstanding ∧ c.instanceId = new.inst.id ∧
    ∃ r ∈ store.userTasks.values, r.Outstanding ∧ r.id = c.id ∧ r.tokenId = c.tokenId ∧
      r.instanceId = c.instanceId ∧ r.elementId = c.elementId
  kept : ∀ t ∈ store.tokens.values, t.instanceId = new.inst.id →
    ∃ t' ∈ new.tokens, t'.userWait = t.userWait

/-- The records follow what the tokens of the instance do. -/
structure TasksFollow (store : Store) (new : EngineState) (created closed : List UserTaskRecord) :
    Prop where
  /-- The instance was not terminal before. -/
  going : ∀ t ∈ store.tokens.values, t.instanceId = new.inst.id →
    ∃ row ∈ store.instances.values, row.data.id = new.inst.id ∧ row.data.status.terminal = false
  begins : ∀ t ∈ new.tokens, t.WaitsForUser →
    (∃ x ∈ store.tokens.values, x.instanceId = new.inst.id ∧ x.id = t.id ∧ x.WaitsForUser) ∨
      ∃ r ∈ created, r.tokenId = t.id
  waits : ∀ r ∈ created, ∃ t ∈ new.tokens, r.StandsFor t ∧ t.WaitsForUser
  ceases : ∀ x ∈ store.tokens.values, x.instanceId = new.inst.id → x.WaitsForUser →
    (∃ t ∈ new.tokens, t.id = x.id ∧ t.WaitsForUser) ∨ ∃ c ∈ closed, c.tokenId = x.id
  closedCease : ∀ c ∈ closed, ∀ t ∈ new.tokens, t.id = c.tokenId → ¬ t.WaitsForUser

namespace TasksReplaced

variable (h : TasksReplaced store nextId new created closed store')

include h

theorem mem_new {t : Token} (ht : t ∈ new.tokens) : t ∈ store'.tokens.values :=
  (h.rows.tokens t).2 (.inl ht)

/-- A new token is told by its id. -/
theorem eq_of_id {t t' : Token} (ht : t ∈ new.tokens) (ht' : t' ∈ new.tokens) (hid : t.id = t'.id) :
    t = t' :=
  KeyedMap.eq_of_key_eq (h.mem_new ht) (h.mem_new ht') hid

theorem placed (hplaced : ∀ r ∈ store.userTasks.values, ∃ t ∈ store.tokens.values, r.StandsFor t)
    {r : UserTaskRecord} (hr : r ∈ store'.userTasks.values) :
    ∃ t ∈ store'.tokens.values, r.StandsFor t := by
  have hcarry : ∀ t ∈ store.tokens.values, r.StandsFor t →
      ∃ t ∈ store'.tokens.values, r.StandsFor t := by
    intro t ht hstands
    by_cases hid : t.instanceId = new.inst.id
    · obtain ⟨t', ht', heq⟩ := h.kept t ht hid
      exact ⟨t', h.mem_new ht', hstands.of_userWait heq⟩
    · exact ⟨t, (h.rows.tokens t).2 (.inr ⟨ht, hid⟩), hstands⟩
  rcases (h.records r).1 hr with hr | hr | ⟨hr, -⟩
  · obtain ⟨-, -, t, ht, hstands⟩ := h.fresh r hr
    exact ⟨t, h.mem_new ht, hstands⟩
  · obtain ⟨-, -, x, hx, -, -, htoken, hinst, helement⟩ := h.stale r hr
    obtain ⟨t, ht, hstands⟩ := hplaced x hx
    exact hcarry t ht ⟨htoken.symm.trans hstands.tokenId, hinst.symm.trans hstands.instanceId,
      helement.symm.trans hstands.elementId⟩
  · obtain ⟨t, ht, hstands⟩ := hplaced r hr
    exact hcarry t ht hstands

/-- A record for a token that was there before is an old one. -/
theorem old_of_tokenId {r : UserTaskRecord} (hr : r ∈ store'.userTasks.values)
    (hout : r.Outstanding) (hlt : r.tokenId < nextId) :
    r ∈ store.userTasks.values ∧ ∀ c ∈ closed, c.id ≠ r.id := by
  rcases (h.records r).1 hr with hr | hr | hr
  · have := (h.fresh r hr).2.1
    omega
  · exact absurd hout (h.stale r hr).1
  · exact hr

/-- A closed record was an outstanding one before. -/
theorem closed_of_id {c r : UserTaskRecord} (hc : c ∈ closed) (hr : r ∈ store.userTasks.values)
    (hid : c.id = r.id) : r.tokenId = c.tokenId ∧ r.instanceId = new.inst.id := by
  obtain ⟨-, hinst, x, hx, -, hxid, htoken, hxinst, -⟩ := h.stale c hc
  obtain rfl : x = r := KeyedMap.eq_of_key_eq hx hr (hxid.trans hid)
  exact ⟨htoken, hxinst.trans hinst⟩

/-- The tokens of the instance itself. -/
theorem match_new (hsound : store.Sound nextId) (hkept : store.TasksKept)
    (hfollow : TasksFollow store new created closed) {t : Token} (ht : t ∈ new.tokens)
    (hw : t.WaitsForUser) :
    ∃ r ∈ store'.userTasks.values, r.Outstanding ∧ r.StandsFor t ∧
      ∀ r' ∈ store'.userTasks.values, r'.Outstanding → r'.tokenId = t.id → r' = r := by
  rcases hfollow.begins t ht hw with ⟨x, hx, hxinst, hid, hxw⟩ | ⟨r, hr, hid⟩
  · -- it has waited before, and its record is still there
    obtain ⟨row, hrow, hrowId, hgoing⟩ := hfollow.going x hx hxinst
    obtain ⟨r, hr, hout, hstands, honly⟩ :=
      hkept.tasksMatch.tokens row hrow hgoing x hx (hxinst.trans hrowId.symm) hxw
    have hkeep : ∀ c ∈ closed, c.id ≠ r.id := by
      intro c hc hcr
      have htoken := (h.closed_of_id hc hr hcr).1
      exact hfollow.closedCease c hc t ht (hid.symm.trans (hstands.tokenId.symm.trans htoken)) hw
    obtain ⟨t', ht', heq⟩ := h.kept x hx hxinst
    have hstands' := hstands.of_userWait heq
    have htt' : t' = t := h.eq_of_id ht' ht
        (hstands'.tokenId.symm.trans (hstands.tokenId.trans hid))
    refine ⟨r, (h.records r).2 (.inr (.inr ⟨hr, hkeep⟩)), hout, htt' ▸ hstands', ?_⟩
    intro r' hr' hout' hid'
    have hlt := (hsound.known x hx).1
    have hold := h.old_of_tokenId hr' hout' (by omega)
    exact honly r' hold.1 hout' (hid'.trans hid.symm)
  · obtain ⟨hstatus, hge, t', ht', hstands⟩ := h.fresh r hr
    have htt' : t' = t := h.eq_of_id ht' ht (hstands.tokenId.symm.trans hid)
    refine ⟨r, (h.records r).2 (.inl hr), .inl hstatus, htt' ▸ hstands, ?_⟩
    intro r' hr' hout' hid'
    rcases (h.records r').1 hr' with hr' | hr' | ⟨hr', -⟩
    · exact List.inj_on_of_nodup_map h.once hr' hr (hid'.trans hid.symm)
    · exact absurd hout' (h.stale r' hr').1
    · obtain ⟨x, hx, hxstands⟩ := hkept.placed r' hr'
      have hlt := (hsound.known x hx).1
      have heq := hxstands.tokenId
      omega

/-- The records of the instance itself. -/
theorem match_record (hkept : store.TasksKept) (hfollow : TasksFollow store new created closed)
    {r : UserTaskRecord} (hr : r ∈ store'.userTasks.values) (hinst : r.instanceId = new.inst.id)
    (hout : r.Outstanding) : ∃ t ∈ store'.tokens.values, r.StandsFor t ∧ t.WaitsForUser := by
  rcases (h.records r).1 hr with hr | hr | ⟨hr, hnot⟩
  · obtain ⟨t, ht, hstands, hw⟩ := hfollow.waits r hr
    exact ⟨t, h.mem_new ht, hstands, hw⟩
  · exact absurd hout (h.stale r hr).1
  · obtain ⟨x, hx, hplace⟩ := hkept.placed r hr
    have hxinst : x.instanceId = new.inst.id := hplace.instanceId.symm.trans hinst
    obtain ⟨row, hrow, hrowId, hgoing⟩ := hfollow.going x hx hxinst
    obtain ⟨x', hx', hstands, hxw⟩ :=
      hkept.tasksMatch.records row hrow hgoing r hr (hinst.trans hrowId.symm) hout
    obtain rfl : x' = x :=
      KeyedMap.eq_of_key_eq hx' hx (hstands.tokenId.symm.trans hplace.tokenId)
    rcases hfollow.ceases x' hx hxinst hxw with ⟨t, ht, hid, hw⟩ | ⟨c, hc, hid⟩
    · obtain ⟨t', ht', heq⟩ := h.kept x' hx hxinst
      have hstands' := hstands.of_userWait heq
      have htt' : t' = t :=
        h.eq_of_id ht' ht (hstands'.tokenId.symm.trans (hstands.tokenId.trans hid.symm))
      exact ⟨t, h.mem_new ht, htt' ▸ hstands', hw⟩
    · -- the record that was closed is the only one of the token
      obtain ⟨-, -, r₀, hr₀, hout₀, hcid, htoken, -⟩ := h.stale c hc
      obtain ⟨r₁, -, -, -, honly⟩ :=
        hkept.tasksMatch.tokens row hrow hgoing x' hx (hxinst.trans hrowId.symm) hxw
      have heq : r₀ = r :=
        (honly r₀ hr₀ hout₀ (htoken.trans hid)).trans (honly r hr hout hstands.tokenId).symm
      exact absurd (hcid.symm.trans (congrArg _ heq)) (hnot c hc)

/-- The records of the other instances stay. -/
theorem old_of_instance {r : UserTaskRecord} (hrest : new.Resting nextId')
    (hne : r.instanceId ≠ new.inst.id) :
    r ∈ store'.userTasks.values ∧ r.Outstanding ↔ r ∈ store.userTasks.values ∧ r.Outstanding := by
  constructor
  · rintro ⟨hr, hout⟩
    rcases (h.records r).1 hr with hr | hr | ⟨hr, -⟩
    · obtain ⟨-, -, t, ht, hstands⟩ := h.fresh r hr
      exact absurd (hstands.instanceId.trans (hrest.tokens t ht)) hne
    · exact absurd hout (h.stale r hr).1
    · exact ⟨hr, hout⟩
  · rintro ⟨hr, hout⟩
    refine ⟨(h.records r).2 (.inr (.inr ⟨hr, fun c hc hid => ?_⟩)), hout⟩
    exact hne (h.closed_of_id hc hr hid).2

/-- Records that follow their tokens stay in step with them. -/
theorem tasksKept (hsound : store.Sound nextId) (hrest : new.Resting nextId')
    (hkept : store.TasksKept)
    (hfollow : new.inst.status.terminal = false → TasksFollow store new created closed) :
    store'.TasksKept := by
  refine ⟨fun r hr => h.placed hkept.placed hr, fun row hrow hgoing t ht hinst hw => ?_,
    fun row hrow hgoing r hr hinst hout => ?_⟩
  · rcases h.rows.instances row hrow with hnew | ⟨hrow, hne⟩
    · rw [hnew] at hgoing hinst
      rcases (h.rows.tokens t).1 ht with ht | ⟨-, hne⟩
      · exact h.match_new hsound hkept (hfollow hgoing) ht hw
      · exact absurd hinst hne
    · have hne : t.instanceId ≠ new.inst.id := hinst ▸ hne
      have ht : t ∈ store.tokens.values := by
        rcases (h.rows.tokens t).1 ht with ht | ⟨ht, -⟩
        · exact absurd (hrest.tokens t ht) hne
        · exact ht
      obtain ⟨r, hr, hout, hstands, honly⟩ := hkept.tasksMatch.tokens row hrow hgoing t ht hinst hw
      have hrne : r.instanceId ≠ new.inst.id := hstands.instanceId ▸ hne
      refine ⟨r, ((h.old_of_instance hrest hrne).2 ⟨hr, hout⟩).1, hout, hstands, ?_⟩
      intro r' hr' hout' hid'
      have hlt := (hsound.known t ht).1
      exact honly r' (h.old_of_tokenId hr' hout' (by omega)).1 hout' hid'
  · rcases h.rows.instances row hrow with hnew | ⟨hrow, hne⟩
    · rw [hnew] at hgoing hinst
      exact h.match_record hkept (hfollow hgoing) hr hinst hout
    · have hne : r.instanceId ≠ new.inst.id := hinst ▸ hne
      have hr := ((h.old_of_instance hrest hne).1 ⟨hr, hout⟩).1
      obtain ⟨t, ht, hstands, hw⟩ := hkept.tasksMatch.records row hrow hgoing r hr hinst hout
      exact ⟨t, (h.rows.tokens t).2 (.inr ⟨ht, hstands.instanceId ▸ hne⟩), hstands, hw⟩

end TasksReplaced

/-! ## What happens to a store -/

/-- A token of this id waits for a user. -/
def EngineState.HasWaiter (state : EngineState) (id : Nat) : Prop :=
  ∃ t ∈ state.tokens, t.id = id ∧ t.WaitsForUser

/-- Of the tokens that events report as waiting for a user, those get a record which wait until the
end. -/
def Reported (d : ProcessDefinition) (result : EngineResult) : Prop :=
  ∀ event ∈ result.events, ∀ w, event.userWait = some w →
    ((event.startedUserTask d).isSome = true ↔
      ∃ t ∈ result.newState.tokens, t.userWait = w ∧ t.WaitsForUser)

theorem Reported.begins {d : ProcessDefinition} {result : EngineResult} {old : List Token}
    {n firstTaskId : Nat} (h : Reported d result) (hnoted : Noted n old result) {t : Token}
    (ht : t ∈ result.newState.tokens) (hw : t.WaitsForUser) :
    (∃ x ∈ old, x.id = t.id ∧ x.WaitsForUser) ∨
      ∃ r ∈ startedUserTasks firstTaskId result.events d, r.tokenId = t.id := by
  rcases hnoted.noted t ht hw with hmem | hold
  · obtain ⟨event, hevent, hwait⟩ := List.mem_filterMap.1 hmem
    have hfound := (h event hevent _ hwait).2 ⟨t, ht, rfl, hw⟩
    obtain ⟨r, hr, -, hid, -, -⟩ := exists_startedUserTask hevent hwait hfound
    exact .inr ⟨r, hr, hid⟩
  · exact .inl hold

theorem Reported.waits {d : ProcessDefinition} {result : EngineResult} {firstTaskId : Nat}
    (h : Reported d result) {r : UserTaskRecord}
    (hr : r ∈ startedUserTasks firstTaskId result.events d) :
    ∃ t ∈ result.newState.tokens, r.StandsFor t ∧ t.WaitsForUser := by
  obtain ⟨event, hevent, hfound, hwait, -⟩ := mem_startedUserTasks hr
  obtain ⟨t, ht, heq, hw⟩ := (h event hevent _ hwait).1 hfound
  simp only [Token.userWait, UserWait.mk.injEq] at heq
  obtain ⟨hinst, hid, helement⟩ := heq
  exact ⟨t, ht, ⟨hid.symm, hinst.symm, helement.symm⟩, hw⟩

namespace Change

/-- The change is one that the routes, the workers and the timers make. -/
def Routed : Change → Prop
  | start _ _ => True
  | cycle c store _ state _ => c.Routed store state
  | tasks store ops => ∃ task ∈ store.userTasks.values,
      (∃ claimedBy now, ops = [.updateUserTask (task.claimed claimedBy now)]) ∨
        ops = [.updateUserTask task.released]

/-- The change keeps the records in step with the tokens, unless it leaves the instance terminal. -/
def KeepsTasks : Change → Prop
  | start d result => result.newState.inst.status.terminal = false → Reported d result
  | cycle c store d state result => result.newState.inst.status.terminal = false →
      state.inst.status.terminal = false ∧
      match c.caller with
      | .request closes => Reported d result ∧ ∀ t ∈ state.tokens, t.WaitsForUser →
          result.newState.HasWaiter t.id ∨ ∃ r ∈ (closes state).alone store, r.tokenId = t.id
      | .worker | .timer =>
          (∀ t ∈ result.newState.tokens, t.WaitsForUser → state.HasWaiter t.id) ∧
          ∀ t ∈ state.tokens, t.WaitsForUser → result.newState.HasWaiter t.id
  | tasks store ops => ∀ task, .updateUserTask task ∈ ops → ∀ r ∈ store.userTasks.values,
      r.id = task.id → ∀ row ∈ store.instances.values, row.data.id = r.instanceId →
        row.data.status.terminal = false → r.Outstanding

end Change

/-! ## Cycles -/

variable {definitions : String → Nat → Option ProcessDefinition} {c : Cycle} {d : ProcessDefinition}
  {state : EngineState} {result : EngineResult} {ops : List StoreOperation}
  {instanceId version : Nat}

/-- The records that are closed were outstanding ones of the instance. -/
structure ClosesOwn (store : Store) (state : EngineState) (closed : List UserTaskRecord) :
    Prop where
  ids : (closed.map (·.id)).Nodup
  stale : ∀ c ∈ closed, ¬ c.Outstanding ∧ c.instanceId = state.inst.id ∧
    ∃ r ∈ store.userTasks.values, r.Outstanding ∧ r.id = c.id ∧ r.tokenId = c.tokenId ∧
      r.instanceId = c.instanceId ∧ r.elementId = c.elementId

theorem closesOwn_completed {task : UserTaskRecord} {now : Time}
    (htask : task ∈ store.userTasks.values) (hout : task.Outstanding)
    (hinst : task.instanceId = state.inst.id) : ClosesOwn store state [task.completed now] where
  ids := List.nodup_singleton _
  stale c hc := by
    rw [List.mem_singleton.1 hc]
    refine ⟨fun h => ?_, hinst, task, htask, hout, rfl, rfl, rfl, rfl⟩
    rcases h with h | h <;> cases h

theorem mem_queryUserTasks {order : List UserTaskRecord → List UserTaskRecord}
    (horder : ∀ rows, (order rows).Perm rows) {status : Option UserTaskStatus} {id : Nat}
    {r : UserTaskRecord} (hr : r ∈ store.queryUserTasks order id status) :
    r ∈ store.userTasks.values ∧ r.instanceId = id ∧ status.all (r.status = ·) := by
  have hr := List.mem_filter.1 ((horder _).subset (List.mem_of_mem_take hr))
  exact ⟨hr.1, by simpa using hr.2⟩

theorem nodup_queryUserTasks {order : List UserTaskRecord → List UserTaskRecord}
    (horder : ∀ rows, (order rows).Perm rows) (status : Option UserTaskStatus) (id : Nat) :
    ((store.queryUserTasks order id status).map (·.id)).Nodup := by
  have hall : ((order (store.userTasks.values.filter fun task =>
      task.instanceId = id ∧ status.all (task.status = ·))).map (·.id)).Nodup := by
    rw [((horder _).map _).nodup_iff]
    exact store.userTasks.nodup.sublist (List.filter_sublist.map _)
  exact hall.sublist ((List.take_sublist _ _).map _)

/-- What the routes close, and with which command. -/
theorem Cycle.Routed.closesOwn (h : c.Routed store state) :
    ClosesOwn store state (c.closed store state) ∧
      (c.command = .cancelInstance ∨ ∀ r ∈ c.closed store state, ∃ completedBy vars,
        c.command = .completeUserTask r.tokenId completedBy vars) := by
  have hnone : ClosesOwn store state [] := ⟨List.nodup_nil, nofun⟩
  unfold Cycle.closed
  cases h with
  | command h =>
    rw [h]
    exact ⟨hnone, .inr nofun⟩
  | @completeTask task htask hopen hinst completedBy vars hcommand now h =>
    rw [h]
    have hout : task.Outstanding := by
      unfold UserTaskRecord.Outstanding
      cases hstatus : task.status <;> simp_all
    refine ⟨closesOwn_completed htask hout hinst.symm, .inr fun r hr => ?_⟩
    rw [List.mem_singleton.1 hr]
    exact ⟨completedBy, vars, hcommand⟩
  | @forceTask tokenId order horder hfits completedBy vars hcommand now h =>
    rw [h]
    simp only [closesForced, Reading.alone_ask]
    cases hfound : (store.queryUserTasks order state.inst.id none).find? fun task =>
        task.tokenId = tokenId ∧ task.Outstanding with
    | none => exact ⟨hnone, .inr nofun⟩
    | some task =>
      have hmatch := List.find?_some hfound
      obtain ⟨htask, hinst, -⟩ := mem_queryUserTasks horder (List.mem_of_find?_eq_some hfound)
      simp only [decide_eq_true_eq] at hmatch
      refine ⟨closesOwn_completed htask hmatch.2 hinst, .inr fun r hr => ?_⟩
      rw [List.mem_singleton.1 hr]
      refine ⟨completedBy, vars, ?_⟩
      rw [hcommand, ← hmatch.1]
      rfl
  | @delete order horder _ hcommand now h =>
    rw [h]
    refine ⟨⟨?_, fun r hr => ?_⟩, .inl hcommand⟩
    · have hids : ((store.queryUserTasks order state.inst.id (some .unclaimed)).map
          (·.cancelled now)).map (·.id) =
          (store.queryUserTasks order state.inst.id (some .unclaimed)).map (·.id) := by
        rw [List.map_map]
        rfl
      show (((store.queryUserTasks order state.inst.id (some .unclaimed)).map
        (·.cancelled now)).map (·.id)).Nodup
      rw [hids]
      exact nodup_queryUserTasks horder _ _
    · obtain ⟨task, htask, rfl⟩ := List.mem_map.1 hr
      obtain ⟨hmem, hinst, hstatus⟩ := mem_queryUserTasks horder htask
      refine ⟨fun h => ?_, hinst, task, hmem, .inl (by simpa using hstatus), rfl, rfl, rfl, rfl⟩
      rcases h with h | h <;> cases h
  | worker _ h | timer _ h =>
    rw [h]
    exact ⟨hnone, .inr nofun⟩

/-- A deleted instance is terminal. -/
theorem execute_cancelInstance {fuel : Nat} {options : ExecuteOptions}
    (hrest : state.Resting nextId) (hn : nextId ≤ options.firstId)
    (h : execute d fuel .cancelInstance (some state) options = .ok result) :
    result.newState.inst.status = .terminated := by
  obtain ⟨ctx, inst, ⟨-, hstatus⟩, -, -, hinst, hstate, -, -⟩ :=
    execute_keeps (I := fun ctx => ctx.pool.pending = [] ∧ ctx.pool.status = some .terminated)
      (C := fun _ => True) (hrest.coherent hn) h (fun _ _ => trivial)
      (fun after _ hok => by
        have hcommanded := handleCommand_commanded (hrest.coherent hn).numbered hok
        cases hcommanded with
        | deed hdeed hmade =>
          cases hdeed
          obtain ⟨news, m, hnews, -, hpool⟩ := hmade
          cases hnews
          rw [hpool]
          exact ⟨rfl, rfl⟩)
      (fun before t after _ _ hI _ => absurd hI.1 (List.cons_ne_nil _ _))
  have hstatus : ctx.inst.map (·.status) = some .terminated := hstatus
  rw [hinst] at hstatus
  rw [hstate]
  exact Option.some.inj hstatus

/-- The operations of a cycle on the user-task records. -/
theorem Cycle.Done.userTasks
    (h : c.Done definitions instanceId store d state version result ops store') :
    (∀ r ∈ c.created d result, createUserTask r ∈ ops) ∧
      store'.userTasks = ((c.created d result).map createUserTask ++
        (c.closed store state).map updateUserTask).foldl writeUserTasks store.userTasks := by
  have hwrites := h.writes
  have hsaves := h.saves
  unfold Cycle.created Cycle.closed
  cases hcaller : c.caller with
  | request closes =>
    rw [hcaller] at hwrites
    simp only [Caller.storeOps, Reading.alone_bind, Reading.alone_pure, computeStoreOps,
      buildUserTaskCreationOps_eq, List.append_assoc, Bool.false_eq_true, if_false] at hwrites
    refine ⟨fun r hr => ?_, ?_⟩
    · rw [← hwrites]
      refine List.mem_append_right _ (List.mem_append_right _ (List.mem_append_right _ ?_))
      exact List.mem_append_left _ (List.mem_map_of_mem hr)
    · rw [← hwrites] at hsaves
      obtain ⟨-, -, -, -, htasks, -⟩ := stateOps_tables rfl
        (besides_request createUserTask_table updateUserTask_table) hsaves
      rw [List.foldl_append, List.foldl_append,
        foldl_spares writeUserTasks_of_table subscriptionOps_table (by decide),
        foldl_spares writeUserTasks_of_table compensationOps_table (by decide)] at htasks
      exact htasks
  | worker | timer =>
    refine ⟨fun r hr => absurd hr List.not_mem_nil, ?_⟩
    rw [hcaller] at hwrites
    simp only [Caller.storeOps, Reading.alone_pure, TaskWorker.buildStoreOps,
      TimerCoordinator.buildStoreOps] at hwrites
    rw [← hwrites, ← List.append_nil (stateOps _ _ _)] at hsaves
    obtain ⟨-, -, -, -, htasks, -⟩ := stateOps_tables rfl (by simp [Besides]) hsaves
    exact htasks

/-- What a cycle of the service does to the records of its instance. -/
theorem Cycle.Done.tasksReplaced
    (h : c.Done definitions instanceId store d state version result ops store')
    (hsound : store.Sound nextId) (hfirst : nextId ≤ c.options.firstId)
    (hroute : c.Routed store state) :
    TasksReplaced store nextId result.newState (c.created d result)
      (c.closed store state) store' := by
  have hrows := h.replaced hsound hfirst
  obtain ⟨⟨row, hrow, -, rfl⟩, hcont⟩ := h.continued hsound hfirst
  have hrest := hsound.loaded c.order (reviveInstance row.data)
  have hnoted := execute_noted c.goesOn hrest hfirst h.executes
  obtain ⟨hcreates, htable⟩ := h.userTasks
  obtain ⟨hcloses, -⟩ := hroute.closesOwn
  refine ⟨hrows, fun r => ?_, fun r hr => ?_, ?_, fun r hr => ?_, fun t ht hid => ?_⟩
  · rw [htable]
    refine mem_userTaskOps ?_ (fun r hr => executeTransaction_created (hcreates r hr) h.saves)
      hcloses.ids (fun r hr => ?_) r
    · unfold Cycle.created
      split
      · exact nodup_startedUserTasks _ _
      · exact List.nodup_nil
      · exact List.nodup_nil
    · obtain ⟨-, -, x, hx, -, hid, -⟩ := hcloses.stale r hr
      rw [← hid]
      exact Option.isSome_iff_exists.2 ⟨x, KeyedMap.get?_of_mem hx⟩
  · unfold Cycle.created at hr
    split at hr
    · obtain ⟨event, hevent, -, hwait, hstatus⟩ := mem_startedUserTasks hr
      obtain ⟨hge, t, ht, heq⟩ := hnoted.known _ (List.mem_filterMap.2 ⟨event, hevent, hwait⟩)
      simp only [Token.userWait, UserWait.mk.injEq] at heq
      obtain ⟨hinst, hid, helement⟩ := heq
      exact ⟨hstatus, hfirst.trans hge, t, ht, hid.symm, hinst.symm, helement.symm⟩
    · cases hr
    · cases hr
  · unfold Cycle.created
    split
    · exact once_startedUserTasks hnoted.once
    · exact List.nodup_nil
    · exact List.nodup_nil
  · obtain ⟨hout, hinst, hx⟩ := hcloses.stale r hr
    exact ⟨hout, hinst.trans hcont.instId.symm, hx⟩
  · obtain ⟨t', ht', hbare⟩ := hcont.kept (reviveToken t)
      (mem_loaded.2 ⟨t, ht, hid.trans hcont.instId, rfl⟩)
    have heq := Token.userWait_of_bare hbare
    exact ⟨t', ht', heq⟩

/-- Records of a cycle that keeps in step follow their tokens. -/
theorem Cycle.Done.tasksFollow
    (h : c.Done definitions instanceId store d state version result ops store')
    (hsound : store.Sound nextId) (hfirst : nextId ≤ c.options.firstId)
    (hroute : c.Routed store state) (hkeeps : (Change.cycle c store d state result).KeepsTasks)
    (hgoing : result.newState.inst.status.terminal = false) :
    TasksFollow store result.newState (c.created d result) (c.closed store state) := by
  obtain ⟨hopen, hkeeps⟩ := hkeeps hgoing
  obtain ⟨⟨row, hrow, hrowId, rfl⟩, hcont⟩ := h.continued hsound hfirst
  have hrest := hsound.loaded c.order (reviveInstance row.data)
  have hnoted := execute_noted c.goesOn hrest hfirst h.executes
  have hid : result.newState.inst.id = row.data.id := hcont.instId
  -- the tokens that were loaded are the rows of the instance
  have hrows : ∀ {id}, (store.loaded c.order (reviveInstance row.data)).HasWaiter id →
      ∃ x ∈ store.tokens.values, x.instanceId = result.newState.inst.id ∧ x.id = id ∧
        x.WaitsForUser := by
    rintro id ⟨t, ht, rfl, hw⟩
    obtain ⟨x, hx, hxinst, rfl⟩ := mem_loaded.1 ht
    exact ⟨x, hx, hxinst.trans hid.symm, rfl, hw⟩
  have hloaded : ∀ {x}, x ∈ store.tokens.values → x.instanceId = result.newState.inst.id →
      reviveToken x ∈ (store.loaded c.order (reviveInstance row.data)).tokens :=
    fun hx hxinst => mem_loaded.2 ⟨_, hx, hxinst.trans hid, rfl⟩
  have hcloses := hroute.closesOwn.2
  unfold Cycle.created
  unfold Cycle.closed at hcloses ⊢
  cases hcaller : c.caller with
  | request closes =>
    rw [hcaller] at hcloses
    obtain ⟨hreported, hceases⟩ : Reported d result ∧ _ := by
      simpa only [hcaller] using hkeeps
    refine ⟨fun t ht hinst => ⟨row, hrow, hid.symm, hopen⟩, fun t ht hw => ?_,
      fun r hr => hreported.waits hr, fun x hx hinst hw =>
        hceases (reviveToken x) (hloaded hx hinst) hw,
      fun r hr t ht hid' hw => ?_⟩
    · exact (hreported.begins hnoted ht hw).imp_left hrows
    · rcases hcloses with hcancel | hcomplete
      · have hexec := h.executes
        rw [hcancel] at hexec
        rw [execute_cancelInstance hrest hfirst hexec] at hgoing
        cases hgoing
      · obtain ⟨completedBy, vars, hcommand⟩ := hcomplete r hr
        have hexec := h.executes
        rw [hcommand] at hexec
        exact execute_ceased hrest hfirst hexec t ht hid' hw.1
  | worker | timer =>
    obtain ⟨hbegins, hceases⟩ := by
      simpa only [hcaller] using hkeeps
    exact ⟨fun t ht hinst => ⟨row, hrow, hid.symm, hopen⟩,
      fun t ht hw => .inl (hrows (hbegins t ht hw)), nofun,
      fun x hx hinst hw => .inl (hceases (reviveToken x) (hloaded hx hinst) hw), nofun⟩

/-! ## Starts -/

theorem tasksReplaced_start {fuel : Nat} {vars : Option Variables}
    {correlationKey businessKey : Option String} {options : ExecuteOptions} {firstTaskId : Nat}
    (hsound : store.Sound nextId) (hfirst : nextId ≤ options.firstId)
    (h : execute d fuel (.startProcess vars correlationKey businessKey) none options = .ok result)
    (hsave : store.executeTransaction (computeStoreOps true none none result.newState ++
      buildUserTaskCreationOps firstTaskId result.events d) = .ok store') :
    TasksReplaced store nextId result.newState (startedUserTasks firstTaskId result.events d) []
      store' := by
  obtain ⟨-, -, hid, -⟩ := execute_start_resting h
  have hnoted := execute_start_noted h
  have hrows := replaced_start hsound hfirst h hsave
  have hcreates : ∀ r ∈ startedUserTasks firstTaskId result.events d,
      store.userTasks.get? r.id = none := by
    intro r hr
    refine executeTransaction_created ?_ hsave
    rw [buildUserTaskCreationOps_eq]
    exact List.mem_append_right _ (List.mem_map_of_mem hr)
  rw [computeStoreOps, List.append_assoc] at hsave
  obtain ⟨-, -, -, -, htable, -⟩ := stateOps_tables rfl besides_start hsave
  rw [List.foldl_append, List.foldl_append,
    foldl_spares writeUserTasks_of_table subscriptionOps_table (by decide),
    foldl_spares writeUserTasks_of_table compensationOps_table (by decide),
    buildUserTaskCreationOps_eq] at htable
  have hnone : ∀ r : UserTaskRecord, r ∉ [] := fun _ => List.not_mem_nil
  refine ⟨hrows, fun r => ?_, fun r hr => ?_, once_startedUserTasks hnoted.once,
    fun r hr => absurd hr (hnone r), fun t ht hinst => ?_⟩
  · rw [htable, ← List.append_nil (List.map createUserTask _)]
    have hclosed : (([] : List UserTaskRecord).map (·.id)).Nodup := List.nodup_nil
    exact mem_userTaskOps (nodup_startedUserTasks _ _) hcreates hclosed
      (fun r hr => absurd hr (hnone r)) r
  · obtain ⟨event, hevent, -, hwait, hstatus⟩ := mem_startedUserTasks hr
    obtain ⟨hge, t, ht, heq⟩ := hnoted.known _ (List.mem_filterMap.2 ⟨event, hevent, hwait⟩)
    simp only [Token.userWait, UserWait.mk.injEq] at heq
    obtain ⟨hinst, hid, helement⟩ := heq
    exact ⟨hstatus, hfirst.trans hge, t, ht, hid.symm, hinst.symm, helement.symm⟩
  · have := (hsound.known t ht).2
    omega

theorem tasksFollow_start {fuel : Nat} {vars : Option Variables}
    {correlationKey businessKey : Option String} {options : ExecuteOptions} {firstTaskId : Nat}
    (hsound : store.Sound nextId) (hfirst : nextId ≤ options.firstId)
    (h : execute d fuel (.startProcess vars correlationKey businessKey) none options = .ok result)
    (hreported : Reported d result) :
    TasksFollow store result.newState (startedUserTasks firstTaskId result.events d) [] := by
  obtain ⟨-, -, hid, -⟩ := execute_start_resting h
  have hnone : ∀ t ∈ store.tokens.values, t.instanceId ≠ result.newState.inst.id := by
    intro t ht hinst
    have := (hsound.known t ht).2
    omega
  refine ⟨fun t ht hinst => absurd hinst (hnone t ht), fun t ht hw => ?_,
    fun r hr => hreported.waits hr,
    fun t ht hinst => absurd hinst (hnone t ht), nofun⟩
  exact (hreported.begins (execute_start_noted h) ht hw).imp_left fun ⟨x, hx, _⟩ =>
    absurd hx List.not_mem_nil

/-! ## Claims and releases -/

/-- A record that is written anew stays that of its token, and stays outstanding where it
matters. -/
theorem Store.TasksKept.rewrite {task new : UserTaskRecord} (hkept : store.TasksKept)
    (htask : task ∈ store.userTasks.values) (hnew : new.Outstanding) (hid : new.id = task.id)
    (hsame : ∀ t, new.StandsFor t ↔ task.StandsFor t)
    (hout : ∀ row ∈ store.instances.values, row.data.id = task.instanceId →
      row.data.status.terminal = false → task.Outstanding)
    (hinstances : store'.instances = store.instances) (htokens : store'.tokens = store.tokens)
    (hrecords : ∀ r, r ∈ store'.userTasks.values ↔
      r = new ∨ r ∈ store.userTasks.values ∧ new.id ≠ r.id) : store'.TasksKept := by
  obtain ⟨x, hx, hxtask⟩ := hkept.placed task htask
  have hxnew := (hsame x).2 hxtask
  refine ⟨fun r hr => ?_, fun row hrow hgoing t ht hinst hw => ?_,
    fun row hrow hgoing r hr hinst ho => ?_⟩
  · rw [htokens]
    rcases (hrecords r).1 hr with rfl | ⟨hr, -⟩
    · exact ⟨x, hx, hxnew⟩
    · exact hkept.placed r hr
  · rw [hinstances] at hrow
    rw [htokens] at ht
    obtain ⟨r, hr, ho, hstands, honly⟩ := hkept.tasksMatch.tokens row hrow hgoing t ht hinst hw
    by_cases hrt : r.id = task.id
    · obtain rfl : r = task := KeyedMap.eq_of_key_eq hr htask hrt
      refine ⟨new, (hrecords new).2 (.inl rfl), hnew, (hsame t).2 hstands, fun r' hr' ho' hid' =>
        ?_⟩
      rcases (hrecords r').1 hr' with rfl | ⟨hr', hne⟩
      · rfl
      · exact absurd (hid.trans (congrArg _ (honly r' hr' ho' hid')).symm) hne
    · refine ⟨r, (hrecords r).2 (.inr ⟨hr, fun h => hrt (h.symm.trans hid)⟩), ho, hstands,
        fun r' hr' ho' hid' => ?_⟩
      rcases (hrecords r').1 hr' with rfl | ⟨hr', -⟩
      · -- the record that is written anew is not a second one of this token
        obtain rfl : x = t := KeyedMap.eq_of_key_eq hx ht (hxnew.tokenId.symm.trans hid')
        have hold := hout row hrow (hinst.symm.trans hxtask.instanceId.symm) hgoing
        exact absurd (congrArg _ (honly task htask hold hxtask.tokenId)).symm hrt
      · exact honly r' hr' ho' hid'
  · rw [hinstances] at hrow
    rw [htokens]
    rcases (hrecords r).1 hr with rfl | ⟨hr, -⟩
    · have hinst : task.instanceId = row.data.id :=
        hxtask.instanceId.trans (hxnew.instanceId.symm.trans hinst)
      obtain ⟨t, ht, hstands, hw⟩ := hkept.tasksMatch.records row hrow hgoing task htask hinst
        (hout row hrow hinst.symm hgoing)
      exact ⟨t, ht, (hsame t).2 hstands, hw⟩
    · exact hkept.tasksMatch.records row hrow hgoing r hr hinst ho

theorem executeTransaction_updateUserTask {task new : UserTaskRecord}
    (htask : task ∈ store.userTasks.values) (hid : new.id = task.id)
    (h : store.executeTransaction [.updateUserTask new] = .ok store') :
    store'.instances = store.instances ∧ store'.tokens = store.tokens ∧
      ∀ r, r ∈ store'.userTasks.values ↔ r = new ∨ r ∈ store.userTasks.values ∧ new.id ≠ r.id := by
  obtain ⟨hinstances, htokens, -, htable, -⟩ := executeTransaction_tables h
  refine ⟨hinstances, htokens, fun r => ?_⟩
  have hset : store'.userTasks = store.userTasks.set new := by
    rw [htable]
    refine if_pos ?_
    rw [hid]
    exact Option.isSome_iff_exists.2 ⟨task, KeyedMap.get?_of_mem htask⟩
  rw [hset, KeyedMap.mem_set]
  exact or_congr_right (and_congr_right fun _ => ne_comm)

/-! ## The store in service -/

/-- In service the records stay in step with the tokens, as long as the changes keep them so. -/
theorem Served.tasksKept
    (h : Served definitions (fun change => change.Routed ∧ change.KeepsTasks) store nextId) :
    store.TasksKept := by
  induction h with
  | empty =>
    exact ⟨fun _ hr => absurd hr List.not_mem_nil, fun _ hrow => absurd hrow List.not_mem_nil,
      fun _ hrow => absurd hrow List.not_mem_nil⟩
  | start served hid h hC hsave ih =>
    have hrest := (execute_start_resting h).1
    exact (tasksReplaced_start served.sound hid h hsave).tasksKept served.sound hrest ih
      fun hgoing => tasksFollow_start served.sound hid h (hC.2 hgoing)
  | cycle served hid hdone hC ih =>
    have hrest := (hdone.continued served.sound hid).2.resting
    exact (hdone.tasksReplaced served.sound hid hC.1).tasksKept served.sound hrest ih
      fun hgoing => hdone.tasksFollow served.sound hid hC.1 hC.2 hgoing
  | @tasks store store' nextId served ops htable hC hsave ih =>
    obtain ⟨⟨task, htask, hops⟩, hkeeps⟩ := hC
    obtain ⟨new, rfl, hnew, hid, hsame⟩ : ∃ new, ops = [updateUserTask new] ∧ new.Outstanding ∧
        new.id = task.id ∧ ∀ t, new.StandsFor t ↔ task.StandsFor t := by
      rcases hops with ⟨claimedBy, now, rfl⟩ | rfl
      · exact ⟨task.claimed claimedBy now, rfl, .inr rfl, rfl,
          fun t => ⟨fun h => ⟨h.1, h.2, h.3⟩, fun h => ⟨h.1, h.2, h.3⟩⟩⟩
      · exact ⟨task.released, rfl, .inl rfl, rfl,
          fun t => ⟨fun h => ⟨h.1, h.2, h.3⟩, fun h => ⟨h.1, h.2, h.3⟩⟩⟩
    obtain ⟨hinstances, htokens, hrecords⟩ := executeTransaction_updateUserTask htask hid hsave
    exact ih.rewrite htask hnew hid hsame
      (hkeeps new (List.mem_singleton_self _) task htask hid.symm) hinstances htokens hrecords

/-- As long as the changes keep the records in step, records and waiting tokens match. -/
theorem tasksMatch_of_served
    (h : Served definitions (fun change => change.Routed ∧ change.KeepsTasks) store nextId) :
    store.TasksMatch :=
  h.tasksKept.tasksMatch

/-! ## Runs -/

instance (d : ProcessDefinition) (result : EngineResult) : Decidable (Reported d result) :=
  inferInstanceAs (Decidable (∀ event ∈ result.events, ∀ w ∈ event.userWait,
    ((event.startedUserTask d).isSome = true ↔
      ∃ t ∈ result.newState.tokens, t.userWait = w ∧ t.WaitsForUser)))

instance (state : EngineState) (id : Nat) : Decidable (state.HasWaiter id) :=
  inferInstanceAs (Decidable (∃ t ∈ state.tokens, t.id = id ∧ t.WaitsForUser))

open Diagram

/-- Two user tasks, of which the first is completed by the request that closes its record. -/
theorem tasksMatch_interview :
    ∃ store nextId, Store.opened interview always = some (store, nextId) ∧
    ∃ task ∈ store.userTasks.values, ∃ store',
      ((requestCloses task 10).program (fun _ _ => some interview) 0).perform store = some store' ∧
        store.TasksMatch ∧ store'.TasksMatch := by
  have hstart : ∀ result, interview.opening always = some result → Reported interview result := by
    have hruns : (interview.opening always).all (fun result => Reported interview result) =
        true := by
      decide +kernel
    simpa [Option.all_eq_true] using hruns
  have hruns : (Store.opened interview always).any (fun (store, nextId) => nextId ≤ 10 ∧
      ∃ task ∈ store.userTasks.values, task.status = .unclaimed ∧
        (((requestCloses task 10).program (fun _ _ => some interview) 0).perform store).isSome =
          true ∧
        ((requestCloses task 10).outcome (fun _ _ => some interview) 0 store).all
          (fun (d, state, result) => state.inst.id = task.instanceId ∧
            state.inst.status.terminal = false ∧ Reported d result ∧
            ∀ t ∈ state.tokens, t.WaitsForUser → result.newState.HasWaiter t.id ∨
              task.tokenId = t.id) = true) = true := by decide +kernel
  obtain ⟨⟨store, nextId⟩, hopened, hfacts⟩ := (Option.any_eq_true ..).1 hruns
  simp only [decide_eq_true_eq] at hfacts
  obtain ⟨hid, task, htask, hstatus, hsome, hcycle⟩ := hfacts
  obtain ⟨store', hperform⟩ := Option.isSome_iff_exists.1 hsome
  have hserved : Served (fun _ _ => some interview)
      (fun change => change.Routed ∧ change.KeepsTasks) store nextId :=
    served_opened (fun result hresult => ⟨trivial, fun _ => hstart result hresult⟩) hopened
  obtain ⟨nextId', hserved'⟩ := hserved.perform hid (fun d state result hout => by
    have hfacts := (Option.all_eq_true ..).1 hcycle _ hout
    simp only [decide_eq_true_eq] at hfacts
    obtain ⟨hinst, hgoing, hreported, hceases⟩ := hfacts
    refine ⟨.completeTask htask (by rw [hstatus]; decide) hinst rfl rfl, fun _ =>
      ⟨hgoing, hreported,
      fun t ht hw => (hceases t ht hw).imp_right fun heq => ?_⟩⟩
    exact ⟨task.completed 0, List.mem_singleton_self _, heq⟩) hperform
  exact ⟨store, nextId, hopened, task, htask, store', hperform, tasksMatch_of_served hserved,
    tasksMatch_of_served hserved'⟩

/-- When a worker completes the task before the user task, the token that now waits for a user has
no record. -/
theorem not_tasksMatch_errand :
    ∃ store nextId store', Store.opened errand always = some (store, nextId) ∧
    ((workerCompletes 3 10).program (fun _ _ => some errand) 0).perform store = some store' ∧
      (∃ nextId', Served (fun _ _ => some errand) Change.Routed store' nextId') ∧
        ¬ store'.TasksMatch := by
  have hruns : (Store.opened errand always).any (fun (store, nextId) => nextId ≤ 10 ∧
      (((workerCompletes 3 10).program (fun _ _ => some errand) 0).perform store).any
        (fun store' => store'.userTasks.values = [] ∧ ∃ row ∈ store'.instances.values,
          row.data.status.terminal = false ∧ ∃ t ∈ store'.tokens.values,
            t.instanceId = row.data.id ∧ t.WaitsForUser) = true) = true := by decide +kernel
  obtain ⟨⟨store, nextId⟩, hopened, hfacts⟩ := (Option.any_eq_true ..).1 hruns
  simp only [decide_eq_true_eq] at hfacts
  obtain ⟨hid, hafter⟩ := hfacts
  obtain ⟨store', hperform, hfacts⟩ := (Option.any_eq_true ..).1 hafter
  simp only [decide_eq_true_eq] at hfacts
  obtain ⟨hnone, row, hrow, hgoing, t, ht, hinst, hw⟩ := hfacts
  have hserved : Served (fun _ _ => some errand) Change.Routed store nextId :=
    served_opened (fun _ _ => trivial) hopened
  refine ⟨store, nextId, store', hopened, hperform,
    hserved.perform hid (fun _ _ _ _ => .worker (.inl ⟨none, rfl⟩) rfl) hperform, fun hmatch => ?_⟩
  obtain ⟨r, hr, -⟩ := hmatch.tokens row hrow hgoing t ht hinst hw
  rw [hnone] at hr
  cases hr

end NexusWorkflow
