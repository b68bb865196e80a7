import NexusWorkflow.Model.Jobs
import NexusWorkflow.Proof.Serial
import NexusWorkflow.Proof.UserTasks
import NexusWorkflow.Store.Requests

/-!
# Jobs that interleave

A cycle may have loaded its state from several stores.  When it commits, the version of the instance
is the one that it saw first, and the rows of an instance change only together with the version; so
the tokens that it loaded are those of the store that it changes.  From this follows what every
commit does to the store, whatever else is going on.
-/

namespace NexusWorkflow

open Reading (Gives)

variable {definitions : String → Nat → Option ProcessDefinition} {c : Cycle} {d : ProcessDefinition}
  {state : EngineState} {result : EngineResult} {ops : List StoreOperation}
  {instanceId version firstId : Nat} {now new : Store}

/-! ## What a cycle has seen -/

/-- The queries of a cycle have been answered by stores, and its transaction goes through on another
one. -/
structure Cycle.Lands (definitions : String → Nat → Option ProcessDefinition) (c : Cycle)
    (instanceId : Nat) (loaded rest : List Store) (now : Store) (d : ProcessDefinition)
    (state : EngineState) (version : Nat) (result : EngineResult) (ops : List StoreOperation)
    (new : Store) : Prop where
  loads : Gives (loadEngineState c.order instanceId) loaded (some (state, version))
  admits : c.admits state = true
  finds : definitions state.inst.definitionId state.inst.definitionVersion = some d
  executes : execute d c.fuel c.command (some state) c.options = .ok result
  writes : Gives (c.caller.storeOps d c.firstTaskId state version result) rest ops
  saves : now.executeTransaction ops = .ok new

theorem eq_ok_of_txn {ops : List StoreOperation}
    (h : (fun store : Store => (store.executeTransaction ops).toOption) now = some new) :
    now.executeTransaction ops = .ok new :=
  Except.eq_ok_of_toOption h

/-- What a cycle writes after it has loaded a state. -/
theorem Cycle.lands_of_storeOps {loaded rest : List Store}
    (hloads : Gives (loadEngineState c.order instanceId) loaded (some (state, version)))
    (h : Gives (c.storeOps definitions state version) rest (some ops))
    (hnew : now.executeTransaction ops = .ok new) :
    ∃ d result, c.Lands definitions instanceId loaded rest now d state version result ops new := by
  unfold Cycle.storeOps at h
  split at h
  · rename_i hadmits
    split at h
    · cases (Reading.gives_done h).1
    · rename_i d hfinds
      split at h
      · cases (Reading.gives_done h).1
      · rename_i result hexecutes
        obtain ⟨rest₁, rest₂, ops', rfl, hwrites, h⟩ := Reading.gives_bind h
        obtain ⟨heq, rfl⟩ := Reading.gives_done h
        cases heq
        rw [List.append_nil]
        exact ⟨d, result, hloads, hadmits, hfinds, hexecutes, hwrites, hnew⟩
  · cases (Reading.gives_done h).1

theorem Cycle.lands_of_gives {seen : List Store} {txn : Transaction Store}
    (h : Gives (c.program definitions instanceId) seen (some txn)) (hnew : txn now = some new) :
    ∃ loaded rest d state version result ops, seen = loaded ++ rest ∧
      c.Lands definitions instanceId loaded rest now d state version result ops new := by
  obtain ⟨seen₁, seen₂, plan, rfl, hplan, h⟩ := Reading.gives_bind h
  obtain ⟨hops, rfl⟩ := Reading.gives_done h
  obtain ⟨ops, rfl, rfl⟩ := Option.map_eq_some_iff.1 hops.symm
  obtain ⟨loaded, rest, found, rfl, hloads, hplan⟩ := Reading.gives_bind hplan
  cases found with
  | none => cases (Reading.gives_done hplan).1
  | some found =>
    obtain ⟨state, version⟩ := found
    obtain ⟨d, result, hlands⟩ := Cycle.lands_of_storeOps hloads hplan (eq_ok_of_txn hnew)
    exact ⟨loaded, rest, d, state, version, result, ops, List.append_nil _, hlands⟩

/-- Where the parts of a loaded state come from. -/
theorem loadEngineState_gives {order : RowOrder} {seen : List Store}
    (h : Gives (loadEngineState order instanceId) seen (some (state, version))) :
    ∃ first rest, seen = first :: rest ∧ first.getInstance instanceId = some (state.inst, version) ∧
      state.inst.id = instanceId ∧
      (∃ s ∈ rest, state.tokens = s.getAllTokens order instanceId) ∧
      (∃ s : Store, state.gatewayJoinStates = s.listGatewayStates order instanceId) ∧
      ∃ s : Store, state.compensationRecords = s.listCompensationRecords order instanceId := by
  obtain ⟨seen₁, rest, found, rfl, hfound, h⟩ := Reading.gives_bind h
  obtain ⟨first, rfl, rfl⟩ := Reading.gives_ask hfound
  cases hget : first.getInstance instanceId with
  | none =>
    rw [hget] at h
    cases (Reading.gives_done h).1
  | some found =>
    obtain ⟨inst, v⟩ := found
    rw [hget] at h
    obtain ⟨rest₁, rest₂, loaded, rfl, hrest, h⟩ := Reading.gives_bind h
    obtain ⟨heq, rfl⟩ := Reading.gives_done h
    cases heq
    obtain ⟨s₁, more, tokens, rfl, htokens, hrest⟩ := Reading.gives_bind hrest
    obtain ⟨s₂, rfl, rfl⟩ := Reading.gives_ask htokens
    obtain ⟨s₃, more, joins, rfl, hjoins, hrest⟩ := Reading.gives_bind hrest
    obtain ⟨s₄, rfl, rfl⟩ := Reading.gives_ask hjoins
    obtain ⟨s₅, more, scopes, rfl, -, hrest⟩ := Reading.gives_bind hrest
    obtain ⟨s₆, more, records, rfl, hrecords, hrest⟩ := Reading.gives_bind hrest
    obtain ⟨s₇, rfl, rfl⟩ := Reading.gives_ask hrecords
    obtain ⟨rfl, rfl⟩ := Reading.gives_done hrest
    have hid : inst.id = instanceId := (getInstance_eq hget).1
    subst hid
    refine ⟨first, _, rfl, hget, rfl, ⟨s₂, ?_, rfl⟩, ⟨s₄, rfl⟩, ⟨s₇, rfl⟩⟩
    simp

/-! ## Onward -/

/-- Two states of the record of one task. -/
structure UserTaskRecord.SameTask (r' r : UserTaskRecord) : Prop where
  id : r'.id = r.id
  tokenId : r'.tokenId = r.tokenId
  instanceId : r'.instanceId = r.instanceId
  elementId : r'.elementId = r.elementId

theorem UserTaskRecord.SameTask.trans {r r' r'' : UserTaskRecord} (h' : r''.SameTask r')
    (h : r'.SameTask r) : r''.SameTask r :=
  ⟨h'.id.trans h.id, h'.tokenId.trans h.tokenId, h'.instanceId.trans h.instanceId,
    h'.elementId.trans h.elementId⟩

/-- What only grows: versions, the tokens and the records that there are, and the tokens that do not
wait any more.  The tokens of an instance change, and its records are closed, only together with its
version. -/
structure Store.Onward (s s' : Store) : Prop where
  stamp : ∀ i, s.stamp i ≤ s'.stamp i
  tokens : ∀ i, s.stamp i = s'.stamp i →
    ∀ t : Token, t.instanceId = i → (t ∈ s.tokens.values ↔ t ∈ s'.tokens.values)
  kept : ∀ t ∈ s.tokens.values, ∃ t' ∈ s'.tokens.values, t'.id = t.id ∧ t'.instanceId = t.instanceId
  ceased : ∀ t ∈ s.tokens.values, t.status ≠ .waiting →
    ∀ t' ∈ s'.tokens.values, t'.id = t.id → t'.status ≠ .waiting
  records : ∀ r ∈ s.userTasks.values, ∃ r' ∈ s'.userTasks.values, r'.SameTask r
  outstanding : ∀ r ∈ s.userTasks.values, s.stamp r.instanceId = s'.stamp r.instanceId →
    r.Outstanding → ∀ r' ∈ s'.userTasks.values, r'.id = r.id → r'.Outstanding

namespace Store.Onward

variable {s s' s'' : Store}

theorem refl (s : Store) : s.Onward s where
  stamp _ := le_refl _
  tokens _ _ _ _ := Iff.rfl
  kept t ht := ⟨t, ht, rfl, rfl⟩
  ceased t ht hnot t' ht' hid := by
    rw [KeyedMap.eq_of_key_eq ht' ht hid]
    exact hnot
  records r hr := ⟨r, hr, rfl, rfl, rfl, rfl⟩
  outstanding r hr _ hout r' hr' hid := by
    rw [KeyedMap.eq_of_key_eq hr' hr hid]
    exact hout

theorem trans (h : s.Onward s') (h' : s'.Onward s'') : s.Onward s'' where
  stamp i := (h.stamp i).trans (h'.stamp i)
  tokens i heq t ht := by
    have h₁ := h.stamp i
    have h₂ := h'.stamp i
    exact (h.tokens i (by omega) t ht).trans (h'.tokens i (by omega) t ht)
  kept t ht := by
    obtain ⟨x, hx, hid, hinst⟩ := h.kept t ht
    obtain ⟨y, hy, hid', hinst'⟩ := h'.kept x hx
    exact ⟨y, hy, hid'.trans hid, hinst'.trans hinst⟩
  ceased t ht hnot y hy hid := by
    obtain ⟨x, hx, hxid, -⟩ := h.kept t ht
    exact h'.ceased x hx (h.ceased t ht hnot x hx hxid) y hy (hid.trans hxid.symm)
  records r hr := by
    obtain ⟨x, hx, hsame⟩ := h.records r hr
    obtain ⟨y, hy, hsame'⟩ := h'.records x hx
    exact ⟨y, hy, hsame'.trans hsame⟩
  outstanding r hr heq hout y hy hid := by
    have h₁ := h.stamp r.instanceId
    have h₂ := h'.stamp r.instanceId
    obtain ⟨x, hx, hsame⟩ := h.records r hr
    have hxout := h.outstanding r hr (by omega) hout x hx hsame.id
    refine h'.outstanding x hx ?_ hxout y hy (hid.trans hsame.id.symm)
    rw [hsame.instanceId]
    omega

end Store.Onward

/-! ## The state that is there -/

/-- The tokens of the state are those of the store, and the rest belongs to the instance, whose row
has the version. -/
structure Store.Offers (store : Store) (state : EngineState) (version : Nat) : Prop where
  row : ∃ row ∈ store.instances.values, row.data.id = state.inst.id ∧ row.version = version
  tokens : ∀ t, t ∈ state.tokens ↔
    ∃ x ∈ store.tokens.values, x.instanceId = state.inst.id ∧ reviveToken x = t
  tokenIds : (state.tokens.map (·.id)).Nodup
  joins : ∀ s ∈ state.gatewayJoinStates, s.key.2 = state.inst.id
  records : ∀ r ∈ state.compensationRecords, r.instanceId = state.inst.id

theorem Store.Sound.of_below {n : Nat} (h : now.Sound n) (hbelow : now.Below firstId) :
    now.Sound firstId :=
  ⟨hbelow.instances, hbelow.tokens, h.still, h.parents⟩

/-- A state that is there is at rest. -/
theorem Store.Offers.resting (h : now.Offers state version) (hsound : now.Sound firstId) :
    state.Resting firstId where
  tokens t ht := by
    obtain ⟨x, -, hid, rfl⟩ := (h.tokens t).1 ht
    exact hid
  joins := h.joins
  records := h.records
  tokenIds := h.tokenIds
  known t ht := by
    obtain ⟨x, hx, -, rfl⟩ := (h.tokens t).1 ht
    exact (hsound.known x hx).1
  still t ht := by
    obtain ⟨x, hx, -, rfl⟩ := (h.tokens t).1 ht
    exact hsound.still x hx
  parents t ht p hp := by
    obtain ⟨x, hx, hid, rfl⟩ := (h.tokens t).1 ht
    obtain ⟨hlt, y, hy, hyp, hinst⟩ := hsound.parents x hx p hp
    exact ⟨hlt, reviveToken y, (h.tokens _).2 ⟨y, hy, hinst.trans hid, rfl⟩, hyp⟩

theorem nodup_getAllTokens (order : RowOrder) (store : Store) (id : Nat) :
    ((store.getAllTokens order id).map (·.id)).Nodup := by
  rw [Store.getAllTokens, List.map_map]
  refine (((order.perm_tokens _).map (·.id)).nodup_iff).2 ?_
  exact store.tokens.nodup.sublist (List.filter_sublist.map _)

theorem mem_getAllTokens {order : RowOrder} {store : Store} {id : Nat} {t : Token} :
    t ∈ store.getAllTokens order id ↔
      ∃ x ∈ store.tokens.values, x.instanceId = id ∧ reviveToken x = t := by
  rw [Store.getAllTokens, List.mem_map]
  constructor
  · rintro ⟨x, hx, rfl⟩
    have hx := List.mem_filter.1 ((order.perm_tokens _).subset hx)
    exact ⟨x, hx.1, of_decide_eq_true hx.2, rfl⟩
  · rintro ⟨x, hx, hid, rfl⟩
    exact ⟨x, (order.perm_tokens _).symm.subset (List.mem_filter.2 ⟨hx, decide_eq_true hid⟩), rfl⟩

theorem row_of_stamp {store : Store} (h : store.stamp instanceId = version + 1) :
    ∃ row ∈ store.instances.values, row.data.id = instanceId ∧ row.version = version := by
  unfold Store.stamp at h
  cases hget : store.instances.get? instanceId with
  | none => simp [hget] at h
  | some row =>
    simp only [hget, Option.map_some, Option.getD_some] at h
    have hid : row.id = instanceId := KeyedMap.key_of_get? hget
    exact ⟨row, KeyedMap.mem_of_get? hget, hid, by omega⟩

/-- The caller closes these records, by the answers of these stores. -/
def Caller.Closes (state : EngineState) (answers : List Store) (closed : List UserTaskRecord) :
    Caller → Prop
  | .request closes => Gives (closes state) answers closed
  | .worker | .timer => closed = []

namespace Cycle.Lands

variable {loaded rest : List Store}

/-- The cycle updates the instance from the version that it has seen. -/
theorem stamps (h : c.Lands definitions instanceId loaded rest now d state version result ops new)
    (hle : ∀ s ∈ loaded, s.stamp instanceId ≤ now.stamp instanceId) :
    now.stamp instanceId = version + 1 ∧ new.stamp instanceId = version + 2 := by
  obtain ⟨first, more, rfl, hget, hid, -⟩ := loadEngineState_gives h.loads
  have hfirst := (getInstance_eq hget).2
  have hle := hle first List.mem_cons_self
  obtain ⟨after, rest, hcore, rfl, hspares⟩ :=
    Caller.storeOps_guards (execute_core c.goesOn h.executes) h.writes.ends
  have hafter : after.id = instanceId := (congrArg ProcessInstance.id hcore).trans hid
  have hupdate := executeTransaction_update hspares (by rw [hafter]; omega) h.saves
  rwa [hafter] at hupdate

/-- What the cycle has loaded is still there. -/
theorem offers (h : c.Lands definitions instanceId loaded rest now d state version result ops new)
    (hpairs : loaded.Pairwise Store.Onward) (honward : ∀ s ∈ loaded, s.Onward now) :
    now.Offers state version ∧ state.inst.id = instanceId := by
  have hstamp := (h.stamps fun s hs => (honward s hs).stamp instanceId).1
  obtain ⟨first, more, rfl, hget, hid, ⟨s, hs, htokens⟩, ⟨joined, hjoins⟩, ⟨recorded, hrecords⟩⟩ :=
    loadEngineState_gives h.loads
  have hfirst := (getInstance_eq hget).2
  have hbetween := ((List.pairwise_cons.1 hpairs).1 s hs).stamp instanceId
  have hlast := honward s (List.mem_cons_of_mem _ hs)
  have hsame := hlast.tokens instanceId (by have := hlast.stamp instanceId; omega)
  subst hid
  refine ⟨⟨row_of_stamp hstamp, fun t => ?_, ?_, fun x hx => ?_, fun x hx => ?_⟩, rfl⟩
  · rw [htokens, mem_getAllTokens]
    constructor
    · rintro ⟨x, hx, hxid, rfl⟩
      exact ⟨x, (hsame x hxid).1 hx, hxid, rfl⟩
    · rintro ⟨x, hx, hxid, rfl⟩
      exact ⟨x, (hsame x hxid).2 hx, hxid, rfl⟩
  · rw [htokens]
    exact nodup_getAllTokens _ _ _
  · rw [hjoins] at hx
    exact of_decide_eq_true (List.mem_filter.1 ((c.order.perm_gatewayStates _).subset hx)).2
  · rw [hrecords] at hx
    have hx := (c.order.perm_compensationRecords _).subset ((List.perm_insertionSort _ _).subset hx)
    exact of_decide_eq_true (List.mem_filter.1 hx).2

/-- The operations of the caller, and the records that it closes. -/
theorem ops_eq (h : c.Lands definitions instanceId loaded rest now d state version result ops new) :
    ∃ closed more, Besides more ∧
      ops = stateOps (.updateInstance result.newState.inst (some version)) (some state)
        result.newState ++ more ∧
      (∀ r ∈ c.created d result, StoreOperation.createUserTask r ∈ more) ∧
      (∀ m : KeyedMap UserTaskRecord.id, more.foldl StoreOperation.writeUserTasks m =
        ((c.created d result).map .createUserTask ++ closed.map .updateUserTask).foldl
          StoreOperation.writeUserTasks m) ∧
      c.caller.Closes state rest closed := by
  have hwrites := h.writes
  unfold Cycle.created
  cases hcaller : c.caller with
  | request closes =>
    rw [hcaller] at hwrites
    obtain ⟨rest₁, rest₂, closed, rfl, hcloses, hwrites⟩ := Reading.gives_bind hwrites
    obtain ⟨rfl, rfl⟩ := Reading.gives_done hwrites
    rw [List.append_nil]
    refine ⟨closed, subscriptionOps state.tokens result.newState.tokens ++
      (compensationOps state.compensationRecords result.newState.compensationRecords ++
        (buildUserTaskCreationOps c.firstTaskId result.events d ++
          closed.map StoreOperation.updateUserTask)),
      besides_request buildUserTaskCreationOps_table updateUserTask_table, ?_, fun r hr => ?_,
      fun m => ?_, hcloses⟩
    · simp only [computeStoreOps, List.append_assoc]
      rfl
    · rw [buildUserTaskCreationOps_eq]
      refine List.mem_append_right _ (List.mem_append_right _ ?_)
      exact List.mem_append_left _ (List.mem_map_of_mem hr)
    · rw [List.foldl_append, List.foldl_append,
        foldl_spares writeUserTasks_of_table subscriptionOps_table (by decide),
        foldl_spares writeUserTasks_of_table compensationOps_table (by decide),
        buildUserTaskCreationOps_eq]
  | worker | timer =>
    rw [hcaller] at hwrites
    obtain ⟨rfl, -⟩ := Reading.gives_done hwrites
    exact ⟨[], [], by simp [Besides], (List.append_nil _).symm,
      fun r hr => absurd hr List.not_mem_nil,
      fun _ => rfl, rfl⟩

end Cycle.Lands

/-! ## A change -/

/-- Ids are as they should be, every record is that of a token, and the token of a closed one waits
no longer. -/
structure Store.Orderly (store : Store) : Prop where
  sound : ∃ n, store.Sound n
  placed : ∀ r ∈ store.userTasks.values, ∃ t ∈ store.tokens.values, r.StandsFor t
  settled : ∀ r ∈ store.userTasks.values, ¬ r.Outstanding →
    ∀ t ∈ store.tokens.values, t.id = r.tokenId → t.status ≠ .waiting

/-- One instance goes on: its version rises, its new tokens are new in the store, what waits has
waited before or is new, and records are closed whose tokens wait no longer. -/
structure Advances (now : Store) (firstId : Nat) (state : EngineState)
    (created closed : List UserTaskRecord) (new : Store) : Prop where
  tasks : TasksReplaced now firstId state created closed new
  sound : ∃ n, new.Sound n
  below : now.Below firstId
  owned : ∀ t ∈ state.tokens, t.instanceId = state.inst.id
  waiting : ∀ y ∈ state.tokens, y.status = .waiting → firstId ≤ y.id ∨
    ∃ x ∈ now.tokens.values, x.id = y.id ∧ x.status = .waiting
  closedCease : ∀ r ∈ closed, ∀ t ∈ state.tokens, t.id = r.tokenId → t.status ≠ .waiting
  rises : now.stamp state.inst.id < new.stamp state.inst.id
  others : ∀ i, i ≠ state.inst.id → new.stamp i = now.stamp i

namespace Advances

variable {created closed : List UserTaskRecord} (h : Advances now firstId state created closed new)

include h

/-- A record that is closed is one of the store. -/
theorem sameTask {r : UserTaskRecord} (hr : r ∈ closed) :
    ∃ x ∈ now.userTasks.values, x.Outstanding ∧ r.SameTask x := by
  obtain ⟨-, -, x, hx, hout, hid, htoken, hinst, helement⟩ := h.tasks.stale r hr
  exact ⟨x, hx, hout, hid.symm, htoken.symm, hinst.symm, helement.symm⟩

theorem ceased {t : Token} (ht : t ∈ now.tokens.values) (hnot : t.status ≠ .waiting) {y : Token}
    (hy : y ∈ new.tokens.values) (hid : y.id = t.id) : y.status ≠ .waiting := by
  rcases (h.tasks.rows.tokens y).1 hy with hy | ⟨hy, -⟩
  · intro hw
    rcases h.waiting y hy hw with hle | ⟨x, hx, hxid, hxw⟩
    · have := (h.below.tokens t ht).1
      omega
    · rw [KeyedMap.eq_of_key_eq hx ht (hxid.trans hid)] at hxw
      exact hnot hxw
  · rw [KeyedMap.eq_of_key_eq hy ht hid]
    exact hnot

theorem onward : now.Onward new where
  stamp i := by
    by_cases hi : i = state.inst.id
    · subst hi
      exact h.rises.le
    · exact (h.others i hi).ge
  tokens i heq t ht := by
    have hi : i ≠ state.inst.id := fun hi => absurd heq (by rw [hi]; exact h.rises.ne)
    rw [h.tasks.rows.tokens t]
    constructor
    · intro hmem
      exact .inr ⟨hmem, ht ▸ hi⟩
    · rintro (hmem | ⟨hmem, -⟩)
      · exact absurd (ht.symm.trans (h.owned t hmem)) hi
      · exact hmem
  kept t ht := by
    by_cases hinst : t.instanceId = state.inst.id
    · obtain ⟨t', ht', heq⟩ := h.tasks.kept t ht hinst
      simp only [Token.userWait, UserWait.mk.injEq] at heq
      exact ⟨t', h.tasks.mem_new ht', heq.2.1, heq.1⟩
    · exact ⟨t, (h.tasks.rows.tokens t).2 (.inr ⟨ht, hinst⟩), rfl, rfl⟩
  ceased _ ht hnot _ hy hid := h.ceased ht hnot hy hid
  records r hr := by
    by_cases hclosed : ∃ x ∈ closed, x.id = r.id
    · obtain ⟨x, hx, hid⟩ := hclosed
      obtain ⟨y, hy, -, hsame⟩ := h.sameTask hx
      obtain rfl : y = r := KeyedMap.eq_of_key_eq hy hr (hsame.id.symm.trans hid)
      exact ⟨x, (h.tasks.records x).2 (.inr (.inl hx)), hsame⟩
    · refine ⟨r, (h.tasks.records r).2 (.inr (.inr ⟨hr, fun x hx hid => ?_⟩)), rfl, rfl, rfl, rfl⟩
      exact hclosed ⟨x, hx, hid⟩
  outstanding r hr heq hout r' hr' hid := by
    have hinst : r.instanceId ≠ state.inst.id := fun hi => absurd heq (by rw [hi]; exact h.rises.ne)
    have hold : r ∈ new.userTasks.values := by
      refine (h.tasks.records r).2 (.inr (.inr ⟨hr, fun x hx hxid => ?_⟩))
      exact hinst (h.tasks.closed_of_id hx hr hxid).2
    rw [KeyedMap.eq_of_key_eq hr' hold hid]
    exact hout

theorem orderly (hnow : now.Orderly) : new.Orderly where
  sound := h.sound
  placed r hr := h.tasks.placed hnow.placed hr
  settled r hr hclosed t ht hid := by
    rcases (h.tasks.records r).1 hr with hr | hr | ⟨hr, -⟩
    · exact absurd (.inl (h.tasks.fresh r hr).1) hclosed
    · rcases (h.tasks.rows.tokens t).1 ht with ht | ⟨ht, hne⟩
      · exact h.closedCease r hr t ht hid
      · -- the token of the record is one of the instance
        obtain ⟨x, hx, -, hsame⟩ := h.sameTask hr
        obtain ⟨y, hy, hstands⟩ := hnow.placed x hx
        have hyid : y.id = t.id := hstands.tokenId.symm.trans (hsame.tokenId.symm.trans hid.symm)
        rw [← KeyedMap.eq_of_key_eq hy ht hyid] at hne
        have hinst := (h.tasks.stale r hr).2.1
        exact absurd (hstands.instanceId.symm.trans (hsame.instanceId.symm.trans hinst)) hne
    · obtain ⟨y, hy, hstands⟩ := hnow.placed r hr
      have hnot := hnow.settled r hr hclosed y hy hstands.tokenId.symm
      exact h.ceased hy hnot ht (hid.trans hstands.tokenId)

end Advances

/-! ## Cycles -/

theorem stamp_set {store : Store} {row : InstanceRow} {i : Nat} (hne : i ≠ row.data.id)
    (h : new.instances = store.instances.set row) : new.stamp i = store.stamp i := by
  unfold Store.stamp
  rw [h, KeyedMap.get?_set_of_ne]
  exact fun heq => hne heq.symm

/-- The instance of a row that is there is written under its id. -/
theorem writeInstances_update {after : ProcessInstance} {version : Nat} {row : InstanceRow}
    (hrow : row ∈ now.instances.values) (hid : row.data.id = after.id) :
    StoreOperation.writeInstances now.instances (.updateInstance after (some version)) =
      now.instances.set ⟨after, row.version + 1⟩ := by
  have hget : now.instances.get? after.id = some row := by
    rw [← hid]
    exact KeyedMap.get?_of_mem hrow
  rw [StoreOperation.writeInstances, hget]

namespace Cycle.Lands

variable {loaded rest : List Store}

/-- The row of the instance is written again, at its next version. -/
theorem instances_eq (h : c.Lands definitions instanceId loaded rest now d state version result ops
    new)
    (hle : ∀ s ∈ loaded, s.stamp instanceId ≤ now.stamp instanceId) :
    ∃ row ∈ now.instances.values, row.data.id = instanceId ∧
      result.newState.inst.core = state.inst.core ∧ result.newState.inst.id = instanceId ∧
      new.instances = now.instances.set ⟨result.newState.inst, row.version + 1⟩ := by
  obtain ⟨-, -, -, -, hid, -⟩ := loadEngineState_gives h.loads
  have hcore := execute_core c.goesOn h.executes
  have hafter : result.newState.inst.id = instanceId :=
      (congrArg ProcessInstance.id hcore).trans hid
  obtain ⟨row, hrow, hrowId, -⟩ := row_of_stamp (h.stamps hle).1
  obtain ⟨closed, more, hmore, hops, -⟩ := h.ops_eq
  have hsaves := h.saves
  rw [hops] at hsaves
  have hinstances := (stateOps_tables rfl hmore hsaves).1
  rw [writeInstances_update hrow (hrowId.trans hafter.symm)] at hinstances
  exact ⟨row, hrow, hrowId, hcore, hafter, hinstances⟩

/-- What the commit of a cycle makes of the store. -/
theorem advances (h : c.Lands definitions instanceId loaded rest now d state version result ops new)
    (hpairs : loaded.Pairwise Store.Onward) (honward : ∀ s ∈ loaded, s.Onward now)
    (hnow : now.Orderly) (hbelow : now.Below c.options.firstId)
    (hclosed : ∀ closed, c.caller.Closes state rest closed → ClosesOwn now state closed ∧
      ∀ r ∈ closed, ∀ t ∈ result.newState.tokens, t.id = r.tokenId → t.status ≠ .waiting) :
    ∃ closed, Advances now c.options.firstId result.newState (c.created d result) closed new := by
  obtain ⟨hnowStamp, hnewStamp⟩ := h.stamps fun s hs => (honward s hs).stamp instanceId
  obtain ⟨hoffers, rfl⟩ := h.offers hpairs honward
  obtain ⟨n, hn⟩ := hnow.sound
  have hsound := hn.of_below hbelow
  have hrest := hoffers.resting hsound
  have hcont := execute_continued c.goesOn hrest (le_refl _) h.executes
  have hnoted := execute_noted c.goesOn hrest (le_refl _) h.executes
  obtain ⟨closed, more, hmore, hops, hcreates, hwrites, hcloses⟩ := h.ops_eq
  obtain ⟨hown, hcease⟩ := hclosed closed hcloses
  have hsaves := h.saves
  rw [hops] at hsaves
  obtain ⟨hinstances, htokens, -, -, htasks, -⟩ := stateOps_tables rfl hmore hsaves
  have hid : result.newState.inst.id = state.inst.id := hcont.instId
  obtain ⟨row, hrow, hrowId, -⟩ := hoffers.row
  rw [writeInstances_update hrow (hrowId.trans hid.symm)] at hinstances
  have hrows : now.Replaced result.newState new := by
    refine ⟨fun t => ?_, fun r hr => ?_⟩
    · rw [htokens]
      refine mem_savedTokens hcont.resting.tokenIds (fun x hx hinst => ?_)
        (fun y hy x hx hyx => ?_) t
      · obtain ⟨y, hy, hyx⟩ := hcont.keptId ((hoffers.tokens _).2 ⟨x, hx, hinst.trans hid, rfl⟩)
        exact ⟨y, hy, hyx⟩
      · rcases hcont.made y hy with ⟨z, hz, hzy⟩ | hle
        · obtain ⟨v, hv, hvinst, rfl⟩ := (hoffers.tokens z).1 hz
          have hvx : v.id = x.id := hzy.trans hyx
          rw [← KeyedMap.eq_of_key_eq hv hx hvx, hid]
          exact hvinst
        · have := (hsound.known x hx).1
          omega
    · rw [hinstances] at hr
      rcases KeyedMap.mem_set.1 hr with rfl | ⟨hr, hne⟩
      · exact .inl rfl
      · exact .inr ⟨hr, hne⟩
  refine ⟨closed, ⟨⟨hrows, fun r => ?_, fun r hr => ?_, ?_, fun r hr => ?_, fun t ht hinst => ?_⟩,
    ⟨_, hsound.replaced hcont.resting hcont.next ?_ hrows⟩, hbelow, hcont.resting.tokens,
    fun y hy hw => ?_, hcease, ?_, fun i hi => stamp_set hi hinstances⟩⟩
  · rw [htasks, hwrites]
    refine mem_userTaskOps ?_ (fun r hr => ?_) hown.ids (fun r hr => ?_) r
    · unfold Cycle.created
      split
      · exact nodup_startedUserTasks _ _
      · exact List.nodup_nil
      · exact List.nodup_nil
    · exact executeTransaction_created (List.mem_append_right _ (hcreates r hr)) hsaves
    · obtain ⟨-, -, x, hx, -, hid, -⟩ := hown.stale r hr
      rw [← hid]
      exact Option.isSome_iff_exists.2 ⟨x, KeyedMap.get?_of_mem hx⟩
  · unfold Cycle.created at hr
    split at hr
    · obtain ⟨event, hevent, -, hwait, hstatus⟩ := mem_startedUserTasks hr
      obtain ⟨hge, t, ht, heq⟩ := hnoted.known _ (List.mem_filterMap.2 ⟨event, hevent, hwait⟩)
      simp only [Token.userWait, UserWait.mk.injEq] at heq
      obtain ⟨hinst, hid, helement⟩ := heq
      exact ⟨hstatus, hge, t, ht, hid.symm, hinst.symm, helement.symm⟩
    · cases hr
    · cases hr
  · unfold Cycle.created
    split
    · exact once_startedUserTasks hnoted.once
    · exact List.nodup_nil
    · exact List.nodup_nil
  · obtain ⟨hout, hinst, hx⟩ := hown.stale r hr
    exact ⟨hout, hinst.trans hid.symm, hx⟩
  · obtain ⟨t', ht', hbare⟩ := hcont.kept (reviveToken t)
      ((hoffers.tokens _).2 ⟨t, ht, hinst.trans hid, rfl⟩)
    have heq := Token.userWait_of_bare hbare
    exact ⟨t', ht', heq⟩
  · have := hsound.instances row hrow
    have := hcont.next
    omega
  · rcases hcont.waiting y hy hw with hle | ⟨x, hx, hxw, hbare, -⟩
    · exact .inl hle
    · obtain ⟨z, hz, -, rfl⟩ := (hoffers.tokens x).1 hx
      have hxy : (reviveToken z).erase.id = y.erase.id := Token.id_of_bare hbare
      exact .inr ⟨z, hz, hxy, hxw⟩
  · rw [hid, hnowStamp, hnewStamp]
    omega

end Cycle.Lands

/-- What a new instance makes of the store. -/
theorem advances_start {fuel : Nat} {vars : Option Variables}
    {correlationKey businessKey : Option String} {options : ExecuteOptions} {firstTaskId : Nat}
    (hnow : now.Orderly) (hbelow : now.Below options.firstId)
    (h : execute d fuel (.startProcess vars correlationKey businessKey) none options = .ok result)
    (hsave : now.executeTransaction (computeStoreOps true none none result.newState ++
      buildUserTaskCreationOps firstTaskId result.events d) = .ok new) :
    Advances now options.firstId result.newState (startedUserTasks firstTaskId result.events d)
      [] new := by
  obtain ⟨n, hn⟩ := hnow.sound
  have hsound := hn.of_below hbelow
  obtain ⟨hrest, hge, hid, hlt⟩ := execute_start_resting h
  obtain ⟨hinstances, hnone⟩ := instances_start hsave
  refine ⟨tasksReplaced_start hsound (le_refl _) h hsave,
    ⟨_, sound_start hsound (le_refl _) h hsave⟩,
    hbelow, hrest.tokens, fun y hy _ => .inl (hge y hy), nofun, ?_, fun i hi =>
      stamp_set hi hinstances⟩
  unfold Store.stamp
  rw [hnone, hinstances]
  have hget : (now.instances.set ⟨result.newState.inst, 1⟩).get? result.newState.inst.id =
      some ⟨result.newState.inst, 1⟩ := KeyedMap.get?_set_self _ _
  rw [hget]
  simp

end NexusWorkflow
