import NexusWorkflow.Game.Acts
import NexusWorkflow.Proof.Onward

/-!
# Commits of jobs

What each kind of job makes of the store when it commits, however the jobs interleave.
-/

namespace NexusWorkflow

open Reading (Gives)

variable {definitions : String → Nat → Option ProcessDefinition} {d : ProcessDefinition}
  {state : EngineState} {result : EngineResult} {now new : Store} {seen : List Store}
  {txn : Transaction Store}

/-! ## Records that are rewritten -/

/-- A record of the store is written again, with the given content. -/
structure Rewritten (now : Store) (old new : UserTaskRecord) (store : Store) : Prop where
  mem : old ∈ now.userTasks.values
  sameTask : new.SameTask old
  outstanding : new.Outstanding
  instances : store.instances = now.instances
  tokens : store.tokens = now.tokens
  records : ∀ r, r ∈ store.userTasks.values ↔ r = new ∨ r ∈ now.userTasks.values ∧ r.id ≠ old.id

namespace Rewritten

variable {old task : UserTaskRecord} (h : Rewritten now old task new)

include h

theorem stamp (i : Nat) : new.stamp i = now.stamp i := by
  unfold Store.stamp
  rw [h.instances]

theorem onward : now.Onward new where
  stamp i := (h.stamp i).ge
  tokens _ _ _ _ := by rw [h.tokens]
  kept t ht := ⟨t, h.tokens ▸ ht, rfl, rfl⟩
  ceased t ht hnot t' ht' hid := by
    rw [KeyedMap.eq_of_key_eq (h.tokens ▸ ht') ht hid]
    exact hnot
  records r hr := by
    by_cases hid : r.id = old.id
    · rw [KeyedMap.eq_of_key_eq hr h.mem hid]
      exact ⟨task, (h.records task).2 (.inl rfl), h.sameTask⟩
    · exact ⟨r, (h.records r).2 (.inr ⟨hr, hid⟩), rfl, rfl, rfl, rfl⟩
  outstanding r hr _ hout r' hr' hid := by
    rcases (h.records r').1 hr' with rfl | ⟨hr', -⟩
    · exact h.outstanding
    · rw [KeyedMap.eq_of_key_eq hr' hr hid]
      exact hout

theorem orderly (hnow : now.Orderly) : new.Orderly where
  sound := by
    obtain ⟨n, hn⟩ := hnow.sound
    exact ⟨n, h.instances ▸ hn.instances, h.tokens ▸ hn.known, h.tokens ▸ hn.still,
      h.tokens ▸ hn.parents⟩
  placed r hr := by
    rw [h.tokens]
    rcases (h.records r).1 hr with rfl | ⟨hr, -⟩
    · obtain ⟨t, ht, hstands⟩ := hnow.placed old h.mem
      exact ⟨t, ht, h.sameTask.tokenId.trans hstands.tokenId,
        h.sameTask.instanceId.trans hstands.instanceId,
          h.sameTask.elementId.trans hstands.elementId⟩
    · exact hnow.placed r hr
  settled r hr hclosed := by
    rw [h.tokens]
    rcases (h.records r).1 hr with rfl | ⟨hr, -⟩
    · exact absurd h.outstanding hclosed
    · exact hnow.settled r hr hclosed

end Rewritten

theorem Job.rewritten {taskId : Nat} {change : UserTaskRecord → UserTaskRecord}
    (h : Gives (rewriteProgram taskId change) seen (some txn))
    (hsame : ∀ task, (change task).SameTask task) (hout : ∀ task, (change task).Outstanding)
    (honward : ∀ s ∈ seen, s.Onward now) (hnew : txn now = some new) :
    ∃ old task, old.id = taskId ∧ Rewritten now old (change task) new := by
  obtain ⟨seen₁, seen₂, found, rfl, hfound, h⟩ := Reading.gives_bind h
  obtain ⟨s, rfl, rfl⟩ := Reading.gives_ask hfound
  cases hget : s.userTasks.get? taskId with
  | none =>
    rw [hget] at h
    cases (Reading.gives_done h).1
  | some task =>
    rw [hget] at h
    cases (Reading.gives_done h).1
    have hid : task.id = taskId := KeyedMap.key_of_get? hget
    obtain ⟨old, hold, holdSame⟩ :=
      (honward s List.mem_cons_self).records task (KeyedMap.mem_of_get? hget)
    have hchange : (change task).SameTask old := by
      have hsame := hsame task
      exact ⟨hsame.id.trans holdSame.id.symm, hsame.tokenId.trans holdSame.tokenId.symm,
        hsame.instanceId.trans holdSame.instanceId.symm,
          hsame.elementId.trans holdSame.elementId.symm⟩
    obtain ⟨hinstances, htokens, hrecords⟩ :=
      executeTransaction_updateUserTask hold hchange.id (eq_ok_of_txn hnew)
    refine ⟨old, task, holdSame.id.trans hid, hold, hchange, hout task, hinstances, htokens,
      fun r => ?_⟩
    rw [hrecords r, hchange.id]
    exact or_congr_right (and_congr_right fun _ => ne_comm)

/-! ## Tokens that cease to wait -/

/-- No token of a cancelled instance waits. -/
theorem execute_cancelInstance_ceases {fuel nextId : Nat} {options : ExecuteOptions}
    (hrest : state.Resting nextId) (hn : nextId ≤ options.firstId)
    (h : execute d fuel .cancelInstance (some state) options = .ok result) :
    ∀ t ∈ result.newState.tokens, t.status ≠ .waiting := by
  obtain ⟨ctx, inst, ⟨-, hceased⟩, -, -, -, hstate, -, -⟩ :=
    execute_keeps (I := fun ctx => ctx.pool.pending = [] ∧ ∀ y ∈ ctx.pool.tokens,
      y.status ≠ .waiting)
      (C := fun _ => True) (hrest.coherent hn) h (fun _ _ => trivial)
      (fun after _ hok => by
        have hcommanded := handleCommand_commanded (hrest.coherent hn).numbered hok
        cases hcommanded with
        | deed hdeed hmade =>
          cases hdeed
          obtain ⟨news, m, hnews, -, hpool⟩ := hmade
          cases hnews
          rw [hpool]
          refine ⟨rfl, fun y hy hw => ?_⟩
          have hy : y ∈ ((ExecutionContext.create (some state) options).pool.cancelAll
              Token.live).tokens := by
            simpa [Pool.spawn] using hy
          rcases Pool.mem_cancelAll hy with ⟨-, hlive⟩ | ⟨x, -, -, rfl⟩
          · rw [(Token.live_iff y).2 (.inr hw)] at hlive
            cases hlive
          · cases hw)
      (fun before t after _ _ hI _ => absurd hI.1 (List.cons_ne_nil _ _))
  intro t ht
  rw [hstate] at ht
  exact hceased t.erase (ctx.mem_pool ht)

/-- The token that the command is about. -/
def EngineCommand.tokenId? : EngineCommand → Option Nat
  | .completeServiceTask id _ | .completeUserTask id _ _ | .failServiceTask id _ _ | .fireTimer
      id => some id
  | _ => none

/-- A command that is accepted is about a token that waits in the store. -/
theorem Store.Offers.waits {version fuel tokenId : Nat} {command : EngineCommand}
    {options : ExecuteOptions} (h : now.Offers state version)
    (hok : execute d fuel command (some state) options = .ok result)
    (hid : command.tokenId? = some tokenId) :
    ∃ t ∈ now.tokens.values, t.id = tokenId ∧ t.instanceId = state.inst.id ∧
      t.status = .waiting := by
  have hcommand : (∃ vars, command = .completeServiceTask tokenId vars) ∨
      (∃ completedBy vars, command = .completeUserTask tokenId completedBy vars) ∨
      (∃ code message, command = .failServiceTask tokenId code message) ∨
        command = .fireTimer tokenId := by
    cases command with
    | completeServiceTask id vars => exact .inl ⟨vars, by cases hid; rfl⟩
    | completeUserTask id completedBy vars =>
      exact .inr (.inl ⟨completedBy, vars, by cases hid; rfl⟩)
    | failServiceTask id code message =>
      exact .inr (.inr (.inl ⟨code, message, by cases hid; rfl⟩))
    | fireTimer id => exact .inr (.inr (.inr (by cases hid; rfl)))
    | _ => cases hid
  obtain ⟨t, hget, hwaiting⟩ := waiting_of_execute hok hcommand
  obtain ⟨hmem, hid⟩ := KeyedMap.get?_eq_some_iff.1 hget
  obtain ⟨x, hx, hinst, rfl⟩ := (h.tokens t).1 (KeyedMap.mem_of_mem_ofList hmem)
  exact ⟨x, hx, hid, hinst, hwaiting⟩

/-! ## What a job commits -/

/-- The command that a job runs, and the instance that it is for; a completion has both from the
record. -/
inductive Job.Runs (now : Store) : Job → Nat → EngineCommand → Prop
  | cycle {instanceId : Nat} {c : Cycle} {closes : c.caller.ClosesNothing} :
      Runs now (.cycle instanceId c closes) instanceId c.command
  | cancel {instanceId : Nat} {tasks : TaskOrder} {k : Circumstances} :
      Runs now (.cancel instanceId tasks k) instanceId .cancelInstance
  | force {instanceId tokenId : Nat} {completedBy : String} {vars : Option Variables}
      {tasks : TaskOrder} {k : Circumstances} :
      Runs now (.force instanceId tokenId completedBy vars tasks k) instanceId
        (.completeUserTask tokenId completedBy vars)
  | complete {taskId : Nat} {completedBy : String} {vars : Option Variables} {k : Circumstances}
      {r : UserTaskRecord} (hr : r ∈ now.userTasks.values) (hid : r.id = taskId) :
      Runs now (.complete taskId completedBy vars k) r.instanceId
        (.completeUserTask r.tokenId completedBy vars)

/-- What comes of the store when the job commits. -/
inductive Job.Changes (now new : Store) : Job → Prop
  | start {d : ProcessDefinition} {vars : Option Variables}
      {correlationKey businessKey : Option String} {k : Circumstances} {state : EngineState}
      {firstId : Nat} {created : List UserTaskRecord}
      (h : Advances now firstId state created [] new) :
      Changes now new (.start d vars correlationKey businessKey k)
  | claim {taskId : Nat} {claimedBy : String} {time : Time} {old task : UserTaskRecord}
      (hid : old.id = taskId) (h : Rewritten now old (task.claimed claimedBy time) new) :
      Changes now new (.claim taskId claimedBy time)
  | release {taskId : Nat} {old task : UserTaskRecord} (hid : old.id = taskId)
      (h : Rewritten now old task.released new) : Changes now new (.release taskId)
  | cycle {job : Job} {d : ProcessDefinition} {fuel version firstId : Nat} {state : EngineState}
      {command : EngineCommand} {options : ExecuteOptions} {result : EngineResult}
      {created closed : List UserTaskRecord} (hruns : job.Runs now state.inst.id command)
      (hoffers : now.Offers state version)
      (hok : execute d fuel command (some state) options = .ok result)
      (h : Advances now firstId result.newState created closed new) : Changes now new job

theorem Job.Changes.onward {job : Job} (h : job.Changes now new) : now.Onward new := by
  cases h with
  | start h => exact h.onward
  | claim _ h => exact h.onward
  | release _ h => exact h.onward
  | cycle _ _ _ h => exact h.onward

theorem Job.Changes.orderly {job : Job} (h : job.Changes now new) (hnow : now.Orderly) :
    new.Orderly := by
  cases h with
  | start h => exact h.orderly hnow
  | claim _ h => exact h.orderly hnow
  | release _ h => exact h.orderly hnow
  | cycle _ _ _ h => exact h.orderly hnow

theorem Caller.ClosesNothing.eq_nil {caller : Caller} (h : caller.ClosesNothing)
    {rest : List Store} {closed : List UserTaskRecord} (hcloses : caller.Closes state rest closed) :
    closed = [] := by
  cases h with
  | request => exact (Reading.gives_done hcloses).1
  | worker => exact hcloses
  | timer => exact hcloses

theorem closesOwn_nil : ClosesOwn now state [] := ⟨List.nodup_nil, nofun⟩

/-- A record that was outstanding at the same version is outstanding still. -/
theorem Store.Onward.sameTask {s : Store} (h : s.Onward now) {r : UserTaskRecord}
    (hr : r ∈ s.userTasks.values) (hstamp : s.stamp r.instanceId = now.stamp r.instanceId)
    (hout : r.Outstanding) : ∃ x ∈ now.userTasks.values, x.Outstanding ∧ x.SameTask r := by
  obtain ⟨x, hx, hsame⟩ := h.records r hr
  exact ⟨x, hx, h.outstanding r hr hstamp hout x hx hsame.id, hsame⟩

/-- The store that the record of a cycle's second part comes from has the version that the cycle
saw. -/
theorem Cycle.Lands.stamp_eq {c : Cycle} {instanceId version : Nat} {loaded rest : List Store}
    {ops : List StoreOperation}
    (h : c.Lands definitions instanceId loaded rest now d state version result ops new)
    (hpairs : (loaded ++ rest).Pairwise Store.Onward) (honward : ∀ s ∈ loaded ++ rest, s.Onward now)
    {s : Store} (hs : s ∈ rest) : s.stamp instanceId = now.stamp instanceId := by
  have hnow := (h.stamps fun x hx => (honward x (List.mem_append_left _ hx)).stamp instanceId).1
  obtain ⟨first, more, rfl, hget, -⟩ := loadEngineState_gives h.loads
  have hfirst := (getInstance_eq hget).2
  have h₁ := ((List.pairwise_append.1 hpairs).2.2 first List.mem_cons_self s hs).stamp instanceId
  have h₂ := (honward s (List.mem_append_right _ hs)).stamp instanceId
  omega

/-- The completion of a task: the record was read before the state was loaded. -/
theorem Job.changes_complete {taskId : Nat} {completedBy : String} {vars : Option Variables}
    {k : Circumstances} (hnow : now.Orderly) (hbelow : now.Below k.options.firstId)
    (h : Gives (completeProgram definitions taskId completedBy vars k) seen (some txn))
    (hpairs : seen.Pairwise Store.Onward) (honward : ∀ s ∈ seen, s.Onward now)
    (hnew : txn now = some new) : Job.Changes now new (.complete taskId completedBy vars k) := by
  obtain ⟨seen₁, seen₂, found, rfl, hfound, h⟩ := Reading.gives_bind h
  obtain ⟨s, rfl, rfl⟩ := Reading.gives_ask hfound
  cases hget : s.userTasks.get? taskId with
  | none =>
    rw [hget] at h
    cases (Reading.gives_done h).1
  | some task =>
    rw [hget] at h
    simp only at h
    split at h
    · cases (Reading.gives_done h).1
    · have hid : task.id = taskId := KeyedMap.key_of_get? hget
      obtain ⟨r, hr, hsame⟩ :=
        (honward s List.mem_cons_self).records task (KeyedMap.mem_of_get? hget)
      obtain ⟨loaded, rest, d, state, version, result, ops, rfl, hlands⟩ :=
        Cycle.lands_of_gives h hnew
      have hpairs := (List.pairwise_append.1 (List.pairwise_append.1 hpairs).2.1).1
      have honward : ∀ x ∈ loaded, x.Onward now := fun x hx =>
        honward x (List.mem_append_right [s] (List.mem_append_left rest hx))
      obtain ⟨hoffers, hinst⟩ := hlands.offers hpairs honward
      have hok : execute d k.fuel (.completeUserTask task.tokenId completedBy vars) (some state)
        k.options = .ok result := hlands.executes
      -- the token waits, so the record is not closed
      have hout : r.Outstanding := by
        by_contra hclosed
        obtain ⟨t, ht, htid, -, hw⟩ := hoffers.waits hok rfl
        exact hnow.settled r hr hclosed t ht (htid.trans hsame.tokenId.symm) hw
      obtain ⟨n, hn⟩ := hnow.sound
      have hrest := hoffers.resting (hn.of_below hbelow)
      have hinstance : task.instanceId = state.inst.id := hinst.symm
      have hrecord : (task.completed k.now).SameTask r :=
        ⟨hsame.id.symm, hsame.tokenId.symm, hsame.instanceId.symm, hsame.elementId.symm⟩
      obtain ⟨closed, hadvances⟩ :=
        hlands.advances hpairs honward hnow hbelow fun closed hcloses => by
        obtain rfl : closed = [task.completed k.now] := (Reading.gives_done hcloses).1
        refine ⟨⟨List.nodup_singleton _, fun x hx => ?_⟩, fun x hx t ht htid => ?_⟩
        · rw [List.mem_singleton.1 hx]
          refine ⟨fun hout => ?_, hinstance, r, hr, hout, hsame.id, hsame.tokenId, hsame.instanceId,
            hsame.elementId⟩
          rcases hout with hout | hout <;> cases hout
        · rw [List.mem_singleton.1 hx] at htid
          exact execute_ceased hrest (le_refl _) hok t ht htid
      have hruns : Job.Runs now (.complete taskId completedBy vars k) state.inst.id
          (.completeUserTask task.tokenId completedBy vars) := by
        rw [← hinstance, ← hsame.instanceId, ← hsame.tokenId]
        exact .complete hr (hsame.id.trans hid)
      exact .cycle hruns hoffers hok hadvances

/-- The deletion of an instance: the open records were read after the state had been loaded. -/
theorem Job.changes_cancel {instanceId : Nat} {tasks : TaskOrder} {k : Circumstances}
    (hnow : now.Orderly) (hbelow : now.Below k.options.firstId)
    (h : Gives ((cancelCycle tasks k).program definitions instanceId) seen (some txn))
    (hpairs : seen.Pairwise Store.Onward) (honward : ∀ s ∈ seen, s.Onward now)
    (hnew : txn now = some new) : Job.Changes now new (.cancel instanceId tasks k) := by
  obtain ⟨loaded, rest, d, state, version, result, ops, rfl, hlands⟩ := Cycle.lands_of_gives h hnew
  have hloaded : ∀ x ∈ loaded, x.Onward now := fun x hx => honward x (List.mem_append_left _ hx)
  obtain ⟨hoffers, hinst⟩ := hlands.offers (List.pairwise_append.1 hpairs).1 hloaded
  have hok : execute d k.fuel .cancelInstance (some state) k.options = .ok result := hlands.executes
  obtain ⟨n, hn⟩ := hnow.sound
  have hrest := hoffers.resting (hn.of_below hbelow)
  have hcease := execute_cancelInstance_ceases hrest (le_refl _) hok
  obtain ⟨closed, hadvances⟩ :=
    hlands.advances (List.pairwise_append.1 hpairs).1 hloaded hnow hbelow
    fun closed hcloses => by
      obtain ⟨s, rfl, rfl⟩ := Reading.gives_ask hcloses
      have hstamp := hlands.stamp_eq hpairs honward (List.mem_singleton_self s)
      have hs := honward s (List.mem_append_right _ (List.mem_singleton_self s))
      refine ⟨⟨?_, fun x hx => ?_⟩, fun x hx t ht _ => hcease t ht⟩
      · have hids : ((s.queryUserTasks tasks.order state.inst.id (some .unclaimed)).map
            (·.cancelled k.now)).map (·.id) =
            (s.queryUserTasks tasks.order state.inst.id (some .unclaimed)).map (·.id) := by
          rw [List.map_map]
          rfl
        rw [hids]
        exact nodup_queryUserTasks tasks.perm_order _ _
      · obtain ⟨task, htask, rfl⟩ := List.mem_map.1 hx
        obtain ⟨hmem, htaskInst, hstatus⟩ := mem_queryUserTasks tasks.perm_order htask
        have hout : task.Outstanding := .inl (by simpa using hstatus)
        obtain ⟨r, hr, hrOut, hsame⟩ :=
          hs.sameTask hmem (by rw [htaskInst, hinst]; exact hstamp) hout
        refine ⟨fun hout => ?_, htaskInst, r, hr, hrOut, hsame.id, hsame.tokenId, hsame.instanceId,
          hsame.elementId⟩
        rcases hout with hout | hout <;> cases hout
  have hruns : Job.Runs now (.cancel instanceId tasks k) state.inst.id .cancelInstance := by
    rw [hinst]
    exact .cancel
  exact .cycle hruns hoffers hok hadvances

/-- A forced step: the record was read after the state had been loaded. -/
theorem Job.changes_force {instanceId tokenId : Nat} {completedBy : String}
    {vars : Option Variables} {tasks : TaskOrder} {k : Circumstances} (hnow : now.Orderly)
    (hbelow : now.Below k.options.firstId)
    (h : Gives ((forceCycle tokenId completedBy vars tasks k).program definitions instanceId) seen
      (some txn)) (hpairs : seen.Pairwise Store.Onward) (honward : ∀ s ∈ seen, s.Onward now)
    (hnew : txn now = some new) :
    Job.Changes now new (.force instanceId tokenId completedBy vars tasks k) := by
  obtain ⟨loaded, rest, d, state, version, result, ops, rfl, hlands⟩ := Cycle.lands_of_gives h hnew
  have hloaded : ∀ x ∈ loaded, x.Onward now := fun x hx => honward x (List.mem_append_left _ hx)
  obtain ⟨hoffers, hinst⟩ := hlands.offers (List.pairwise_append.1 hpairs).1 hloaded
  have hok : execute d k.fuel (.completeUserTask tokenId completedBy vars) (some state) k.options =
    .ok result := hlands.executes
  obtain ⟨n, hn⟩ := hnow.sound
  have hrest := hoffers.resting (hn.of_below hbelow)
  obtain ⟨closed, hadvances⟩ :=
    hlands.advances (List.pairwise_append.1 hpairs).1 hloaded hnow hbelow
    fun closed hcloses => by
      obtain ⟨s, rfl, rfl⟩ := Reading.gives_ask hcloses
      have hstamp := hlands.stamp_eq hpairs honward (List.mem_singleton_self s)
      have hs := honward s (List.mem_append_right _ (List.mem_singleton_self s))
      cases hfound : (s.queryUserTasks tasks.order state.inst.id none).find? fun task =>
          task.tokenId = tokenId ∧ task.Outstanding with
      | none => exact ⟨closesOwn_nil, nofun⟩
      | some task =>
        have hmatch := List.find?_some hfound
        obtain ⟨hmem, htaskInst, -⟩ :=
          mem_queryUserTasks tasks.perm_order (List.mem_of_find?_eq_some hfound)
        simp only [decide_eq_true_eq] at hmatch
        obtain ⟨r, hr, hrOut, hsame⟩ :=
          hs.sameTask hmem (by rw [htaskInst, hinst]; exact hstamp) hmatch.2
        refine ⟨⟨List.nodup_singleton _, fun x hx => ?_⟩, fun x hx t ht htid => ?_⟩
        · rw [List.mem_singleton.1 hx]
          refine ⟨fun hout => ?_, htaskInst, r, hr, hrOut, hsame.id, hsame.tokenId,
            hsame.instanceId,
            hsame.elementId⟩
          rcases hout with hout | hout <;> cases hout
        · rw [List.mem_singleton.1 hx] at htid
          exact execute_ceased hrest (le_refl _) hok t ht (htid.trans hmatch.1)
  have hruns : Job.Runs now (.force instanceId tokenId completedBy vars tasks k) state.inst.id
      (.completeUserTask tokenId completedBy vars) := by
    rw [hinst]
    exact .force
  exact .cycle hruns hoffers hok hadvances

/-- The other cycles close no record. -/
theorem Job.changes_cycle {instanceId : Nat} {c : Cycle} {closes : c.caller.ClosesNothing}
    (hnow : now.Orderly) (hbelow : now.Below c.options.firstId)
    (h : Gives (c.program definitions instanceId) seen (some txn))
    (hpairs : seen.Pairwise Store.Onward) (honward : ∀ s ∈ seen, s.Onward now)
    (hnew : txn now = some new) : Job.Changes now new (.cycle instanceId c closes) := by
  obtain ⟨loaded, rest, d, state, version, result, ops, rfl, hlands⟩ := Cycle.lands_of_gives h hnew
  have hloaded : ∀ x ∈ loaded, x.Onward now := fun x hx => honward x (List.mem_append_left _ hx)
  obtain ⟨hoffers, hinst⟩ := hlands.offers (List.pairwise_append.1 hpairs).1 hloaded
  obtain ⟨closed, hadvances⟩ :=
    hlands.advances (List.pairwise_append.1 hpairs).1 hloaded hnow hbelow
    fun closed hcloses => by
      rw [closes.eq_nil hcloses]
      exact ⟨closesOwn_nil, nofun⟩
  have hruns : Job.Runs now (.cycle instanceId c closes) state.inst.id c.command := by
    rw [hinst]
    exact .cycle
  exact .cycle hruns hoffers hlands.executes hadvances

theorem Job.changes_start {d : ProcessDefinition} {vars : Option Variables}
    {correlationKey businessKey : Option String} {k : Circumstances}
    (hnow : now.Orderly) (hbelow : now.Below k.options.firstId)
    (h : Gives (startProgram d vars correlationKey businessKey k) seen (some txn))
    (hnew : txn now = some new) :
    Job.Changes now new (.start d vars correlationKey businessKey k) := by
  unfold startProgram at h
  split at h
  · cases (Reading.gives_done h).1
  · rename_i result hok
    cases (Reading.gives_done h).1
    exact .start (advances_start hnow hbelow hok (eq_ok_of_txn hnew))

/-- What a commit makes of the store, for every kind of job. -/
theorem Job.changes {C : Store → Job → List Store → Prop} {job : Job} (hnow : now.Orderly)
    (hC : C now job seen → job.HasNewIds now)
    (h : Shared.Commits (Job.program definitions) C Store.Onward now job seen txn new) :
    job.Changes now new := by
  have hpairs := (List.pairwise_append.1 h.onward).1
  have honward : ∀ s ∈ seen, s.Onward now := fun s hs => h.of_mem hs
  have hids := hC h.allowed
  have hgives := h.gives
  cases job with
  | start d vars correlationKey businessKey k =>
    exact changes_start hnow (hids _ rfl) hgives h.changes
  | claim taskId claimedBy time =>
    have hgives : Gives (rewriteProgram taskId (·.claimed claimedBy time)) seen (some txn) := hgives
    obtain ⟨old, task, hid, hrewritten⟩ := rewritten hgives
      (fun _ => ⟨rfl, rfl, rfl, rfl⟩) (fun _ => .inr rfl) honward h.changes
    exact .claim hid hrewritten
  | release taskId =>
    have hgives : Gives (rewriteProgram taskId (·.released)) seen (some txn) := hgives
    obtain ⟨old, task, hid, hrewritten⟩ := rewritten hgives
      (fun _ => ⟨rfl, rfl, rfl, rfl⟩) (fun _ => .inl rfl) honward h.changes
    exact .release hid hrewritten
  | complete taskId completedBy vars k =>
    exact changes_complete hnow (hids _ rfl) hgives hpairs honward h.changes
  | cancel instanceId tasks k =>
    exact changes_cancel hnow (hids _ rfl) hgives hpairs honward h.changes
  | force instanceId tokenId completedBy vars tasks k =>
    exact changes_force hnow (hids _ rfl) hgives hpairs honward h.changes
  | cycle instanceId c closes =>
    exact changes_cycle hnow (hids _ rfl) hgives hpairs honward h.changes

/-- Whatever jobs interleave, the store stays orderly and goes onward. -/
theorem jobs_kept {C : Store → Job → List Store → Prop}
    (hC : ∀ store job seen, C store job seen → job.HasNewIds store) :
    Shared.Kept (Job.program definitions) C Store.Orderly Store.Onward where
  refl := Store.Onward.refl
  trans h h' := h.trans h'
  commit hnow h := by
    have hchanges := Job.changes hnow (hC _ _ _) h
    exact ⟨hchanges.orderly hnow, hchanges.onward⟩

theorem orderly_empty : (∅ : Store).Orderly where
  sound := ⟨0, sound_empty⟩
  placed _ hr := absurd hr List.not_mem_nil
  settled _ hr := absurd hr List.not_mem_nil

end NexusWorkflow
