import NexusWorkflow.Game.Ownership
import NexusWorkflow.Model.Tenant
import NexusWorkflow.Proof.FinalStatus
import NexusWorkflow.Proof.Onward
import NexusWorkflow.Proof.ServiceKeys

/-!
# The definitions of running instances

An instance carries the id and the version of the definition it was started with, and every command
looks the definition up again.  The parser gives every definition version 1, so a deployment
overwrites what was deployed before under its id; a deletion looks for running instances before it
deletes, and a start reads the definition before it inserts the instance.
-/

namespace NexusWorkflow

open Reading (Gives)

/-! ## Pinned definitions -/

namespace Tenant

/-- Under the id and the version of the instance there is the definition that it was started
with. -/
def Pins (tenant : Tenant) (row : InstanceRow) : Prop :=
  ∃ d, tenant.startedWith row.data.id = some d ∧
    tenant.definition row.data.definitionId row.data.definitionVersion = some d

/-- So it is for all instances that have not ended. -/
def Pinned (tenant : Tenant) : Prop :=
  ∀ row ∈ tenant.store.instances.values, row.data.status.terminal = false → tenant.Pins row

/-- An instance of this definition, or of another one with its id and version, has not ended. -/
def Runs (tenant : Tenant) (d : ProcessDefinition) : Prop :=
  ∃ row ∈ tenant.store.instances.values, row.data.status.terminal = false ∧
    (row.data.definitionId, row.data.definitionVersion) = d.key

/-- An instance of some version has not ended. -/
def RunsAny (tenant : Tenant) (definitionId : String) : Prop :=
  ∃ row ∈ tenant.store.instances.values, row.data.status.terminal = false ∧
    row.data.definitionId = definitionId

instance (tenant : Tenant) (d : ProcessDefinition) : Decidable (tenant.Runs d) :=
  inferInstanceAs (Decidable (∃ row ∈ _, _))

instance (tenant : Tenant) (definitionId : String) : Decidable (tenant.RunsAny definitionId) :=
  inferInstanceAs (Decidable (∃ row ∈ _, _))

/-- What instances are and what they were started with, as far as it is settled: versions only grow,
and what an instance is changes only together with its version. -/
structure Onward (t t' : Tenant) : Prop where
  stamp : ∀ i, t.store.stamp i ≤ t'.store.stamp i
  row : ∀ i, t.store.stamp i = t'.store.stamp i →
    t.store.instances.get? i = t'.store.instances.get? i

namespace Onward

variable {t t' t'' : Tenant}

theorem of_instances (h : t'.store.instances = t.store.instances) : t.Onward t' where
  stamp i := by
    unfold Store.stamp
    rw [h]
  row i _ := by rw [h]

/-- A row is written at a higher version. -/
theorem of_set {row : InstanceRow} (h : t'.store.instances = t.store.instances.set row)
    (hlt : t.store.stamp row.data.id < row.version + 1) : t.Onward t' := by
  have hnew : t'.store.stamp row.data.id = row.version + 1 := by
    have hget : (t.store.instances.set row).get? row.data.id = some row :=
        KeyedMap.get?_set_self _ _
    rw [Store.stamp, h, hget]
    rfl
  constructor
  · intro i
    by_cases hi : i = row.data.id
    · rw [hi, hnew]
      exact hlt.le
    · exact (stamp_set hi h).ge
  · intro i heq
    by_cases hi : i = row.data.id
    · rw [hi, hnew] at heq
      omega
    · rw [h, KeyedMap.get?_set_of_ne]
      exact fun hid => hi hid.symm

theorem trans (h : t.Onward t') (h' : t'.Onward t'') : t.Onward t'' where
  stamp i := (h.stamp i).trans (h'.stamp i)
  row i heq := by
    have h₁ := h.stamp i
    have h₂ := h'.stamp i
    exact (h.row i (by omega)).trans (h'.row i (by omega))

end Onward

end Tenant

/-- A task fails and no error boundary event catches the failure. -/
def EngineCommand.FailsUncaught (d : ProcessDefinition) (state : EngineState) : EngineCommand → Prop
  | .failServiceTask id code _ =>
      ∀ t ∈ state.token? id, (d.findMatchingErrorBoundary t.elementId code).isSome = false
  | _ => False

/-- A commit leaves the definitions of running instances alone: a deployment overwrites none of
them, and a deletion deletes none; a start or a restart commits while the definition that it has
read is stored; and a failed task that takes an instance back from its end finds the definition that
the instance was started with. -/
def leavesPinned (tenant : Tenant) : TenantJob → List Tenant → Prop
  | .deploy document now, _ => ∀ d, TenantJob.deployed document now = some d → tenant.Runs d →
      tenant.definition d.id d.version = some d
  | .deleteDefinition id _ _, _ => ¬ tenant.RunsAny id
  | .startInstance definitionId vars correlationKey businessKey _, seen => ∀ opening,
      Gives (TenantJob.startReads definitionId vars correlationKey businessKey) seen
        (some opening) →
        tenant.definition opening.definition.id opening.definition.version = some opening.definition
  | .restart instanceId k, seen => ∀ opening,
      Gives (TenantJob.restartReads k.order instanceId) seen (some opening) →
        tenant.definition opening.definition.id opening.definition.version = some opening.definition
  | .cycle instanceId c, seen => ∀ read more state version d, seen = read ++ more →
      Gives (TenantJob.cycleReads c.order instanceId) read (some (state, version, d)) →
        state.inst.status.terminal = true → c.command.FailsUncaught d state →
          ∀ row ∈ tenant.store.instances.values, row.data.id = instanceId → tenant.Pins row
  | .claim _ _ _, _ | .release _, _ | .complete _ _ _ _, _ => True

/-! ## What commits change -/

variable {tenant tenant' : Tenant} {d : ProcessDefinition} {state : EngineState}
    {result : EngineResult}

/-- What a commit makes of the instances and the definitions. -/
inductive TenantChange (tenant tenant' : Tenant) : Prop
  | deploys {d : ProcessDefinition}
      (hallowed : tenant.Runs d → tenant.definition d.id d.version = some d)
      (heq : tenant' = tenant.saveDefinition d)
  | deletes {id : String} (hallowed : ¬ tenant.RunsAny id)
      (heq : tenant' = tenant.deleteDefinition id)
  | opens {d : ProcessDefinition} {inst : ProcessInstance}
      (hallowed : tenant.definition d.id d.version = some d)
      (hdefinition : (inst.definitionId, inst.definitionVersion) = d.key)
      (hnew : tenant.store.instances.get? inst.id = none)
      (hinstances : tenant'.store.instances = tenant.store.instances.set ⟨inst, 1⟩)
      (hdefinitions : tenant'.definitions = tenant.definitions)
      (hstarted : tenant'.startedWith = Function.update tenant.startedWith inst.id (some d))
  | proceeds {row : InstanceRow} {inst : ProcessInstance}
      (hrow : row ∈ tenant.store.instances.values) (hcore : inst.core = row.data.core)
      (hallowed : inst.status.terminal = false → row.data.status.terminal = false ∨ tenant.Pins row)
      (hinstances : tenant'.store.instances = tenant.store.instances.set ⟨inst, row.version + 1⟩)
      (hdefinitions : tenant'.definitions = tenant.definitions)
      (hstarted : tenant'.startedWith = tenant.startedWith)
  | spares (hinstances : tenant'.store.instances = tenant.store.instances)
      (hdefinitions : tenant'.definitions = tenant.definitions)
      (hstarted : tenant'.startedWith = tenant.startedWith)

namespace Tenant.Pins

variable {row row' : InstanceRow}

/-- The definition of an instance is looked up under what does not change. -/
theorem of_core (h : tenant.Pins row) (hcore : row'.data.core = row.data.core) :
    tenant.Pins row' := by
  obtain ⟨d, hstarted, hdefinition⟩ := h
  have hid : row'.data.core.id = row.data.core.id := by rw [hcore]
  have hdefinitionId : row'.data.core.definitionId = row.data.core.definitionId := by rw [hcore]
  have hversion : row'.data.core.definitionVersion = row.data.core.definitionVersion := by
      rw [hcore]
  have hid : row'.data.id = row.data.id := hid
  have hdefinitionId : row'.data.definitionId = row.data.definitionId := hdefinitionId
  have hversion : row'.data.definitionVersion = row.data.definitionVersion := hversion
  exact ⟨d, by rw [hid, hstarted], by rw [hdefinitionId, hversion, hdefinition]⟩

/-- Nothing has changed that the instance depends on. -/
theorem congr (h : tenant.Pins row) (hdefinitions : tenant'.definitions = tenant.definitions)
    (hstarted : tenant'.startedWith row.data.id = tenant.startedWith row.data.id) :
    tenant'.Pins row := by
  obtain ⟨d, hwith, hdefinition⟩ := h
  refine ⟨d, hstarted.trans hwith, ?_⟩
  unfold Tenant.definition at hdefinition ⊢
  rwa [hdefinitions]

/-- A deployment that overwrites nothing that runs. -/
theorem saveDefinition (h : tenant.Pins row)
    (hsame : (row.data.definitionId, row.data.definitionVersion) = d.key →
      tenant.definition d.id d.version = some d) : (tenant.saveDefinition d).Pins row := by
  obtain ⟨e, hwith, hdefinition⟩ := h
  refine ⟨e, hwith, ?_⟩
  show (tenant.definitions.set d).get? _ = some e
  by_cases hkey : (row.data.definitionId, row.data.definitionVersion) = d.key
  · have hd : tenant.definitions.get? d.key = some d := hsame hkey
    have he : tenant.definitions.get? (row.data.definitionId, row.data.definitionVersion) =
        some e :=
      hdefinition
    rw [hkey] at he ⊢
    rw [KeyedMap.get?_set_self, ← Option.some.inj (hd.symm.trans he)]
  · rw [KeyedMap.get?_set_of_ne _ (Ne.symm hkey)]
    exact hdefinition

/-- A deletion of another definition. -/
theorem deleteDefinition (h : tenant.Pins row) {id : String} (hne : row.data.definitionId ≠ id) :
    (tenant.deleteDefinition id).Pins row := by
  obtain ⟨e, hwith, hdefinition⟩ := h
  have hid : e.id = row.data.definitionId := congrArg Prod.fst (KeyedMap.key_of_get? hdefinition)
  exact ⟨e, hwith, KeyedMap.get?_keep hdefinition (by simpa [hid] using hne)⟩

end Tenant.Pins

namespace TenantChange

theorem onward (h : TenantChange tenant tenant') : tenant.Onward tenant' := by
  cases h with
  | deploys _ heq | deletes _ heq =>
    subst heq
    exact .of_instances rfl
  | spares hinstances => exact .of_instances hinstances
  | @opens d inst _ _ hnew hinstances =>
    refine .of_set hinstances ?_
    simp [Store.stamp, hnew]
  | @proceeds row inst hrow hcore _ hinstances =>
    have hid : row.id = inst.id := (congrArg ProcessInstance.id hcore).symm
    have hget : tenant.store.instances.get? inst.id = some row := hid ▸ KeyedMap.get?_of_mem hrow
    refine .of_set hinstances ?_
    simp [Store.stamp, hget]

/-- Every change leaves the definitions of running instances pinned. -/
theorem pinned (h : TenantChange tenant tenant') (hpinned : tenant.Pinned) : tenant'.Pinned := by
  intro row hrow hlive
  cases h with
  | deploys hallowed heq =>
    subst heq
    exact (hpinned row hrow hlive).saveDefinition fun hkey => hallowed ⟨row, hrow, hlive, hkey⟩
  | deletes hallowed heq =>
    subst heq
    exact (hpinned row hrow hlive).deleteDefinition fun hid => hallowed ⟨row, hrow, hlive, hid⟩
  | @opens d inst hallowed hdefinition hnew hinstances hdefinitions hstarted =>
    rw [hinstances] at hrow
    rcases KeyedMap.mem_set.1 hrow with rfl | ⟨hrow, hne⟩
    · refine ⟨d, by rw [hstarted, Function.update_self], ?_⟩
      unfold Tenant.definition at hallowed ⊢
      rw [hdefinitions, hdefinition]
      exact hallowed
    · refine (hpinned row hrow hlive).congr hdefinitions ?_
      rw [hstarted, Function.update_of_ne]
      exact hne
  | @proceeds before inst hbefore hcore hallowed hinstances hdefinitions hstarted =>
    rw [hinstances] at hrow
    rcases KeyedMap.mem_set.1 hrow with rfl | ⟨hrow, -⟩
    · have hpins : tenant.Pins before := (hallowed hlive).elim (hpinned before hbefore) id
      exact (hpins.of_core hcore).congr hdefinitions (by rw [hstarted])
    · exact (hpinned row hrow hlive).congr hdefinitions (by rw [hstarted])
  | spares hinstances hdefinitions hstarted =>
    rw [hinstances] at hrow
    exact (hpinned row hrow hlive).congr hdefinitions (by rw [hstarted])

end TenantChange

/-! ## Commits -/

/-- A new instance carries the id and the version of its definition. -/
theorem execute_start_definition {fuel : Nat} {vars : Option Variables}
    {correlationKey businessKey : Option String} {options : ExecuteOptions}
    (h : execute d fuel (.startProcess vars correlationKey businessKey) none options = .ok result) :
    (result.newState.inst.definitionId, result.newState.inst.definitionVersion) = d.key := by
  unfold execute at h
  obtain ⟨mid, hmid, h⟩ := Except.bind_eq_ok_iff.1 h
  obtain ⟨ctx, hctx, h⟩ := Except.bind_eq_ok_iff.1 h
  unfold ExecutionContext.toResult at h
  obtain ⟨inst, hinst, h⟩ := Except.bind_eq_ok_iff.1 h
  obtain ⟨-, hqueued, -⟩ := handleStartProcess_tidy hmid
  have hcore := (runLoop_effects trivial hqueued hctx).core
  have hmid : handleStartProcess d _ _ _ _ = .ok mid := hmid
  unfold handleStartProcess at hmid
  obtain ⟨element, -, hmid⟩ := Except.bind_eq_ok_iff.1 hmid
  rw [← Except.ok.inj hmid, requireInstance_eq hinst] at hcore
  rw [← Except.ok.inj h]
  have hcore := Option.some.inj hcore
  exact Prod.ext (congrArg ProcessInstance.definitionId hcore)
    (congrArg ProcessInstance.definitionVersion hcore)

/-- Only a failed task takes an instance back from its end. -/
theorem terminal_of_execute {command : EngineCommand} {fuel : Nat} {options : ExecuteOptions}
    (hgoes : command.goesOn) (h : execute d fuel command (some state) options = .ok result)
    (hterminal : state.inst.status.terminal = true) :
    result.newState.inst.status.terminal = true ∨ command.FailsUncaught d state := by
  have hsame : command.gives d state = none → result.newState.inst.status.terminal = true := by
    intro hgives
    rcases (execute_given hgoes h).2 with heq | heq
    · rw [heq, hgives]
      exact hterminal
    · rw [heq]
      rfl
  have hnot := (terminal_ne hterminal).2
  cases command with
  | startProcess _ _ _ => cases hgoes
  | completeServiceTask _ _ | completeUserTask _ _ _ | fireTimer _ =>
    exact .inl (hsame (by simp [EngineCommand.gives, hnot]))
  | deliverMessage _ _ | broadcastSignal _ _ => exact .inl (hsame rfl)
  | suspendInstance => exact absurd h (terminal_refuses hterminal (.inl rfl))
  | resumeInstance => exact absurd h (terminal_refuses hterminal (.inr rfl))
  | cancelInstance =>
    rcases (execute_given hgoes h).2 with heq | heq <;> rw [heq] <;> exact .inl rfl
  | failServiceTask id code message =>
    by_cases hcaught : (state.token? id).any fun t =>
        (d.findMatchingErrorBoundary t.elementId code).isSome
    · exact .inl (hsame (if_pos hcaught))
    · refine .inr fun t ht => ?_
      rw [Option.mem_def.1 ht, Option.any_some] at hcaught
      simpa using hcaught

variable {seen : List Tenant} {txn : Transaction Tenant}

theorem onStore_gives {program : Reading Store (Option (Transaction Store))}
    (h : Gives (onStore program) seen (some txn)) (hnew : txn tenant = some tenant') :
    ∃ txn' store, Gives program (seen.map Tenant.store) (some txn') ∧
      txn' tenant.store = some store ∧ tenant' = tenant.setStore store := by
  obtain ⟨first, rest, found, rfl, hfound, h⟩ := Reading.gives_bind h
  obtain ⟨heq, rfl⟩ := Reading.gives_done h
  obtain ⟨txn', rfl, rfl⟩ := Option.map_eq_some_iff.1 heq.symm
  obtain ⟨store, hstore, rfl⟩ := Option.map_eq_some_iff.1 hnew
  rw [List.append_nil]
  exact ⟨txn', store, Reading.gives_within hfound, hstore, rfl⟩

/-- A record of a task is written. -/
theorem change_rewrite {taskId : Nat} {change : UserTaskRecord → UserTaskRecord}
    (h : Gives (onStore (Job.rewriteProgram taskId change)) seen (some txn))
    (hnew : txn tenant = some tenant') : TenantChange tenant tenant' := by
  obtain ⟨txn', store, hgives, hstore, rfl⟩ := onStore_gives h hnew
  obtain ⟨first, rest, found, -, -, hgives⟩ := Reading.gives_bind hgives
  cases found with
  | none => cases (Reading.gives_done hgives).1
  | some task =>
    cases (Reading.gives_done hgives).1
    refine .spares (executeTransaction_instances ?_ (eq_ok_of_txn hstore)) rfl rfl
    simp [StoreOperation.sparesInstances]

/-- An instance is inserted. -/
theorem change_open {reads : Reading Tenant (Option Opening)} {k : Circumstances}
    (h : Gives (TenantJob.openProgram reads k) seen (some txn)) (hnew : txn tenant = some tenant')
    (hallowed : ∀ opening, Gives reads seen (some opening) →
      tenant.definition opening.definition.id opening.definition.version =
        some opening.definition) :
    TenantChange tenant tenant' := by
  obtain ⟨first, rest, found, rfl, hfound, h⟩ := Reading.gives_bind h
  obtain ⟨heq, rfl⟩ := Reading.gives_done h
  obtain ⟨opening, rfl, htransaction⟩ := Option.bind_eq_some_iff.1 heq.symm
  unfold Opening.transaction at htransaction
  split at htransaction
  · cases htransaction
  · rename_i result hok
    cases htransaction
    obtain ⟨store, hstore, rfl⟩ := Option.map_eq_some_iff.1 hnew
    obtain ⟨hinstances, hnone⟩ := instances_start (eq_ok_of_txn hstore)
    exact .opens (hallowed opening (by rwa [List.append_nil])) (execute_start_definition hok) hnone
      hinstances rfl rfl

/-- A command is executed on an instance; when the instance had ended, then it still has its
definition or the command does not take it back. -/
theorem change_cycle {instanceId : Nat} {c : Cycle}
    (h : Gives (TenantJob.cycleProgram instanceId c) seen (some txn))
    (hnew : txn tenant = some tenant') (honward : ∀ t ∈ seen, t.Onward tenant)
    (hallowed : ∀ read more state version d, seen = read ++ more →
      Gives (TenantJob.cycleReads c.order instanceId) read (some (state, version, d)) →
        state.inst.status.terminal = true → c.command.FailsUncaught d state →
          ∀ row ∈ tenant.store.instances.values, row.data.id = instanceId → tenant.Pins row) :
    TenantChange tenant tenant' := by
  obtain ⟨read, more, found, rfl, hread, h⟩ := Reading.gives_bind h
  cases found with
  | none => cases (Reading.gives_done h).1
  | some found =>
    obtain ⟨state, version, d⟩ := found
    have hback := hallowed read more state version d rfl hread
    obtain ⟨txn', store, hgives, hstore, rfl⟩ := onStore_gives h hnew
    obtain ⟨rest, rest', ops, hmore, hplan, hgives⟩ := Reading.gives_bind hgives
    obtain ⟨hops, rfl⟩ := Reading.gives_done hgives
    obtain ⟨ops, rfl, rfl⟩ := Option.map_eq_some_iff.1 hops.symm
    obtain ⟨loaded, asked, found, rfl, hloaded, hread⟩ := Reading.gives_bind hread
    cases found with
    | none => cases (Reading.gives_done hread).1
    | some found =>
      obtain ⟨state', version'⟩ := found
      obtain ⟨asked₁, asked₂, found, rfl, -, hread⟩ := Reading.gives_bind hread
      obtain ⟨heq, rfl⟩ := Reading.gives_done hread
      obtain ⟨d', -, heq⟩ := Option.map_eq_some_iff.1 heq.symm
      cases heq
      have hloads := Reading.gives_within hloaded
      obtain ⟨d'', result, hlands⟩ := Cycle.lands_of_storeOps hloads hplan (eq_ok_of_txn hstore)
      obtain rfl : d = d'' := Option.some.inj hlands.finds
      have hbefore : ∀ t ∈ loaded, t.Onward tenant := fun t ht => honward t (by simp [ht])
      have hle : ∀ s ∈ loaded.map Tenant.store,
          s.stamp instanceId ≤ tenant.store.stamp instanceId := by
        intro s hs
        obtain ⟨t, ht, rfl⟩ := List.mem_map.1 hs
        exact (hbefore t ht).stamp instanceId
      obtain ⟨row, hrow, hid, hcore, -, hinstances⟩ := hlands.instances_eq hle
      -- the row is still the one that was read first
      have hsame : state.inst = reviveInstance row.data := by
        obtain ⟨first, later, hfirst, hget, -⟩ := loadEngineState_gives hloads
        obtain ⟨t, ht, rfl⟩ := List.mem_map.1
          (hfirst ▸ List.mem_cons_self : first ∈ loaded.map Tenant.store)
        have hstamp := (getInstance_eq hget).2
        have hnow := (hlands.stamps hle).1
        obtain ⟨row', hrow', heq⟩ := Option.map_eq_some_iff.1 hget
        obtain ⟨hinst, -⟩ := Prod.mk.inj heq
        rw [(hbefore t ht).row instanceId (by omega)] at hrow'
        obtain ⟨hrow', hid'⟩ := KeyedMap.get?_eq_some_iff.1 hrow'
        rw [← hinst, KeyedMap.eq_of_key_eq hrow' hrow (hid'.trans hid.symm)]
      refine .proceeds hrow ?_ (fun hlive => ?_) hinstances rfl rfl
      · rw [hcore, hsame]
        rfl
      · cases hterminal : row.data.status.terminal with
        | false => exact .inl rfl
        | true =>
          have hstate : state.inst.status.terminal = true := by
            rw [hsame]
            exact hterminal
          rcases terminal_of_execute c.goesOn hlands.executes hstate with hend | hfails
          · rw [hend] at hlive
            cases hlive
          · exact .inr (hback hstate hfails row hrow hid)

/-- What every job that leaves the definitions pinned commits. -/
theorem TenantJob.change {job : TenantJob}
    (h : Shared.Commits TenantJob.program leavesPinned Tenant.Onward tenant job seen txn tenant') :
    TenantChange tenant tenant' := by
  have hallowed := h.allowed
  have hgives := h.gives
  have honward : ∀ t ∈ seen, t.Onward tenant := fun t ht => h.of_mem ht
  cases job with
  | deploy document now =>
    obtain ⟨d, hd, htxn⟩ := Option.map_eq_some_iff.1 (Reading.gives_done hgives).1.symm
    have hnew := h.changes
    rw [← htxn] at hnew
    exact .deploys (hallowed d hd) (Option.some.inj hnew).symm
  | deleteDefinition id order perm =>
    have hgives : Gives (deleteProgram id order) seen (some txn) := hgives
    obtain ⟨first, rest, found, -, -, hgives⟩ := Reading.gives_bind hgives
    cases found with
    | none => cases (Reading.gives_done hgives).1
    | some d =>
      obtain ⟨counted, rest, n, -, -, hgives⟩ := Reading.gives_bind hgives
      have htxn := (Reading.gives_done hgives).1
      split at htxn
      · cases htxn
      · have hnew := h.changes
        rw [Option.some.inj htxn] at hnew
        exact .deletes hallowed (Option.some.inj hnew).symm
  | startInstance definitionId vars correlationKey businessKey k =>
    exact change_open hgives h.changes hallowed
  | restart instanceId k => exact change_open hgives h.changes hallowed
  | claim taskId claimedBy now => exact change_rewrite hgives h.changes
  | release taskId => exact change_rewrite hgives h.changes
  | complete taskId completedBy vars k =>
    have hgives : Gives (completeProgram taskId completedBy vars k) seen (some txn) := hgives
    obtain ⟨first, rest, found, rfl, -, hgives⟩ := Reading.gives_bind hgives
    cases found with
    | none => cases (Reading.gives_done hgives).1
    | some task =>
      have hgives : Gives (if _ then _ else _) rest (some txn) := hgives
      split at hgives
      · cases (Reading.gives_done hgives).1
      · exact change_cycle hgives h.changes (fun t ht => honward t (List.mem_append_right _ ht))
          fun _ _ _ _ _ _ _ _ hfails => hfails.elim
  | cycle instanceId c => exact change_cycle hgives h.changes honward hallowed

theorem tenant_kept :
    Shared.Kept TenantJob.program leavesPinned Tenant.Pinned Tenant.Onward where
  refl _ := .of_instances rfl
  trans h h' := h.trans h'
  commit hpinned h := ⟨(TenantJob.change h).pinned hpinned, (TenantJob.change h).onward⟩

/-! ## Runs -/

variable {ι : Type} [DecidableEq ι]

/-- However deployments, deletions, starts, restarts and steps of instances interleave: as long as
all commits leave the definitions of running instances alone, every instance that has not ended has
the very definition that it was started with. -/
theorem instances_pinned {S : Shared ι TenantJob Tenant}
    (hrun : Shared.Leads TenantJob.program leavesPinned (Shared.fresh ∅) S) : S.state.Pinned :=
  (hrun.kept tenant_kept (.fresh fun _ hrow => absurd hrow List.not_mem_nil)).1.state

/-! ## One job after the other -/

/-- The condition for jobs that are not interrupted: starts and restarts always meet it. -/
def TenantJob.LeavesAlone (tenant : Tenant) : TenantJob → Prop
  | .deploy document now => ∀ d ∈ deployed document now, ¬ tenant.Runs d
  | .deleteDefinition id _ _ => ¬ tenant.RunsAny id
  | .cycle _ _ => False
  | _ => True

instance (tenant : Tenant) (job : TenantJob) : Decidable (job.LeavesAlone tenant) := by
  unfold TenantJob.LeavesAlone
  split <;> infer_instance

theorem Tenant.definition_of_mem (h : d ∈ tenant.definitions.values) :
    tenant.definition d.id d.version = some d :=
  KeyedMap.get?_of_mem h

theorem Tenant.mem_of_latest {id : String} (h : tenant.latest id = some d) :
    d ∈ tenant.definitions.values := by
  have hmem := (List.perm_insertionSort _ _).subset (List.mem_of_head? h)
  exact (List.mem_filter.1 hmem).1

theorem leavesPinned_of_leavesAlone {job : TenantJob} (hseen : ∀ t ∈ seen, t = tenant)
    (h : job.LeavesAlone tenant) : leavesPinned tenant job seen := by
  cases job with
  | deploy document now => exact fun d hd hruns => absurd hruns (h d hd)
  | deleteDefinition id order perm => exact h
  | startInstance definitionId vars correlationKey businessKey k =>
    intro opening hreads
    have halone := hreads.alone hseen
    unfold TenantJob.startReads at halone
    rw [Reading.alone_bind, Reading.alone_ask, Reading.alone_pure] at halone
    obtain ⟨d, hd, rfl⟩ := Option.map_eq_some_iff.1 halone
    exact Tenant.definition_of_mem (Tenant.mem_of_latest (Option.filter_eq_some_iff.1 hd).1)
  | restart instanceId k =>
    intro opening hreads
    obtain ⟨loaded, rest, found, rfl, -, hreads⟩ := Reading.gives_bind hreads
    cases found with
    | none => cases (Reading.gives_done hreads).1
    | some found =>
      have hreads : Gives (if _ then _ else _) rest (some opening) := hreads
      split at hreads
      · obtain ⟨asked, rest, found, rfl, hasked, hreads⟩ := Reading.gives_bind hreads
        obtain ⟨t, rfl, rfl⟩ := Reading.gives_ask hasked
        obtain rfl := hseen t (by simp)
        split at hreads
        · cases (Reading.gives_done hreads).1
        · rename_i d hd
          obtain ⟨first, more, root, rfl, -, hreads⟩ := Reading.gives_bind hreads
          cases (Reading.gives_done hreads).1
          exact Tenant.definition_of_mem (KeyedMap.mem_of_get? hd)
      · cases (Reading.gives_done hreads).1
  | claim _ _ _ | release _ | complete _ _ _ _ => trivial
  | cycle _ _ => exact h.elim

open Diagram

/-- A user task between a start and an end event. -/
def taskDocument (taskId : String) : List XmlElement :=
  [tag "definitions" [] [tag "process" [("id", "process")]
    [tag "startEvent" [("id", "start")] [outgoing "toTask"],
      tag "userTask" [("id", taskId)] [incoming "toTask", outgoing "toEnd"],
      tag "endEvent" [("id", "end")] [incoming "toEnd"], flowTag "toTask" "start" taskId,
      flowTag "toEnd" taskId "end"]]]

def startJob (n : Nat) : TenantJob :=
  .startInstance "process" none none none (circumstances n)

/-- A process is deployed, overwritten before it is started, and started; its instance has the
definition that it was started with. -/
theorem instances_pinned_task : ∃ S : Shared Bool TenantJob Tenant,
    Shared.Leads TenantJob.program leavesPinned (Shared.fresh ∅) S ∧
      (∃ row ∈ S.state.store.instances.values, row.data.status.terminal = false) ∧
      S.state.Pinned := by
  have hruns : (Shared.performs TenantJob.program TenantJob.LeavesAlone
      [.deploy (taskDocument "check") 0, .deploy (taskDocument "ask") 1, startJob 0] ∅).any
        (fun tenant =>
        tenant.store.instances.values.any fun row => !row.data.status.terminal) = true := by
    decide +kernel
  obtain ⟨tenant, htenant, hlive⟩ := (Option.any_eq_true ..).1 hruns
  obtain ⟨row, hrow, hlive⟩ := List.any_eq_true.1 hlive
  have hrun : Shared.Leads TenantJob.program leavesPinned
      (Shared.fresh ∅ : Shared Bool TenantJob Tenant)
      ⟨tenant, fun _ => none,
        [.deploy (taskDocument "check") 0, .deploy (taskDocument "ask") 1, startJob 0]⟩ :=
    Shared.Leads.performs (fun _ _ _ => leavesPinned_of_leavesAlone) _ .refl htenant
  exact ⟨_, hrun, ⟨row, hrow, by simpa using hlive⟩, instances_pinned hrun⟩

/-- The elements that the instance was started with are not those that it finds. -/
def Tenant.differs (tenant : Tenant) (row : InstanceRow) : Bool :=
  (tenant.startedWith row.data.id).any fun d =>
    (tenant.definition row.data.definitionId row.data.definitionVersion).any fun e =>
      d.elements.map (·.id) ≠ e.elements.map (·.id)

theorem Tenant.not_pins_of_differs {row : InstanceRow} (h : tenant.differs row = true) :
    ¬ tenant.Pins row := by
  rintro ⟨d, hstarted, hdefinition⟩
  simp [Tenant.differs, hstarted, hdefinition] at h

/-- The process is deployed again with another task while an instance runs: the instance gets the
new definition, which lacks the element that its token is at. -/
theorem not_instances_pinned_redeployed : ¬ ∀ S : Shared Bool TenantJob Tenant,
    Shared.Leads TenantJob.program (fun _ _ _ => True) (Shared.fresh ∅) S → S.state.Pinned := by
  intro h
  have hruns : (Shared.performs TenantJob.program (fun _ _ => True)
      [.deploy (taskDocument "ask") 0, startJob 0, .deploy (taskDocument "check") 1] ∅).any
        (fun tenant =>
        tenant.store.instances.values.any fun row =>
          !row.data.status.terminal && tenant.differs row) = true := by
    decide +kernel
  obtain ⟨tenant, htenant, hbad⟩ := (Option.any_eq_true ..).1 hruns
  obtain ⟨row, hrow, hbad⟩ := List.any_eq_true.1 hbad
  obtain ⟨hlive, hdiffers⟩ := Bool.and_eq_true_iff.1 hbad
  have hpinned := h _ (Shared.Leads.performs (fun _ _ _ _ _ => trivial) _ .refl htenant)
  exact Tenant.not_pins_of_differs hdiffers (hpinned row hrow (by simpa using hlive))

end NexusWorkflow
