import NexusWorkflow.Model.Jobs
import NexusWorkflow.Model.Parser

/-!
# A tenant

The definitions of a tenant beside the store of the engine: the routes that deploy and delete
definitions (`http/definitions.ts`), and the jobs of the engine as they look definitions up.
-/

namespace NexusWorkflow

open Reading (ask)

/-- The primary key of `definitions`. -/
def ProcessDefinition.key (d : ProcessDefinition) : String × Nat := (d.id, d.version)

structure Tenant where
  store : Store
  definitions : KeyedMap ProcessDefinition.key
  /-- The definition that each instance was started with; no program reads it. -/
  startedWith : Nat → Option ProcessDefinition

instance : EmptyCollection Tenant := ⟨⟨∅, ∅, fun _ => none⟩⟩

namespace Tenant

variable (tenant : Tenant)

/-- `getDefinition(id, version)`. -/
def definition (id : String) (version : Nat) : Option ProcessDefinition :=
  tenant.definitions.get? (id, version)

/-- `getDefinition(id)`: the latest version. -/
def latest (id : String) : Option ProcessDefinition :=
  ((tenant.definitions.values.filter (·.id = id)).insertionSort
    fun d e => e.version ≤ d.version).head?

/-- An upsert: what has the same id and version is overwritten. -/
def saveDefinition (d : ProcessDefinition) : Tenant :=
  { tenant with definitions := tenant.definitions.set d }

/-- All versions are deleted. -/
def deleteDefinition (id : String) : Tenant :=
  { tenant with definitions := tenant.definitions.keep fun d => d.id ≠ id }

/-- The `total` of `findInstances`. -/
def total (definitionId : String) (status : InstanceStatus) : Nat :=
  (tenant.store.instances.values.filter fun row =>
    row.data.definitionId = definitionId ∧ row.data.status = status).length

/-- The store changes, and nothing else. -/
def setStore (store : Store) : Tenant := { tenant with store }

end Tenant

/-- What an instance is started with. -/
structure Opening where
  definition : ProcessDefinition
  vars : Option Variables
  correlationKey : Option String
  businessKey : Option String

/-- `StartProcess`, and the transaction for the new instance. -/
def Opening.transaction (opening : Opening) (k : Circumstances) : Option (Transaction Tenant) :=
  match execute opening.definition k.fuel
      (.startProcess opening.vars opening.correlationKey opening.businessKey) none k.options with
  | .error _ => none
  | .ok result => some fun tenant =>
      (tenant.store.executeTransaction (computeStoreOps true none none result.newState ++
        buildUserTaskCreationOps k.firstTaskId result.events opening.definition)).toOption.map
          fun store =>
            { tenant with
              store
              startedWith := Function.update tenant.startedWith result.newState.inst.id
                (some opening.definition) }

/-- A program on the store of a tenant. -/
def onStore (program : Reading Store (Option (Transaction Store))) :
    Reading Tenant (Option (Transaction Tenant)) := do
  let txn ← program.within Tenant.store
  pure (txn.map fun txn tenant => (txn tenant.store).map tenant.setStore)

inductive TenantJob where
  /-- `POST /definitions`, once the document is parsed as XML. -/
  | deploy (document : List XmlElement) (now : Time)
  /-- `DELETE /definitions/:id`; the order is that in which the three queries are answered. -/
  | deleteDefinition (id : String) (order : List InstanceStatus)
      (perm_order : order.Perm [.pending, .active, .suspended])
  /-- `POST /definitions/:definitionId/instances`. -/
  | startInstance (definitionId : String) (vars : Option Variables)
      (correlationKey businessKey : Option String) (k : Circumstances)
  /-- `POST /instances/:id/restart`. -/
  | restart (instanceId : Nat) (k : Circumstances)
  /-- `POST /tasks/:id/claim`. -/
  | claim (taskId : Nat) (claimedBy : String) (now : Time)
  /-- `POST /tasks/:id/release`. -/
  | release (taskId : Nat)
  /-- `POST /tasks/:id/complete`. -/
  | complete (taskId : Nat) (completedBy : String) (vars : Option Variables) (k : Circumstances)
  /-- All the others: they load an instance, execute a command on it and save the result. -/
  | cycle (instanceId : Nat) (c : Cycle)

namespace TenantJob

/-- The definition that a document is parsed to, whether it is valid or not. -/
def deployed (document : List XmlElement) (now : Time) : Option ProcessDefinition :=
  (parseBpmn document).toOption.map fun result => { result.definition with deployedAt := now }

/-- How many instances of the statuses there are, by a query for each. -/
def countInstances (definitionId : String) : List InstanceStatus → Reading Tenant Nat
  | [] => pure 0
  | status :: statuses => do
      let n ← ask fun tenant => tenant.total definitionId status
      let m ← countInstances definitionId statuses
      pure (n + m)

def deleteProgram (id : String) (order : List InstanceStatus) :
    Reading Tenant (Option (Transaction Tenant)) := do
  match ← ask fun tenant => tenant.latest id with
  | none => pure none
  | some _ =>
      let blockedCount ← countInstances id order
      pure (if blockedCount > 0 then none else some fun tenant => some (tenant.deleteDefinition id))

/-- What a start has read when it goes on. -/
def startReads (definitionId : String) (vars : Option Variables)
    (correlationKey businessKey : Option String) : Reading Tenant (Option Opening) := do
  let found ← ask fun tenant => tenant.latest definitionId
  pure ((found.filter (·.isDeployable)).map (⟨·, vars, correlationKey, businessKey⟩))

/-- What a restart has read when it goes on. -/
def restartReads (order : RowOrder) (instanceId : Nat) : Reading Tenant (Option Opening) := do
  match ← (loadEngineState order instanceId).within Tenant.store with
  | none => pure none
  | some (state, _) =>
      if state.inst.status = .terminated then
        match ← ask fun tenant =>
            tenant.definition state.inst.definitionId state.inst.definitionVersion with
        | none => pure none
        | some d =>
            let root ← ask fun tenant => tenant.store.getScope state.inst.rootScopeId
            pure (some ⟨d, (root.map (·.vars)).filter (!·.values.isEmpty),
              state.inst.correlationKey,
              state.inst.businessKey⟩)
      else pure none

def openProgram (reads : Reading Tenant (Option Opening)) (k : Circumstances) :
    Reading Tenant (Option (Transaction Tenant)) := do
  let opening ← reads
  pure (opening.bind (·.transaction k))

/-- What a cycle has read when it executes its command. -/
def cycleReads (order : RowOrder) (instanceId : Nat) :
    Reading Tenant (Option (EngineState × Nat × ProcessDefinition)) := do
  match ← (loadEngineState order instanceId).within Tenant.store with
  | none => pure none
  | some (state, version) =>
      let found ← ask fun tenant =>
        tenant.definition state.inst.definitionId state.inst.definitionVersion
      pure (found.map (state, version, ·))

def cycleProgram (instanceId : Nat) (c : Cycle) : Reading Tenant (Option (Transaction Tenant)) := do
  match ← cycleReads c.order instanceId with
  | none => pure none
  | some (state, version, d) => onStore do
      let ops ← c.storeOps (fun _ _ => some d) state version
      pure (ops.map fun ops store => (store.executeTransaction ops).toOption)

def completeProgram (taskId : Nat) (completedBy : String) (vars : Option Variables)
    (k : Circumstances) : Reading Tenant (Option (Transaction Tenant)) := do
  match ← ask fun tenant => tenant.store.userTasks.get? taskId with
  | none => pure none
  | some task =>
      if task.status = .completed ∨ task.status = .cancelled then pure none
      else cycleProgram task.instanceId (Job.completeCycle task completedBy vars k)

def program : TenantJob → Program Tenant
  | deploy document now =>
      .done ((deployed document now).map fun d tenant => some (tenant.saveDefinition d))
  | deleteDefinition id order _ => deleteProgram id order
  | startInstance definitionId vars correlationKey businessKey k =>
      openProgram (startReads definitionId vars correlationKey businessKey) k
  | restart instanceId k => openProgram (restartReads k.order instanceId) k
  | claim taskId claimedBy now => onStore (Job.rewriteProgram taskId (·.claimed claimedBy now))
  | release taskId => onStore (Job.rewriteProgram taskId (·.released))
  | complete taskId completedBy vars k => completeProgram taskId completedBy vars k
  | cycle instanceId c => cycleProgram instanceId c

end TenantJob

end NexusWorkflow
