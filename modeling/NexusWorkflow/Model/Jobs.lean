import NexusWorkflow.Lib.Interleaving
import NexusWorkflow.Model.Http

/-!
# Jobs

What actors do with the store while other actors do the same: each job reads the store query by
query and ends in at most one transaction.  (`Model.Http` has the requests as they run when no other
one comes between.)
-/

namespace NexusWorkflow

/-- An order in which `queryUserTasks` may return its records. -/
structure TaskOrder where
  order : List UserTaskRecord → List UserTaskRecord
  perm_order : ∀ rows, (order rows).Perm rows

/-- The caller closes no record of a user task. -/
inductive Caller.ClosesNothing : Caller → Prop
  | request : ClosesNothing (.request closesNothing)
  | worker : ClosesNothing .worker
  | timer : ClosesNothing .timer

inductive Job where
  /-- `POST /definitions/:definitionId/instances`, and the restart of an instance. -/
  | start (d : ProcessDefinition) (vars : Option Variables)
      (correlationKey businessKey : Option String)
      (k : Circumstances)
  /-- `POST /tasks/:id/claim`. -/
  | claim (taskId : Nat) (claimedBy : String) (now : Time)
  /-- `POST /tasks/:id/release`. -/
  | release (taskId : Nat)
  /-- `POST /tasks/:id/complete`. -/
  | complete (taskId : Nat) (completedBy : String) (vars : Option Variables) (k : Circumstances)
  /-- `DELETE /instances/:id`. -/
  | cancel (instanceId : Nat) (tasks : TaskOrder) (k : Circumstances)
  /-- `POST /instances/:id/force` on a user task. -/
  | force (instanceId tokenId : Nat) (completedBy : String) (vars : Option Variables)
      (tasks : TaskOrder)
      (k : Circumstances)
  /-- All the others: a worker, a timer, a command, a message, a signal to one instance, a
  suspension, a resumption and a forced step of another kind. -/
  | cycle (instanceId : Nat) (c : Cycle) (closes : c.caller.ClosesNothing)

namespace Job

/-- The new instance is inserted with all that it consists of. -/
def startProgram (d : ProcessDefinition) (vars : Option Variables)
    (correlationKey businessKey : Option String) (k : Circumstances) : Program Store :=
  match execute d k.fuel (.startProcess vars correlationKey businessKey) none k.options with
  | .error _ => .done none
  | .ok result => .done (some fun store =>
      (store.executeTransaction (computeStoreOps true none none result.newState ++
        buildUserTaskCreationOps k.firstTaskId result.events d)).toOption)

/-- The record is read, and written as a whole. -/
def rewriteProgram (taskId : Nat) (change : UserTaskRecord → UserTaskRecord) :
    Reading Store (Option (Transaction Store)) := do
  match ← Reading.ask fun store => store.userTasks.get? taskId with
  | none => pure none
  | some task =>
      pure (some fun store => (store.executeTransaction [.updateUserTask (change task)]).toOption)

def completeCycle (task : UserTaskRecord) (completedBy : String) (vars : Option Variables)
    (k : Circumstances) : Cycle :=
  k.cycle (closesTask task k.now) (fun _ => true)
    (.completeUserTask task.tokenId completedBy vars) rfl

def cancelCycle (tasks : TaskOrder) (k : Circumstances) : Cycle :=
  k.cycle (closesOpen tasks.order k.now) (fun state => !state.inst.status.terminal) .cancelInstance
    EngineCommand.cancelInstance_goesOn

def forceCycle (tokenId : Nat) (completedBy : String) (vars : Option Variables) (tasks : TaskOrder)
    (k : Circumstances) : Cycle :=
  k.cycle (closesForced tasks.order tokenId k.now)
    (fun state => decide (∃ t ∈ state.tokens, t.id = tokenId ∧ t.WaitsForUser))
    (.completeUserTask tokenId completedBy vars) rfl

variable (definitions : String → Nat → Option ProcessDefinition)

/-- The record is read first; what it says of the instance and the token is used after that. -/
def completeProgram (taskId : Nat) (completedBy : String) (vars : Option Variables)
    (k : Circumstances) : Reading Store (Option (Transaction Store)) := do
  match ← Reading.ask fun store => store.userTasks.get? taskId with
  | none => pure none
  | some task =>
      if task.status = .completed ∨ task.status = .cancelled then pure none
      else (completeCycle task completedBy vars k).program definitions task.instanceId

def program : Job → Program Store
  | start d vars correlationKey businessKey k => startProgram d vars correlationKey businessKey k
  | claim taskId claimedBy now => rewriteProgram taskId (·.claimed claimedBy now)
  | release taskId => rewriteProgram taskId (·.released)
  | complete taskId completedBy vars k => completeProgram definitions taskId completedBy vars k
  | cancel instanceId tasks k => (cancelCycle tasks k).program definitions instanceId
  | force instanceId tokenId completedBy vars tasks k =>
      (forceCycle tokenId completedBy vars tasks k).program definitions instanceId
  | cycle instanceId c _ => c.program definitions instanceId

end Job

/-- No row of the store has an id from `firstId` on. -/
structure Store.Below (store : Store) (firstId : Nat) : Prop where
  instances : ∀ row ∈ store.instances.values, row.data.id < firstId
  tokens : ∀ t ∈ store.tokens.values, t.id < firstId ∧ t.instanceId < firstId

/-- The first of the ids that the job hands out. -/
def Job.firstId? : Job → Option Nat
  | .start _ _ _ _ k | .complete _ _ _ k | .cancel _ _ k | .force _ _ _ _ _ k =>
    some k.options.firstId
  | .cycle _ c _ => some c.options.firstId
  | .claim _ _ _ | .release _ => none

/-- The ids that the job hands out are new. -/
def Job.HasNewIds (store : Store) (job : Job) : Prop := ∀ n ∈ job.firstId?, store.Below n

/-- Jobs commit with new ids. -/
def newIds (store : Store) (job : Job) (_ : List Store) : Prop := job.HasNewIds store

end NexusWorkflow
